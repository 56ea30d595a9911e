import Ferry.Json
import Ferry.Resource.Metadata

/-!
# Deployables

A deployable is a template that channels distribute. It declares the channels
it wants to be in, and may say where and how it is to be instantiated.
-/
namespace Ferry

/-- Where a template is to be instantiated. -/
structure Placement where
  clusters : List String
  clusterSelector : StringMap
  deriving DecidableEq

instance : Inhabited Placement := ⟨⟨[], .empty⟩⟩

/-- Patches on top of the template for one cluster. -/
structure Override where
  clusterName : String
  patches : List Payload
  deriving DecidableEq

instance : Inhabited Override := ⟨⟨"", []⟩⟩

/-- Another object that has to exist first. -/
structure Dependency where
  kind : String
  name : String
  space : Option String
  deriving DecidableEq

instance : Inhabited Dependency := ⟨⟨"", "", none⟩⟩

structure DeployableSpec where
  /-- Carried to every projection without a look inside. -/
  template : Option Payload
  /-- The channels that the deployable declares. -/
  channels : List ObjectKey
  placement : Option Placement
  overrides : List Override
  dependencies : List Dependency
  deriving DecidableEq

instance : Inhabited DeployableSpec := ⟨⟨none, [], none, [], []⟩⟩

structure Deployable where
  apiVersion : String
  kind : String
  metadata : Metadata
  spec : DeployableSpec
  deriving DecidableEq

namespace Deployable

def defaultKind : String := "Deployable"

def new (space name : String) : Deployable where
  apiVersion := Ferry.apiVersion
  kind := defaultKind
  metadata := .new space name
  spec := default

instance : Inhabited Deployable := ⟨new "" ""⟩

def name (d : Deployable) : String := d.metadata.name

def space (d : Deployable) : String := d.metadata.space

def key (d : Deployable) : ObjectKey := d.metadata.key

/-- The identity text, by which annotations refer to the object. -/
def identity (d : Deployable) : String := d.key.text

def annotation? (d : Deployable) (key : String) : Option String := d.metadata.annotation? key

/-- Whether the deployable declares a channel. -/
def declares (d : Deployable) (channel : ObjectKey) : Bool := d.spec.channels.contains channel

/-- The reference that a projection of this object holds. -/
def ownerReference (d : Deployable) : OwnerReference where
  apiVersion := d.apiVersion
  kind := d.kind
  name := d.name
  uid := d.metadata.uid

/-- The beginning of the names of projections. A projection's own one is a dash longer than that
of the object it was derived from. -/
def projectionNameStart (d : Deployable) : String :=
  d.metadata.generateName?.getD d.name ++ "-"

/-- The source that the annotations name, if they do. -/
def source? (d : Deployable) : Option String :=
  (d.annotation? Annotation.channelSource).filter (· ≠ "")

/-- The identity of the object at the beginning of a chain of projections. -/
def root (d : Deployable) : String := d.source?.getD d.identity

def withGenerateName (d : Deployable) (start : String) : Deployable :=
  { d with metadata.generateName := some start }

def withChannel (d : Deployable) (channel : ObjectKey) : Deployable :=
  { d with spec.channels := d.spec.channels ++ [channel] }

def withAnnotation (d : Deployable) (key value : String) : Deployable :=
  { d with metadata := d.metadata.annotate key value }

def withLabel (d : Deployable) (key value : String) : Deployable :=
  { d with metadata.labels := d.metadata.labels.insert key value }

def withTemplate (d : Deployable) (template : Payload) : Deployable :=
  { d with spec.template := some template }

end Deployable

end Ferry
