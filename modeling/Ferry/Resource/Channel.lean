import Ferry.Resource.Metadata

/-!
# Channels

A channel is a named place that deployables are promoted into. It may have a
gate, and may name source namespaces whose deployables need not declare it.
-/
namespace Ferry

/-- A gate asks for annotations, each with its value. A gate without a list of annotations is open;
an empty list still asks for annotations of some kind. -/
structure ChannelGate where
  annotations : Option StringMap
  deriving DecidableEq

instance : Inhabited ChannelGate := ⟨⟨none⟩⟩

structure ChannelSpec where
  gates : Option ChannelGate
  /-- Deployables of these namespaces need not declare the channel, if it has gates. -/
  sourceSpaces : Option (List String)
  deriving DecidableEq

instance : Inhabited ChannelSpec := ⟨⟨none, none⟩⟩

structure Channel where
  apiVersion : String
  kind : String
  metadata : Metadata
  spec : ChannelSpec
  deriving DecidableEq

namespace Channel

def defaultKind : String := "Channel"

def new (space name : String) : Channel where
  apiVersion := Ferry.apiVersion
  kind := defaultKind
  metadata := .new space name
  spec := default

instance : Inhabited Channel := ⟨new "" ""⟩

def name (c : Channel) : String := c.metadata.name

def space (c : Channel) : String := c.metadata.space

def key (c : Channel) : ObjectKey := c.metadata.key

def identity (c : Channel) : String := c.key.text

/-- The annotations that the gate asks for, if it asks for any. -/
def gateAnnotations? (c : Channel) : Option StringMap := c.spec.gates.bind (·.annotations)

def acceptsSource (c : Channel) (space : String) : Bool :=
  c.spec.sourceSpaces.any (·.contains space)

/-- Makes sure that there is a gate. -/
def withGate (c : Channel) : Channel := { c with spec.gates := some (c.spec.gates.getD default) }

def withGateAnnotation (c : Channel) (key value : String) : Channel :=
  { c with spec.gates := some ⟨some ((c.gateAnnotations?.getD .empty).insert key value)⟩ }

def withSourceSpace (c : Channel) (space : String) : Channel :=
  { c with spec.sourceSpaces := some (c.spec.sourceSpaces.getD [] ++ [space]) }

end Channel

end Ferry
