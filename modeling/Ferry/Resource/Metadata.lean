import Ferry.ObjectKey
import Ferry.Timestamp

/-!
# Metadata of objects

Name, namespace, labels and annotations, which deployables and channels share,
and the reference from a projection back to the object it was derived from. Some
annotations have a meaning: projection writes them, and the resolver reads them.
-/
namespace Ferry

/-- The version that objects get unless they name another. -/
def apiVersion : String := "apps.ferry.io/v1"

abbrev StringMap := SortedMap String String

namespace Annotation

/-- The identity of the root that a projection came from. -/
def channelSource : String := "channel-source"

/-- The identity of the channel that a projection was placed into. -/
def channel : String := "channel"

/-- True on every projection. -/
def isGenerated : String := "is-generated"

/-- False on every projection. -/
def isLocal : String := "is-local"

end Annotation

/-- A reference to the object that another one was derived from. -/
structure OwnerReference where
  apiVersion : String
  kind : String
  name : String
  uid : Option String
  deriving DecidableEq

instance : Inhabited OwnerReference := ⟨⟨"", "", "", none⟩⟩

/-- What is known of an object besides its content. Absent annotations differ from empty ones: a
gate is never passed without annotations. -/
structure Metadata where
  name : String
  space : String
  /-- The beginning of the name that the store gives to an object without one. -/
  generateName : Option String
  /-- Given by the store. -/
  uid : Option String
  /-- Given by the store. -/
  createdAt : Option Timestamp
  labels : StringMap
  annotations : Option StringMap
  owners : List OwnerReference
  deriving DecidableEq

namespace Metadata

/-- Metadata of an object that is not stored yet. -/
def new (space name : String) : Metadata where
  name := name
  space := space
  generateName := none
  uid := none
  createdAt := none
  labels := .empty
  annotations := none
  owners := []

instance : Inhabited Metadata := ⟨new "" ""⟩

def key (m : Metadata) : ObjectKey := ⟨m.space, m.name⟩

def annotation? (m : Metadata) (key : String) : Option String :=
  m.annotations.bind (·.get? key)

/-- Sets an annotation, among no others if there were none. -/
def annotate (m : Metadata) (key value : String) : Metadata :=
  { m with annotations := some ((m.annotations.getD .empty).insert key value) }

/-- The generated beginning of a name, if it is set and not empty. -/
def generateName? (m : Metadata) : Option String := m.generateName.filter (· ≠ "")

end Metadata

end Ferry
