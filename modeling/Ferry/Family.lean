import Ferry.Store.Basic

/-!
# Parents and children

Projections have no pointers to their family. Parent and children are found
again from annotations and from the beginning of generated names, in a snapshot
of all objects and through an index of it that is built once.
-/
namespace Ferry

/-- The objects of a snapshot by identity and by source. -/
structure SnapshotIndex where
  byIdentity : SortedMap String Deployable
  /-- Objects of one source stand in the order of the snapshot. -/
  bySource : SortedMap String (List Deployable)

namespace SnapshotIndex

def empty : SnapshotIndex := ⟨.empty, .empty⟩

/-- Objects whose annotation names a source. -/
def sourcedFrom (index : SnapshotIndex) (identity : String) : List Deployable :=
  (index.bySource.get? identity).getD []

/-- Enters one more object; a later one takes the place of an earlier one with its identity. -/
def add (index : SnapshotIndex) (d : Deployable) : SnapshotIndex where
  byIdentity := index.byIdentity.insert d.identity d
  bySource :=
    match d.annotation? Annotation.channelSource with
    | some source => index.bySource.insert source (index.sourcedFrom source ++ [d])
    | none => index.bySource

def ofSnapshot (snapshot : List Deployable) : SnapshotIndex := snapshot.foldl add empty

/-- The object with an identity. -/
def get? (index : SnapshotIndex) (identity : String) : Option Deployable :=
  index.byIdentity.get? identity

/-- Whether an object was placed into a channel. -/
def isPlacedIn (channel : ObjectKey) (d : Deployable) : Bool :=
  d.space = channel.space && d.annotation? Annotation.channel = some channel.text

/-- The last projection of a root into a channel, of any generation. -/
def projectionOf? (index : SnapshotIndex) (root : String) (channel : ObjectKey) :
    Option Deployable :=
  (index.sourcedFrom root).reverse.find? (isPlacedIn channel)

end SnapshotIndex

/-- The object that a deployable was projected from, and its own projections under their channel
annotations. -/
structure Family where
  parent : Option Deployable
  children : SortedMap String Deployable
  deriving DecidableEq

namespace Family

def empty : Family := ⟨none, .empty⟩

/-- Whether an object that names `d` as its source is a projection of `d` itself, in one of the
namespaces. -/
def isChild (d : Deployable) (spaces : List String) (candidate : Deployable) : Bool :=
  candidate.metadata.generateName = some d.projectionNameStart && spaces.contains candidate.space

/-- The family of a deployable; without namespaces it has none. -/
def ofIndex (index : SnapshotIndex) (d : Deployable) (spaces : List String) : Family :=
  if spaces.isEmpty then empty
  else
    { parent := d.source?.bind index.get?
      children := SortedMap.ofList <|
        ((index.sourcedFrom d.identity).filter (isChild d spaces)).map fun child =>
          ((child.annotation? Annotation.channel).getD "", child) }

def ofSnapshot (snapshot : List Deployable) (d : Deployable) (spaces : List String) : Family :=
  ofIndex (.ofSnapshot snapshot) d spaces

/-- The projection into a channel, if there is one. -/
def childFor? (family : Family) (channel : ObjectKey) : Option Deployable :=
  family.children.get? channel.text

end Family

/-- Lists all objects on behalf of a deployable. -/
def listSnapshot {m : Type → Type} [Monad m] (store : Store m) (d : Deployable) :
    ExceptT Failure m (List Deployable) :=
  (store.list none).adapt (.store ("failed to list deployables for " ++ d.identity))

/-- The family of a deployable in a store. Without namespaces the store is not asked. -/
def resolveFamily {m : Type → Type} [Monad m] (store : Store m) (d : Deployable)
    (spaces : List String) : ExceptT Failure m Family :=
  if spaces.isEmpty then return .empty
  else return .ofSnapshot (← listSnapshot store d) d spaces

end Ferry
