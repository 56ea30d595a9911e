import Ferry.Resource.Deployable
import Ferry.Store.Error

/-!
# Stores of deployables

What the operations need of a store, over any monad, and the rule by which every
store completes an object that is about to be created.
-/
namespace Ferry

/-- A store lists, gets, creates and deletes deployables; each call may fail. -/
structure Store (m : Type → Type) where
  /-- All objects, or those of one namespace. -/
  list : Option String → ExceptT StoreError m (List Deployable)
  get : ObjectKey → ExceptT StoreError m (Option Deployable)
  /-- Stores a new object and returns it as stored. -/
  create : Deployable → ExceptT StoreError m Deployable
  delete : ObjectKey → ExceptT StoreError m Unit

/-- The objects among a list that a store shows for a namespace. -/
def inSpace (space : Option String) (objects : List Deployable) : List Deployable :=
  match space with
  | none => objects
  | some space => objects.filter (·.space = space)

/-- What a store draws for one new object: endings to try for its name, a uid and the time. -/
structure Allocation where
  endings : List String
  uid : String
  createdAt : Timestamp
  deriving DecidableEq

instance : Inhabited Allocation := ⟨⟨[], "", default⟩⟩

/-- A store tries this many endings. -/
def nameAttempts : Nat := 8

/-- The first name with the given beginning that is not taken. -/
def freshName? (allocation : Allocation) (taken : ObjectKey → Bool) (space start : String) :
    Option String :=
  ((allocation.endings.take nameAttempts).map (start ++ ·)).find? fun name => !taken ⟨space, name⟩

/-- The name of a new object: its own if it is free, or else one made from its beginning. -/
def allocateName (allocation : Allocation) (taken : ObjectKey → Bool) (d : Deployable) :
    Except StoreError String :=
  if d.space = "" then .error (.invalid "namespace is required")
  else if d.name = "" then
    match d.metadata.generateName? with
    | none => .error (.invalid "name or generate_name is required")
    | some start =>
      match freshName? allocation taken d.space start with
      | some name => .ok name
      | none => .error (.unavailable ("could not allocate a unique name for " ++ start))
  else if taken d.key then .error (.alreadyExists d.key)
  else .ok d.name

/-- A new object with all that the store gives it. -/
def prepareForCreate (allocation : Allocation) (taken : ObjectKey → Bool) (d : Deployable) :
    Except StoreError Deployable :=
  (allocateName allocation taken d).map fun name =>
    { d with
      metadata :=
        { d.metadata with
          name, uid := some allocation.uid, createdAt := some allocation.createdAt } }

end Ferry
