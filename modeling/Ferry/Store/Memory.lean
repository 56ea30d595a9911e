import Ferry.Store.Basic

/-!
# A store in memory

Objects under their keys. Each change is a function from one content to the
next, and a call that fails changes nothing.
-/
namespace Ferry

/-- Deployables by key. -/
abbrev Memory := SortedMap ObjectKey Deployable

namespace Memory

/-- The content made of these objects as they are; of two with one key the later stays. -/
def ofDeployables (objects : List Deployable) : Memory :=
  SortedMap.ofList (objects.map fun d => (d.key, d))

/-- The objects in key order. -/
def list (memory : Memory) (space : Option String) : List Deployable :=
  inSpace space memory.values

def create (memory : Memory) (allocation : Allocation) (d : Deployable) :
    Except StoreError (Deployable × Memory) :=
  (prepareForCreate allocation memory.contains d).map fun created =>
    (created, memory.insert created.key created)

def delete (memory : Memory) (key : ObjectKey) : Except StoreError Memory :=
  if memory.contains key then .ok (memory.erase key) else .error (.notFound key)

/-- The store whose content is the state. -/
def store {m : Type → Type} [Monad m] [MonadStateOf Memory m] (draw : m Allocation) :
    Store m where
  list space := do return (← getThe Memory).list space
  get key := do return (← getThe Memory).get? key
  create d := do
    let allocation ← draw
    let (created, memory) ← liftExcept ((← getThe Memory).create allocation d)
    set memory
    return created
  delete key := do set (← liftExcept ((← getThe Memory).delete key))
where
  liftExcept {α : Type} (r : Except StoreError α) : ExceptT StoreError m α := ExceptT.mk (pure r)

end Memory

end Ferry
