import Ferry.Store.Basic

/-!
# Cleanup of a retired channel

All objects in the channel's namespace that declare the channel are deleted.
Every delete is attempted, and all failures are reported together.
-/
namespace Ferry

/-- What a cleanup deleted. -/
structure CleanupReport where
  deleted : List ObjectKey
  deriving DecidableEq, Repr

/-- Deletes objects one after another, with the answer of the store to each. -/
def deleteEach {m : Type → Type} [Monad m] (store : Store m) (keys : List ObjectKey) :
    m (List (ObjectKey × Except StoreError Unit)) :=
  keys.mapM fun key => return (key, ← (store.delete key).run)

/-- The keys whose delete succeeded. -/
def deletedKeys (answers : List (ObjectKey × Except StoreError Unit)) : List ObjectKey :=
  answers.filterMap fun (key, answer) =>
    match answer with
    | .ok () => some key
    | .error _ => none

/-- The keys whose delete failed, with the causes. -/
def failedKeys (answers : List (ObjectKey × Except StoreError Unit)) :
    List (ObjectKey × StoreError) :=
  answers.filterMap fun (key, answer) =>
    match answer with
    | .ok () => none
    | .error cause => some (key, cause)

/-- Deletes what declares a channel in the channel's namespace. -/
def cleanup {m : Type → Type} [Monad m] (store : Store m) (channel : ObjectKey) :
    ExceptT Failure m CleanupReport := do
  let objects ← (store.list (some channel.space)).adapt (.store
    ("failed to list deployables while cleaning up channel " ++ channel.text))
  let targets := (objects.filter (·.declares channel)).map Deployable.key
  let answers ← ExceptT.lift (deleteEach store targets)
  match failedKeys answers with
  | [] => return ⟨deletedKeys answers⟩
  | failures => throw (.cleanup ⟨some channel, failures⟩)

end Ferry
