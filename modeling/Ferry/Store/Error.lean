import Ferry.Disk
import Ferry.ObjectKey

/-!
# Failures of stores

What a store answers instead of doing what was asked, and what becomes of that
in the operations that use a store.
-/
namespace Ferry

inductive StoreError where
  | unavailable (reason : String)
  | notFound (key : ObjectKey)
  | alreadyExists (key : ObjectKey)
  | invalid (reason : String)
  | file (path : String) (cause : FileError)
  | parse (text : String)
  | serialize (text : String)
  | poisoned
  deriving DecidableEq, Repr

def StoreError.message : StoreError → String
  | unavailable reason => "store unavailable: " ++ reason
  | notFound key => "deployable not found: " ++ key.text
  | alreadyExists key => "deployable already exists: " ++ key.text
  | invalid reason => "invalid deployable: " ++ reason
  | file path cause => "failed to access " ++ path ++ ": " ++ cause.message
  | parse text => "failed to parse manifest: " ++ text
  | serialize text => "failed to serialize manifest: " ++ text
  | poisoned => "store lock poisoned"

/-- The objects that a cleanup could not delete, each with the cause. -/
structure CleanupFailures where
  channel : Option ObjectKey
  failures : List (ObjectKey × StoreError)
  deriving DecidableEq, Repr

namespace CleanupFailures

def isEmpty (f : CleanupFailures) : Bool := f.failures.isEmpty

def size (f : CleanupFailures) : Nat := f.failures.length

def message (f : CleanupFailures) : String :=
  let head := "failed to delete " ++ toString f.size ++ " deployable(s)"
  let channel := match f.channel with
    | some channel => " for channel " ++ channel.text
    | none => ""
  f.failures.foldl (fun text (key, cause) => text ++ "; " ++ key.text ++ ": " ++ cause.message)
    (head ++ channel)

end CleanupFailures

/-- Why an operation on a store failed. -/
inductive Failure where
  /-- The store failed at something that the context tells. -/
  | store (context : String) (source : StoreError)
  | cleanup (failures : CleanupFailures)
  deriving DecidableEq, Repr

def Failure.message : Failure → String
  | store context source => context ++ ": " ++ source.message
  | cleanup failures => failures.message

end Ferry
