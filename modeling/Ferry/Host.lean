import Ferry.Disk
import Ferry.Store.Basic

/-!
# The host of the program

What the program needs of the machine it runs on: files, its directories, and
fresh names, uids and times. `World` is a host that is a value, with a disk and
a supply of allocations in place of chance.
-/
namespace Ferry

/-- A monad in which files can be read and written and new objects get their data. -/
class Host (m : Type → Type) where
  /-- Whether a path leads to anything. -/
  pathExists : String → m Bool
  readText : String → m (Except FileError String)
  writeText : String → String → m (Except FileError Unit)
  /-- Makes a directory with all that lead to it. -/
  makeDirectories : String → m (Except FileError Unit)
  workingDir : m String
  /-- The directory of the user's settings, if there is one. -/
  configDir : m (Option String)
  /-- Draws what a new object gets. -/
  draw : m Allocation

/-- A host as a value. -/
structure World where
  disk : Disk
  workingDir : String
  configDir : Option String
  /-- What the draws give, by their number. -/
  supply : Nat → Allocation
  drawn : Nat

namespace World

/-- A path has fewer bytes than this. -/
def pathLimit : Nat := 4096

/-- The absolute form of a path. -/
def resolve (world : World) (path : String) : Except FileError String :=
  if path.toList.contains '\x00' then .error .badPath
  else if path = "" then .error .missing
  else if pathLimit ≤ path.utf8ByteSize then .error .nameTooLong
  else .ok (Path.join world.workingDir path)

/-- Takes over a changed disk, unless the change failed. -/
def change (f : World → Except FileError Disk) : StateM World (Except FileError Unit) := do
  let world ← get
  match f world with
  | .ok disk =>
    set { world with disk }
    return .ok ()
  | .error e => return .error e

instance : Host (StateM World) where
  pathExists path := do
    let world ← get
    match world.resolve path with
    | .ok path => return world.disk.exists? path
    | .error _ => return false
  readText path := do
    let world ← get
    return world.resolve path >>= world.disk.read
  writeText path content :=
    change fun world => do world.disk.write (← world.resolve path) (.text content)
  makeDirectories path := change fun world => do world.disk.makeDirectories (← world.resolve path)
  workingDir := do return (← get).workingDir
  configDir := do return (← get).configDir
  draw := modifyGet fun world => (world.supply world.drawn, { world with drawn := world.drawn + 1 })

end World

end Ferry
