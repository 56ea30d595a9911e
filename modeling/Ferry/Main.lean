import Ferry.Cli.Run
import Ferry.Store.Chance
import Std.Time

/-!
# The program

The host is the machine: its files, its clock and its source of randomness.
-/
namespace Ferry

/-- What went wrong with a file. -/
def FileError.ofSystem : IO.Error → FileError
  | .noFileOrDirectory .. => .missing
  | .alreadyExists .. => .occupied
  | .inappropriateType _ 20 _ => .notDirectory
  | .inappropriateType .. => .isDirectory
  | .invalidArgument _ 36 _ => .nameTooLong
  | e => .other (toString e)

/-- Runs an action on files; what it throws is an answer. -/
def tryFile {α : Type} (act : IO α) : IO (Except FileError α) := do
  try
    return .ok (← act)
  catch e => return .error (.ofSystem e)

/-- The present time. -/
def now : IO Timestamp := do
  let t ← Std.Time.Timestamp.now
  return .ofEpochNanoseconds t.toNanosecondsSinceUnixEpoch.val.toNat

/-- The directory of the user's settings, if the environment names one. -/
def userConfigDir : IO (Option String) := do
  match ← IO.getEnv "XDG_CONFIG_HOME", ← IO.getEnv "HOME" with
  | some dir, home =>
    if Path.isAbsolute dir then return some dir
    else return home.map fun home => Path.join home ".config"
  | none, home => return home.map fun home => Path.join home ".config"

instance : Host IO where
  pathExists path := do
    return (← tryFile (IO.FS.Handle.mk path .read)).isOk
  readText path := do
    match ← tryFile (IO.FS.readBinFile path) with
    | .error e => return .error e
    | .ok bytes =>
      match String.fromUTF8? bytes with
      | some text => return .ok text
      | none => return .error .notText
  writeText path content := tryFile (IO.FS.writeFile path content)
  makeDirectories path := tryFile (IO.FS.createDirAll path)
  workingDir := do return (← IO.currentDir).toString
  configDir := userConfigDir
  draw := do
    let bytes ← IO.getRandomBytes (.ofNat Allocation.byteCount)
    return .ofBytes bytes.toList (← now)

end Ferry

def main (args : List String) : IO UInt32 := do
  let exit ← Ferry.Cli.run args
  IO.print exit.stdout
  IO.eprint exit.stderr
  return exit.code.toUInt32
