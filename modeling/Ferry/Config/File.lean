import Ferry.Config.Basic
import Ferry.Host

/-!
# Where settings are found

Settings come from a path that is given, or else from the working directory, or
else from the directory of the user's settings. A file that is missing stands
for the standard settings.
-/
namespace Ferry

/-- The name of the file of settings. -/
def configFileName : String := "ferry.toml"

/-- The file of settings among the candidates. The last one need not exist. -/
def chooseConfigPath (explicit : Option String) (localPath : String) (localExists : Bool)
    (configDir : Option String) : Option String :=
  match explicit with
  | some path => some path
  | none =>
    if localExists then some localPath
    else configDir.map fun dir => Path.join (Path.join dir "ferry") configFileName

/-- A file of settings. -/
structure ConfigFile where
  path : String
  deriving DecidableEq, Repr

namespace ConfigFile

/-- The directory that relative paths in the settings start from. -/
def baseDir (file : ConfigFile) : String := (Path.parent? file.path).getD "."

variable {m : Type → Type} [Monad m] [Host m]

/-- The file of settings to use with a working directory and a directory of the user's settings. -/
def resolve (explicit : Option String) (workingDir : String) (configDir : Option String) :
    m (Option ConfigFile) := do
  let localPath := Path.join workingDir configFileName
  let localExists ← Host.pathExists localPath
  return (chooseConfigPath explicit localPath localExists configDir).map .mk

/-- The file of settings to use. -/
def discover (explicit : Option String) : m ConfigFile := do
  let workingDir ← Host.workingDir
  let found ← resolve explicit workingDir (← Host.configDir)
  return found.getD ⟨Path.join workingDir configFileName⟩

def load (file : ConfigFile) : m (Except Config.Error Config) := do
  if ← Host.pathExists file.path then
    match ← Host.readText file.path with
    | .error cause => return .error (.unreadable file.path cause)
    | .ok text => return (Config.parse text).mapError (.inFile file.path)
  else return .ok .standard

end ConfigFile

end Ferry
