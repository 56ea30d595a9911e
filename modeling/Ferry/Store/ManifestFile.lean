import Ferry.Host
import Ferry.Manifest

/-!
# A store in a manifest file

Every call reads the manifest from its file, and a call that changes something
writes it back as a whole. A file that is missing is an empty manifest.
-/
namespace Ferry.ManifestFile

variable {m : Type → Type} [Monad m] [Host m]

def liftStore {α : Type} (r : Except StoreError α) : ExceptT StoreError m α := ExceptT.mk (pure r)

/-- An answer of the host about a path. -/
def liftFile {α : Type} (path : String) (r : m (Except FileError α)) : ExceptT StoreError m α :=
  ExceptT.mk do return (← r).mapError (.file path)

def load (path : String) : ExceptT StoreError m Manifest := do
  if ← ExceptT.lift (Host.pathExists path) then
    let text ← liftFile path (Host.readText path)
    liftStore (Manifest.parse text)
  else return .empty

/-- Writes a manifest, after making the directory that its file is in. -/
def save (path : String) (manifest : Manifest) : ExceptT StoreError m Unit := do
  let text ← liftStore manifest.toToml
  match Path.parent? path with
  | some dir => if dir ≠ "" then liftFile dir (Host.makeDirectories dir)
  | none => pure ()
  liftFile path (Host.writeText path text)

def list (path : String) (space : Option String) : ExceptT StoreError m (List Deployable) :=
  return inSpace space (← load path).deployables

def get (path : String) (key : ObjectKey) : ExceptT StoreError m (Option Deployable) :=
  return (← load path).deployable? key

def create (path : String) (d : Deployable) : ExceptT StoreError m Deployable := do
  let manifest ← load path
  let allocation ← ExceptT.lift Host.draw
  let taken := fun key => (manifest.deployable? key).isSome
  let created ← liftStore (prepareForCreate allocation taken d)
  save path { manifest with deployables := manifest.deployables ++ [created] }
  return created

def delete (path : String) (key : ObjectKey) : ExceptT StoreError m Unit := do
  let manifest ← load path
  let kept := manifest.deployables.filter (·.key ≠ key)
  if kept.length = manifest.deployables.length then throw (.notFound key)
  save path { manifest with deployables := kept }

def channels (path : String) : ExceptT StoreError m (List Channel) :=
  return (← load path).channels

def channel (path : String) (key : ObjectKey) : ExceptT StoreError m (Option Channel) :=
  return (← load path).channel? key

/-- The store in a file. -/
def store (path : String) : Store m where
  list := list path
  get := get path
  create := create path
  delete := delete path

end Ferry.ManifestFile
