import Ferry.Cli.Arguments
import Ferry.Cli.Error
import Ferry.Cli.Report
import Ferry.Config.File
import Ferry.Store.ManifestFile

/-!
# Running a command

A command reads the settings, then the manifest, and prints a report. All that it
reads and writes goes through the host; what it prints is its result.
-/
namespace Ferry.Cli

variable {m : Type → Type} [Monad m] [Host m]

/-- The manifest and the format that a command works with. -/
structure Session where
  manifest : String
  format : OutputFormat

/-- What a run leaves: the exit code and both streams. -/
structure Exit where
  code : Nat
  stdout : String
  stderr : String
  deriving DecidableEq, Repr

/-- An answer of the manifest's store. -/
def Session.read {α : Type} (session : Session) (r : ExceptT StoreError m α) :
    ExceptT Error m α :=
  r.adapt (.manifest session.manifest)

def Session.deployable (session : Session) (key : ObjectKey) : ExceptT Error m Deployable := do
  match ← session.read (ManifestFile.get session.manifest key) with
  | some d => return d
  | none => throw (.noDeployable key)

def Session.channel (session : Session) (key : ObjectKey) : ExceptT Error m Channel := do
  match ← session.read (ManifestFile.channel session.manifest key) with
  | some c => return c
  | none => throw (.noChannel key)

/-- The channels with given keys, or all of them if none are given. -/
def Session.channels (session : Session) (keys : List ObjectKey) :
    ExceptT Error m (List Channel) :=
  if keys.isEmpty then session.read (ManifestFile.channels session.manifest)
  else keys.mapM session.channel

def Session.store (session : Session) : Store m := ManifestFile.store session.manifest

def liftRendering (r : Except Toml.WriteError String) : ExceptT Error m String :=
  ExceptT.mk (pure (r.mapError .rendering))

/-- Stores a projection. -/
def Session.apply (session : Session) (channel : ObjectKey) (projection : Deployable) :
    ExceptT Error m Deployable :=
  (ManifestFile.create session.manifest projection).adapt fun source =>
    .failed (.store ("failed to store projection into " ++ channel.text) source)

/-- The failures of a cleanup, as the command reports them. -/
def cleanupError (channel : ObjectKey) : Failure → Error
  | .cleanup failures => .leftBehind channel failures
  | failure => .failed failure

/-- Runs a command; the result is what it prints. -/
def Session.run (session : Session) : Command → ExceptT Error m String
  | .check deployable channel => do
    let d ← session.deployable deployable
    let c ← session.channel channel
    return checkReport session.format d c
  | .family deployable channels => do
    let d ← session.deployable deployable
    let spaces := (← session.channels channels).map Channel.space
    let family ← (resolveFamily session.store d spaces).adapt .failed
    return familyReport session.format d family
  | .project deployable channel apply => do
    let d ← session.deployable deployable
    let c ← session.channel channel
    let projection := project d c.key
    let shown ← if apply then session.apply c.key projection else pure projection
    liftRendering (projectionReport session.format shown)
  | .promote deployable channels => do
    let d ← session.deployable deployable
    let cs ← session.channels channels
    let report ← (promote session.store d cs).adapt .failed
    return promotionReport session.format report
  | .cleanup channel => do
    let report ← (cleanup session.store channel).adapt (cleanupError channel)
    return cleanupReport session.format channel report

/-- Reads the settings and runs the command. -/
def Invocation.run (invocation : Invocation) : ExceptT Error m String := do
  let file ← ExceptT.lift (ConfigFile.discover invocation.settings.config)
  let config ← ExceptT.mk do return (← file.load).mapError .config
  let session : Session :=
    { manifest := invocation.settings.manifest.getD (config.manifestPath file.baseDir)
      format := invocation.settings.format.getD config.output }
  session.run invocation.command

/-- Runs a line of arguments. One that is used wrongly has exit code 2, and a command that fails
has exit code 1. -/
def run (args : List String) : m Exit := do
  match parseArguments args with
  | none => return ⟨2, "", ""⟩
  | some invocation =>
    match ← invocation.run.run with
    | .ok stdout => return ⟨0, stdout, ""⟩
    | .error e => return ⟨1, "", e.report⟩

end Ferry.Cli
