import Ferry.Config.Basic
import Ferry.Store.Error
import Ferry.Toml.Writer

/-!
# Failing commands

A command that fails says why on the error stream: the message, and below it the
messages of the causes, indented.
-/
namespace Ferry.Cli

inductive Error where
  | config (e : Config.Error)
  | manifest (path : String) (cause : StoreError)
  | noDeployable (key : ObjectKey)
  | noChannel (key : ObjectKey)
  | failed (failure : Failure)
  /-- A cleanup that did not delete everything. -/
  | leftBehind (channel : ObjectKey) (failures : CleanupFailures)
  | rendering (cause : Toml.WriteError)

/-- The message of a store's failure with that of its cause. -/
def storeChain (e : StoreError) : List String :=
  match e with
  | .file _ cause => [e.message, cause.message]
  | e => [e.message]

/-- The message with the messages of its causes, the outermost first. -/
def Error.chain : Error → List String
  | config e => e.chain
  | manifest path cause => ("Failed to read manifest " ++ path) :: storeChain cause
  | noDeployable key => ["Deployable not found: " ++ key.text]
  | noChannel key => ["Channel not found: " ++ key.text]
  | failed failure =>
    match failure with
    | .store _ source => failure.message :: storeChain source
    | .cleanup _ => [failure.message]
  | leftBehind channel failures =>
    ["Cleanup of " ++ channel.text ++ " left " ++ toString failures.size ++
      " deployable(s) behind"]
  | rendering cause => ["Failed to render projection", cause.message]

/-- Puts a text before the first line of a text, and another before all further lines. -/
def indent (first others : String) (text : String) : String :=
  first ++ String.ofList (text.toList.flatMap fun c =>
    if c = '\n' then c :: others.toList else [c])

/-- The causes of a failure, numbered if there are several. -/
def showCauses : List String → String
  | [] => ""
  | [cause] => "\n\nCaused by:\n" ++ indent "    " "    " cause
  | causes =>
    "\n\nCaused by:\n" ++ "\n".intercalate (causes.mapIdx fun i cause =>
      indent (padLeft 5 (toString i) ++ ": ") "       " cause)

/-- What a failing command writes to the error stream. -/
def Error.report (e : Error) : String :=
  let before := match e with
    | leftBehind _ failures =>
      failures.failures.map fun (key, cause) => "✗ " ++ key.text ++ ": " ++ cause.message ++ "\n"
    | _ => []
  let message := match e.chain with
    | [] => ""
    | outermost :: causes => "Error: " ++ outermost ++ showCauses causes ++ "\n"
  "".intercalate before ++ message

end Ferry.Cli
