import Ferry.Config.Basic
import Ferry.ObjectKey

/-!
# Arguments of the command line

A line of arguments is one command with its operands, among options. The options
that choose files and format may stand before the command or after it, and each
at most once in either place; those after the command win. Reading goes from
left to right in `Line.step`.

The texts of help and usage are left out. A line that asks for help (`-h`, `--help`,
or `help` as the command) writes no invocation either: a run of it has the exit code 2
of wrong usage here, in place of the text of help and the exit code 0.
-/
namespace Ferry.Cli

/-- The options that every command takes. -/
structure Settings where
  config : Option String
  manifest : Option String
  format : Option OutputFormat
  deriving DecidableEq, Repr, Inhabited

/-- Settings where given, and others elsewhere. -/
def Settings.orElse (inner outer : Settings) : Settings where
  config := inner.config.or outer.config
  manifest := inner.manifest.or outer.manifest
  format := inner.format.or outer.format

inductive Command where
  | check (deployable channel : ObjectKey)
  | family (deployable : ObjectKey) (channels : List ObjectKey)
  | project (deployable channel : ObjectKey) (apply : Bool)
  | promote (deployable : ObjectKey) (channels : List ObjectKey)
  | cleanup (channel : ObjectKey)
  deriving DecidableEq, Repr

structure Invocation where
  settings : Settings
  command : Command
  deriving DecidableEq, Repr

/-- The names of commands. -/
inductive Verb where
  | check
  | family
  | project
  | promote
  | cleanup
  deriving DecidableEq, Repr

namespace Verb

def ofText? (s : String) : Option Verb :=
  if s = "check" then some check
  else if s = "family" then some family
  else if s = "project" then some project
  else if s = "promote" then some promote
  else if s = "cleanup" then some cleanup
  else none

/-- Whether channels may be named by an option. -/
def takesChannels : Verb → Bool
  | family | promote => true
  | check | project | cleanup => false

def takesApply (verb : Verb) : Bool := verb = project

end Verb

/-- The options with a value. -/
inductive OptionName where
  | config
  | manifest
  | format
  | channel
  deriving DecidableEq, Repr

/-- Sets an option that is not set yet. -/
def Settings.set? (s : Settings) (name : OptionName) (value : String) : Option Settings :=
  match name with
  | .config => if s.config.isSome ∨ value = "" then none else some { s with config := some value }
  | .manifest =>
    if s.manifest.isSome ∨ value = "" then none else some { s with manifest := some value }
  | .format =>
    match s.format, OutputFormat.ofText? value with
    | none, some format => some { s with format := some format }
    | _, _ => none
  | .channel => none

/-- A line of arguments as far as it has been read. -/
structure Line where
  verb : Option Verb
  /-- The options before the command. -/
  outer : Settings
  /-- The options after the command. -/
  inner : Settings
  channels : List ObjectKey
  apply : Bool
  operands : List ObjectKey
  /-- An option whose value comes next. -/
  pending : Option OptionName
  /-- Whether all that follows are operands. -/
  plain : Bool

namespace Line

def start : Line := ⟨none, default, default, [], false, [], none, false⟩

def longOption? (line : Line) (name : List Char) : Option OptionName :=
  if name = "config".toList then some .config
  else if name = "manifest".toList then some .manifest
  else if name = "format".toList then some .format
  else if name = "channel".toList ∧ line.verb.any Verb.takesChannels then some .channel
  else none

def shortOption? (name : Char) : Option OptionName :=
  if name = 'm' then some .manifest else if name = 'f' then some .format else none

/-- Takes an option with its value. -/
def option? (line : Line) (name : OptionName) (value : String) : Option Line :=
  let line := { line with pending := none }
  if name = .channel then
    (ObjectKey.parse? value).map fun key => { line with channels := line.channels ++ [key] }
  else if line.verb.isSome then
    (line.inner.set? name value).map fun inner => { line with inner }
  else (line.outer.set? name value).map fun outer => { line with outer }

/-- Takes an option whose value is part of the argument, or else comes next. -/
def open? (line : Line) (name : OptionName) : Option (List Char) → Option Line
  | some value => line.option? name (String.ofList value)
  | none => some { line with pending := some name }

/-- Takes an argument that begins with two dashes, by the text after them. -/
def long? (line : Line) (text : List Char) : Option Line :=
  let name := text.takeWhile (· ≠ '=')
  let value := (text.dropWhile (· ≠ '=')).tail?
  match line.longOption? name with
  | some name => line.open? name value
  | none =>
    if name = "apply".toList ∧ value = none ∧ line.verb.any Verb.takesApply ∧ !line.apply then
      some { line with apply := true }
    else none

/-- Takes an argument that begins with one dash, by the text after it. -/
def short? (line : Line) : List Char → Option Line
  | [] => none
  | c :: text =>
    match shortOption? c, text with
    | none, _ => none
    | some name, [] => line.open? name none
    | some name, '=' :: value => line.open? name (some value)
    | some name, value => line.open? name (some value)

/-- Takes an operand, or the command if there is none yet. -/
def word? (line : Line) (arg : String) : Option Line :=
  if line.verb.isSome then
    (ObjectKey.parse? arg).map fun key => { line with operands := line.operands ++ [key] }
  else if line.plain then none
  else (Verb.ofText? arg).map fun verb => { line with verb := some verb }

/-- Takes the next argument. One with a dash in front is an option, and a dash alone is a word. -/
def step (line : Line) (arg : String) : Option Line :=
  if line.plain then line.word? arg
  else
    match line.pending, arg.toList with
    | some _, '-' :: _ :: _ => none
    | some name, _ => line.option? name arg
    | none, ['-', '-'] => some { line with plain := true }
    | none, '-' :: '-' :: text => line.long? text
    | none, '-' :: c :: text => line.short? (c :: text)
    | none, _ => line.word? arg

/-- The command with its operands. -/
def command? (line : Line) : Option Command :=
  match line.verb, line.operands with
  | some .check, [deployable, channel] => some (.check deployable channel)
  | some .family, [deployable] => some (.family deployable line.channels)
  | some .project, [deployable, channel] => some (.project deployable channel line.apply)
  | some .promote, [deployable] => some (.promote deployable line.channels)
  | some .cleanup, [channel] => some (.cleanup channel)
  | _, _ => none

end Line

/-- The invocation that arguments write; none if they are used wrongly, or ask for help. -/
def parseArguments (args : List String) : Option Invocation := do
  let line ← args.foldlM Line.step .start
  let command ← if line.pending.isSome then none else line.command?
  return ⟨line.inner.orElse line.outer, command⟩

end Ferry.Cli
