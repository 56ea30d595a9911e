import Ferry.Disk
import Ferry.Text
import Ferry.Toml.Complaint

/-!
# Settings

The settings of the program and their TOML form. A choice between names has a
form of its own in each format: a name, or a table with one empty field.
-/
namespace Ferry

inductive OutputFormat where
  | table
  | json
  deriving DecidableEq, Repr, Inhabited

namespace OutputFormat

def text : OutputFormat → String
  | table => "table"
  | json => "json"

def ofText? (s : String) : Option OutputFormat :=
  if s = "table" then some table else if s = "json" then some json else none

def ofName (name : String) : Decoded OutputFormat :=
  match ofText? name with
  | some format => .ok format
  | none => Decoder.fail (.unknownVariant name ["table", "json"])

/-- The only field of an object may name the format, with null as its value. -/
def ofJsonFields : List (String × Datum) → Decoded OutputFormat
  | [(name, content)] => do
    let format ← ofName name
    match content with
    | .null => .ok format
    | content => Decoder.mismatch .json content "unit"
  | _ => Decoder.fail .notSingleKey

/-- Complains unless a value is an empty table or array. -/
def checkEmpty : Datum → Decoded Unit
  | .map [] | .seq [] => .ok ()
  | .map _ | .seq _ => complain "expected empty table"
  | .tables _ => complain "expected empty array"
  | .str _ => complain "expected table, found string"
  | .int _ => complain "expected table, found integer"
  | .real _ => complain "expected table, found float"
  | .bool _ => complain "expected table, found boolean"
  | .dateTime _ => complain "expected table, found datetime"
  | .null => complain "expected table, found none"
  | .located mark d => Decoder.locate mark (checkEmpty d)
  | .keyed _ d => checkEmpty d
where
  complain (text : String) : Decoded Unit := Decoder.fail (.choice text)

/-- The only field of a table may name the format, with an empty table as its value. -/
def ofTomlFields : List (String × Datum) → Decoded OutputFormat
  | [] => Decoder.fail (.choice "wanted exactly 1 element, found 0 elements")
  | [(name, content)] => do
    let format ← match content with
      | .keyed mark _ => Decoder.locate mark (ofName name)
      | _ => ofName name
    checkEmpty content
    return format
  | _ => Decoder.fail (.choice "wanted exactly 1 element, more than 1 element")

def decode : Decoder OutputFormat := fun format => Decoder.visit fun d =>
  match format, d with
  | _, .str name => ofName name
  | .json, .map fields => ofJsonFields fields
  | .json, d => Decoder.mismatch .json d "string or map"
  | .toml, .map fields => ofTomlFields fields
  | .toml, _ => Decoder.fail (.choice "wanted string or table")

end OutputFormat

/-- The settings. -/
structure Config where
  /-- The path of the manifest, from the directory that holds the settings. -/
  manifest : String
  logFilter : Option String
  output : OutputFormat
  deriving DecidableEq, Repr

namespace Config

/-- The settings that hold where there is no file. -/
def standard : Config := ⟨"manifest.toml", none, .table⟩

instance : Inhabited Config := ⟨standard⟩

def schema : Schema Config where
  name := "FerryConfig"
  blank := standard
  fields :=
    [.default "manifest" (Decoder.text "path string") fun v c => { c with manifest := v },
      .default "log_filter" (Decoder.optional Decoder.string) fun v c => { c with logFilter := v },
      .default "output" OutputFormat.decode fun v c => { c with output := v }]

/-- Settings that are well formed but make no sense. -/
inductive Fault where
  | emptyManifest
  | blankFilter
  deriving DecidableEq, Repr

def Fault.message : Fault → String
  | emptyManifest => "manifest path must not be empty"
  | blankFilter => "log_filter must not be blank when set"

def fault? (c : Config) : Option Fault :=
  if c.manifest = "" then some .emptyManifest
  else if c.logFilter.any isBlankText then some .blankFilter
  else none

/-- The path of the manifest for settings that are held in a directory. -/
def manifestPath (c : Config) (base : String) : String := Path.join base c.manifest

/-- Why settings cannot be used. -/
inductive Error where
  | malformed (complaint : String)
  | rejected (fault : Fault)
  | unreadable (path : String) (cause : FileError)
  | inFile (path : String) (cause : Error)

/-- The message with the messages of its causes, the outermost first. -/
def Error.chain : Error → List String
  | malformed complaint => [complaint]
  | rejected fault => [fault.message]
  | unreadable path cause => ["Failed to read config file: " ++ path, cause.message]
  | inFile path cause => ("Failed to parse config file: " ++ path) :: cause.chain

def parse (text : String) : Except Error Config :=
  match Toml.decodeText schema.decode text with
  | .error complaint => .error (.malformed complaint)
  | .ok c =>
    match c.fault? with
    | some fault => .error (.rejected fault)
    | none => .ok c

end Config

end Ferry
