import Ferry.Json
import Ferry.Text
import Ferry.Toml.Quoted

/-!
# Writing a TOML document

An object is written as a document of sections. A section has the plain values
of one table, under its header; tables and arrays of tables below it follow as
sections of their own, depth first. What TOML cannot hold is found beforehand.
-/
namespace Ferry.Toml

/-- Why a value has no TOML form. -/
inductive WriteError where
  | null
  | tooLarge
  deriving DecidableEq, Repr

def WriteError.message : WriteError → String
  | null => "unsupported unit type"
  | tooLarge => "out-of-range value for u64 type"

mutual

/-- The first part of a value that cannot be written. -/
def writeError? : Json → Option WriteError
  | .null => some .null
  | .int n => if int64Bound ≤ n then some .tooLarge else none
  | .bool _ | .float _ | .str _ => none
  | .arr items => writeErrorItems? items
  | .obj fields => writeErrorFields? fields

def writeErrorItems? : List Json → Option WriteError
  | [] => none
  | v :: rest => (writeError? v).or (writeErrorItems? rest)

def writeErrorFields? : List (String × Json) → Option WriteError
  | [] => none
  | (_, v) :: rest => (writeError? v).or (writeErrorFields? rest)

end

/-- An array on one line if it has at most one item, and else with a line for every item. -/
def bracketItems : List (List Char) → List Char
  | [] => ['[', ']']
  | [item] => '[' :: item ++ [']']
  | items =>
    '[' :: items.flatMap (fun item => ['\n', ' ', ' ', ' ', ' '] ++ item ++ [',']) ++ ['\n', ']']

/-- A table between braces. -/
def bracePairs : List (List Char) → List Char
  | [] => ['\x7b', '\x7d']
  | pairs => ['\x7b', ' '] ++ joinTexts [',', ' '] pairs ++ [' ', '\x7d']

def writePair (key : String) (value : List Char) : List Char :=
  writeKey key ++ [' ', '=', ' '] ++ value

mutual

/-- A value to the right of its key. -/
def writeValue : Json → List Char
  | .null => []
  | .bool b => (if b then "true" else "false").toList
  | .int n => (toString n).toList
  | .float x => x.toPositional.toList
  | .str s => quote s
  | .arr items => bracketItems (writeValues items)
  | .obj fields => bracePairs (writeFields fields)

def writeValues : List Json → List (List Char)
  | [] => []
  | v :: rest => writeValue v :: writeValues rest

def writeFields : List (String × Json) → List (List Char)
  | [] => []
  | (key, v) :: rest => writePair key (writeValue v) :: writeFields rest

end

def isTable : Json → Bool
  | .obj _ => true
  | _ => false

/-- Whether a field is written under headers: it is a table, or a list of nothing but tables. -/
def hasHeaders : Json → Bool
  | .obj _ => true
  | .arr items => !items.isEmpty && items.all isTable
  | _ => false

/-- The lines of the fields that are written without headers. -/
def plainLines (fields : List (String × Json)) : List Char :=
  (fields.filter fun f => !hasHeaders f.2).flatMap fun (key, v) =>
    writePair key (writeValue v) ++ ['\n']

/-- A path of keys as a header has it. -/
def writePath (path : List String) : List Char := joinTexts ['.'] (path.map writeKey)

/-- The section of a table with a header. One that has only tables below it needs none. -/
def tableSection (path : List String) (fields : List (String × Json)) : List (List Char) :=
  if !fields.isEmpty && fields.all (fun f => hasHeaders f.2) then []
  else ['[' :: writePath path ++ [']', '\n'] ++ plainLines fields]

/-- The section of a table of an array. -/
def elementSection (path : List String) (fields : List (String × Json)) : List Char :=
  ['[', '['] ++ writePath path ++ [']', ']', '\n'] ++ plainLines fields

mutual

/-- The sections below a table. -/
def sectionsBelow (path : List String) : List (String × Json) → List (List Char)
  | [] => []
  | (key, v) :: rest => sectionsOf (path ++ [key]) v ++ sectionsBelow path rest

/-- The sections of a field. -/
def sectionsOf (path : List String) : Json → List (List Char)
  | .obj fields => tableSection path fields ++ sectionsBelow path fields
  | .arr items => if items.all isTable then elementSections path items else []
  | .null | .bool _ | .int _ | .float _ | .str _ => []

def elementSections (path : List String) : List Json → List (List Char)
  | [] => []
  | .obj fields :: rest =>
    elementSection path fields :: (sectionsBelow path fields ++ elementSections path rest)
  | .arr _ :: rest | .null :: rest | .bool _ :: rest | .int _ :: rest | .float _ :: rest
  | .str _ :: rest => elementSections path rest

end

/-- The sections of a document with a blank line between them. -/
def writeDocument (fields : List (String × Json)) : List Char :=
  let plain := plainLines fields
  joinTexts ['\n'] ((if plain = [] then [] else [plain]) ++ sectionsBelow [] fields)

/-- The TOML text of an object, if every part of it can be written. -/
def render (fields : List (String × Json)) : Except WriteError String :=
  match writeErrorFields? fields with
  | some e => .error e
  | none => .ok (String.ofList (writeDocument fields))

end Ferry.Toml
