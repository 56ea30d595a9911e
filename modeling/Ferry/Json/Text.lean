import Ferry.Json
import Ferry.Text

/-!
# The text of untyped values

Values as JSON text over several lines, two spaces to a level.
-/
namespace Ferry.Json

/-- A character of a quoted text; controls without a short form are written by number. -/
def writeChar (c : Char) : List Char :=
  if c = '"' then ['\\', '"']
  else if c = '\\' then ['\\', '\\']
  else if c = '\n' then ['\\', 'n']
  else if c = '\r' then ['\\', 'r']
  else if c = '\t' then ['\\', 't']
  else if c = '\x08' then ['\\', 'b']
  else if c = '\x0c' then ['\\', 'f']
  else if c < ' ' then
    let ds := Nat.toDigits 16 c.toNat
    ['\\', 'u'] ++ List.replicate (4 - ds.length) '0' ++ ds
  else [c]

def writeString (s : String) : List Char := '"' :: s.toList.flatMap writeChar ++ ['"']

/-- A line end with the indentation of a level. -/
def newLine (level : Nat) : List Char := '\n' :: List.replicate (2 * level) ' '

/-- Items between brackets, each on its own line. -/
def enclose (opening closing : Char) (level : Nat) : List (List Char) → List Char
  | [] => [opening, closing]
  | items =>
    opening :: newLine (level + 1) ++ joinTexts (',' :: newLine (level + 1)) items ++
      newLine level ++ [closing]

mutual

/-- A value that begins on a line of the given level. -/
def write (level : Nat) : Json → List Char
  | null => "null".toList
  | bool b => (if b then "true" else "false").toList
  | int n => (toString n).toList
  | float x => x.toText.toList
  | str s => writeString s
  | arr items => enclose '[' ']' level (writeItems (level + 1) items)
  | obj fields => enclose '\x7b' '\x7d' level (writeFields (level + 1) fields)

def writeItems (level : Nat) : List Json → List (List Char)
  | [] => []
  | v :: rest => write level v :: writeItems level rest

def writeFields (level : Nat) : List (String × Json) → List (List Char)
  | [] => []
  | (name, v) :: rest =>
    (writeString name ++ [':', ' '] ++ write level v) :: writeFields level rest

end

/-- The text of a value. -/
def pretty (v : Json) : String := String.ofList (v.write 0)

end Ferry.Json
