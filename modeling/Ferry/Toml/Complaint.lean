import Ferry.Decoding
import Ferry.Text
import Ferry.Toml.Reader

/-!
# Complaints about a TOML document

A complaint names the line where reading or decoding stopped and shows it with
the lines around it: one before it and two after it, as far as there are any.
-/
namespace Ferry.Toml

/-- A line without the carriage return at its end. -/
def dropReturn (line : List Char) : List Char :=
  if line.getLast? = some '\r' then line.dropLast else line

/-- The lines of a text, from the characters of the current line in reverse. -/
def linesFrom : (line : List Char) → List Char → List (List Char)
  | [], [] => []
  | line, [] => [line.reverse]
  | line, '\n' :: s => dropReturn line.reverse :: linesFrom [] s
  | line, c :: s => linesFrom (c :: line) s

/-- The lines of a text without their ends. A newline at the text's end begins no further line. -/
def linesOf (text : List Char) : List (List Char) := linesFrom [] text

/-- A line with its number, marked if it is the one in question. -/
def showLine (marked number : Nat) (line : List Char) : String :=
  (if number = marked then ">>>" else "   ") ++ " " ++ padLeft 4 (toString number) ++ " | " ++
    String.ofList line

/-- The lines shown around a line. -/
def lineContext (text : List Char) (number : Nat) : String :=
  let shown := ((linesOf text).take (number + 2)).drop (number - 2)
  "\n".intercalate (shown.mapIdx fun i line => showLine number (number - 2 + i + 1) line)

/-- A complaint at a place of a text, or about the text as a whole. -/
def complaint (text : List Char) (mark : Option Mark) (reason : String) : String :=
  match mark with
  | some mark =>
    let number := lineOf text mark
    "TOML parsing error at line " ++ toString number ++ ":\n" ++ lineContext text number ++
      "\n\nError: " ++ reason
  | none => "TOML parsing error: " ++ reason

/-- Decodes the document that a text writes. -/
def decodeText {α : Type} (decode : Decoder α) (text : String) : Except String α :=
  match readDocument text.toList with
  | .error e => .error (complaint text.toList (some e.mark) e.wanted.message)
  | .ok node =>
    match decode .toml (.ofNode node) with
    | .ok a => .ok a
    | .error e => .error (complaint text.toList e.mark e.cause.message)

end Ferry.Toml
