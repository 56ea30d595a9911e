/-!
# Characters and lines of a TOML document

A reading function takes the text that is left and returns what it read with
the text left after it. A text that cannot be read is refused with the part of
it that was left where reading stopped; the number of the line there is a count
of newlines.
-/
namespace Ferry.Toml

/-- A result with the text left after it, or the text left where reading stopped. -/
abbrev Reading (α : Type) := Except (List Char) (α × List Char)

/-- The 63rd power of two. Integers are less than it and not less than its negative. -/
def int64Bound : Int := 9223372036854775808

/-- The line, from one, on which the last part of a text begins. -/
def lineOf (text left : List Char) : Nat :=
  1 + ((text.take (text.length - left.length)).filter (· = '\n')).length

def isBlank (c : Char) : Bool := c = ' ' || c = '\t'

/-- Control characters stand neither in strings nor in comments; the tab is none of them here. -/
def isControl (c : Char) : Bool := (c < ' ' && c ≠ '\t') || c = '\x7f'

def skipBlanks (s : List Char) : List Char := s.dropWhile isBlank

/-- The text after a line end, which is a newline with or without a carriage return before it. -/
def newline? : List Char → Option (List Char)
  | '\n' :: s => some s
  | '\r' :: '\n' :: s => some s
  | _ => none

/-- The text after a comment, which ends before its line end. -/
def skipComment : List Char → List Char
  | '#' :: s => s.dropWhile fun c => !isControl c
  | s => s

/-- Blanks and a comment may follow on a line, and then the line has to end. -/
def endLine (s : List Char) : Except (List Char) (List Char) :=
  match skipComment (skipBlanks s) with
  | [] => .ok []
  | left =>
    match newline? left with
    | some s => .ok s
    | none => .error left

/-- Skips blanks, line ends and comments; the flag tells whether a comment is open. A comment has
to end with its line, and a carriage return has to belong to a line end. -/
def skipSpaceFrom : Bool → List Char → Except (List Char) (List Char)
  | _, '\n' :: s => skipSpaceFrom false s
  | _, '\r' :: '\n' :: s => skipSpaceFrom false s
  | true, c :: s => if isControl c then .error (c :: s) else skipSpaceFrom true s
  | true, [] => .error []
  | false, c :: s =>
    if isBlank c then skipSpaceFrom false s
    else if c = '#' then skipSpaceFrom true s
    else if c = '\r' then .error (c :: s)
    else .ok (c :: s)
  | false, [] => .ok []

/-- Inside brackets a value may be spread over lines, with comments between its items. -/
def skipSpace (s : List Char) : Except (List Char) (List Char) := skipSpaceFrom false s

/-- Requires a character. -/
def expect (c : Char) : List Char → Except (List Char) (List Char)
  | d :: s => if d = c then .ok s else .error (d :: s)
  | [] => .error []

/-- The text after a fixed word, if the text begins with it. -/
def dropWord? : List Char → List Char → Option (List Char)
  | [], s => some s
  | c :: word, d :: s => if c = d then dropWord? word s else none
  | _ :: _, [] => none

end Ferry.Toml
