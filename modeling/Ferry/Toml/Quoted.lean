import Ferry.Toml.Text

/-!
# Quoted text

TOML has four ways to quote a text: in double quotes with escapes or in single
quotes as it stands, each on one line or over several lines between three
quotes. All four are read by one loop, `scan`, that asks a step function what
the text left to read begins with. The writer takes the first way that needs no
escape.
-/
namespace Ferry.Toml

/-- What a text left to read begins with, inside quotes. -/
inductive Move where
  /-- Characters of the value, written with the next character and `more` after it. -/
  | emit (value : List Char) (more : Nat)
  /-- The end, with characters that still belong to the value and the text after the quotes. -/
  | close (value : List Char) (left : List Char)
  | refuse (left : List Char)

/-- Collects the characters of a quoted text, in reverse, up to its end. -/
def scan (step : List Char → Move) : (skip : Nat) → (value : List Char) → List Char →
    Reading (List Char)
  | _, value, [] =>
    match step [] with
    | .close cs left => .ok (value.reverse ++ cs, left)
    | .emit _ _ => .error []
    | .refuse left => .error left
  | skip + 1, value, _ :: s => scan step skip value s
  | 0, value, c :: s =>
    match step (c :: s) with
    | .emit cs more => scan step more (cs.reverse ++ value) s
    | .close cs left => .ok (value.reverse ++ cs, left)
    | .refuse left => .error left

def isHexDigit (c : Char) : Bool :=
  c.isDigit || ('a' ≤ c && c ≤ 'f') || ('A' ≤ c && c ≤ 'F')

def hexDigitValue (c : Char) : Nat :=
  if c.isDigit then c.toNat - '0'.toNat
  else if 'a' ≤ c then c.toNat - 'a'.toNat + 10
  else c.toNat - 'A'.toNat + 10

/-- The number that hexadecimal digits write. -/
def ofHexDigits (cs : List Char) : Nat := cs.foldl (fun n c => 16 * n + hexDigitValue c) 0

/-- A character written by its code point in a fixed number of hexadecimal digits. -/
def codePoint (count : Nat) (s : List Char) : Move :=
  let ds := s.take count
  let n := ofHexDigits ds
  if ds.length = count ∧ ds.all isHexDigit ∧ n.isValidChar then .emit [Char.ofNat n] (count + 1)
  else .refuse s

/-- What a backslash stands for, by the text after it. -/
def escape : List Char → Move
  | 'b' :: _ => .emit ['\x08'] 1
  | 't' :: _ => .emit ['\t'] 1
  | 'n' :: _ => .emit ['\n'] 1
  | 'f' :: _ => .emit ['\x0c'] 1
  | 'r' :: _ => .emit ['\r'] 1
  | '"' :: _ => .emit ['"'] 1
  | '\\' :: _ => .emit ['\\'] 1
  | 'u' :: s => codePoint 4 s
  | 'U' :: s => codePoint 8 s
  | _ :: s => .refuse s
  | [] => .refuse []

/-- Double quotes on one line. -/
def basicStep : List Char → Move
  | '"' :: s => .close [] s
  | '\\' :: s => escape s
  | c :: s => if isControl c then .refuse (c :: s) else .emit [c] 0
  | [] => .refuse []

/-- Single quotes on one line: nothing is escaped. -/
def literalStep : List Char → Move
  | '\'' :: s => .close [] s
  | c :: s => if isControl c then .refuse (c :: s) else .emit [c] 0
  | [] => .refuse []

/-- A run of quotes inside three quotes: one or two belong to the value, and of a longer run the
last three close it, with up to two before them. -/
def quoteRun (quote : Char) (s : List Char) : Move :=
  let run := (s.takeWhile (· = quote)).take 5
  if 3 ≤ run.length then .close (run.drop 3) (s.drop run.length) else .emit [quote] 0

/-- The text after blanks and line ends. -/
def skipLines : List Char → List Char
  | '\n' :: s => skipLines s
  | '\r' :: '\n' :: s => skipLines s
  | c :: s => if isBlank c then skipLines s else c :: s
  | [] => []

/-- Double quotes over several lines: a backslash at a line's end joins it to the next text. -/
def multilineBasicStep : List Char → Move
  | '"' :: s => quoteRun '"' ('"' :: s)
  | '\\' :: s =>
    match newline? (skipBlanks s) with
    | some next => .emit [] (s.length - (skipLines next).length)
    | none => escape s
  | '\r' :: '\n' :: _ => .emit ['\n'] 1
  | '\n' :: _ => .emit ['\n'] 0
  | c :: s => if isControl c then .refuse (c :: s) else .emit [c] 0
  | [] => .refuse []

/-- Single quotes over several lines. -/
def multilineLiteralStep : List Char → Move
  | '\'' :: s => quoteRun '\'' ('\'' :: s)
  | '\r' :: '\n' :: _ => .emit ['\n'] 1
  | '\n' :: _ => .emit ['\n'] 0
  | c :: s => if isControl c then .refuse (c :: s) else .emit [c] 0
  | [] => .refuse []

/-- The text after three opening quotes, less a line end that follows them directly. -/
def skipFirstNewline (s : List Char) : List Char := (newline? s).getD s

/-- A quoted text on one line. -/
def readQuotedLine : List Char → Reading String
  | '"' :: s => (scan basicStep 0 [] s).map fun (cs, left) => (String.ofList cs, left)
  | '\'' :: s => (scan literalStep 0 [] s).map fun (cs, left) => (String.ofList cs, left)
  | s => .error s

/-- A quoted text in any of the four ways. -/
def readQuoted : List Char → Reading String
  | '"' :: '"' :: '"' :: s =>
    (scan multilineBasicStep 0 [] (skipFirstNewline s)).map fun (cs, left) =>
      (String.ofList cs, left)
  | '\'' :: '\'' :: '\'' :: s =>
    (scan multilineLiteralStep 0 [] (skipFirstNewline s)).map fun (cs, left) =>
      (String.ofList cs, left)
  | s => readQuotedLine s

/-- Whether more than two of a character stand in a row. -/
def hasLongRun (quote : Char) : List Char → Bool
  | a :: b :: c :: s => (a = quote && b = quote && c = quote) || hasLongRun quote (b :: c :: s)
  | _ => false

/-- The hexadecimal digits of a number, at least four of them. -/
def fourHexDigits (n : Nat) : List Char :=
  let ds := (Nat.toDigits 16 n).map Char.toUpper
  List.replicate (4 - ds.length) '0' ++ ds

/-- A character between double quotes on one line. -/
def escapeChar (c : Char) : List Char :=
  if c = '\x08' then ['\\', 'b']
  else if c = '\t' then ['\\', 't']
  else if c = '\n' then ['\\', 'n']
  else if c = '\x0c' then ['\\', 'f']
  else if c = '\r' then ['\\', 'r']
  else if c = '"' then ['\\', '"']
  else if c = '\\' then ['\\', '\\']
  else if isControl c then '\\' :: 'u' :: fourHexDigits c.toNat
  else [c]

/-- The characters between double quotes over several lines: line ends stand for themselves, and
of quotes in a row every third is escaped. -/
def escapeMultiline : (quotes : Nat) → List Char → List Char
  | _, [] => []
  | quotes, '"' :: s =>
    if quotes = 2 then '\\' :: '"' :: escapeMultiline 0 s else '"' :: escapeMultiline (quotes + 1) s
  | _, '\n' :: s => '\n' :: escapeMultiline 0 s
  | _, c :: s => escapeChar c ++ escapeMultiline 0 s

/-- How a text is quoted. -/
inductive Quotes where
  | basic
  | literal
  | multilineBasic
  | multilineLiteral
  deriving DecidableEq, Repr

/-- The first way of quoting that needs no escape, or else double quotes. -/
def quotesFor (cs : List Char) : Quotes :=
  let control := cs.any fun c => isControl c && c ≠ '\n'
  let newline := cs.contains '\n'
  let backslash := cs.contains '\\'
  if !control && !newline && !backslash && !cs.contains '"' then .basic
  else if !control && !newline && !cs.contains '\'' then .literal
  else if !control && !backslash && !hasLongRun '"' cs then .multilineBasic
  else if !control && !hasLongRun '\'' cs then .multilineLiteral
  else if newline then .multilineBasic
  else .basic

/-- A text in given quotes; over several lines, one that has line ends begins on a line of its
own. -/
def Quotes.write (cs : List Char) : Quotes → List Char
  | .basic => '"' :: cs.flatMap escapeChar ++ ['"']
  | .literal => '\'' :: cs ++ ['\'']
  | .multilineBasic =>
    ['"', '"', '"'] ++ (if cs.contains '\n' then ['\n'] else []) ++ escapeMultiline 0 cs ++
      ['"', '"', '"']
  | .multilineLiteral =>
    ['\'', '\'', '\''] ++ (if cs.contains '\n' then ['\n'] else []) ++ cs ++ ['\'', '\'', '\'']

def quote (s : String) : List Char := (quotesFor s.toList).write s.toList

/-- Characters of a key that needs no quotes. -/
def isBareKeyChar (c : Char) : Bool := c.isAlphanum || c = '_' || c = '-'

/-- A key bare if it can be, and else quoted on one line. -/
def writeKey (key : String) : List Char :=
  let cs := key.toList
  let control := cs.any isControl
  if !cs.isEmpty && cs.all isBareKeyChar then cs
  else if !control && !cs.contains '\\' && !cs.contains '"' then Quotes.basic.write cs
  else if !control && !cs.contains '\'' then Quotes.literal.write cs
  else Quotes.basic.write cs

end Ferry.Toml
