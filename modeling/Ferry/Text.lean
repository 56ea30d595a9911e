import Ferry.Unicode

/-!
# Texts

White space, numbers and texts in columns, rows of texts with a text between them,
and texts as messages quote them.
-/
namespace Ferry

/-! ### White space -/

/-- The characters that Unicode gives the property White_Space. -/
def isWhiteSpace (c : Char) : Bool :=
  let n := c.toNat
  (0x09 ≤ n && n ≤ 0x0d) || n = 0x20 || n = 0x85 || n = 0xa0 || n = 0x1680 ||
    (0x2000 ≤ n && n ≤ 0x200a) || n = 0x2028 || n = 0x2029 || n = 0x202f || n = 0x205f ||
    n = 0x3000

/-- The text after leading white space. -/
def skipWhiteSpace (s : List Char) : List Char := s.dropWhile isWhiteSpace

/-- A text is blank if it has nothing but white space. -/
def isBlankText (s : String) : Bool := s.toList.all isWhiteSpace

/-! ### Columns and rows -/

/-- A number in at least so many decimal digits. -/
def padded (count n : Nat) : List Char :=
  let ds := Nat.toDigits 10 n
  List.replicate (count - ds.length) '0' ++ ds

/-- A text in a column of at least so many characters, at the left. -/
def padRight (width : Nat) (s : String) : String :=
  s ++ String.ofList (List.replicate (width - s.length) ' ')

/-- A text in a column of at least so many characters, at the right. -/
def padLeft (width : Nat) (s : String) : String :=
  String.ofList (List.replicate (width - s.length) ' ') ++ s

/-- Puts a text between texts. -/
def joinTexts (between : List Char) : List (List Char) → List Char
  | [] => []
  | [text] => text
  | text :: rest => text ++ between ++ joinTexts between rest

/-! ### Quotations

A message shows a text between double quotes on one line. Characters that cannot
be seen, and those that would change the character before them, are shown by
number.
-/

/-- Controls, separators other than the space, format characters, and code points of private
use. -/
def blankRanges : Unicode.Ranges :=
  [(0x0, 0x1f), (0x7f, 0xa0), (0xad, 0xad), (0x600, 0x605), (0x61c, 0x61c), (0x6dd, 0x6dd),
    (0x70f, 0x70f), (0x890, 0x891), (0x8e2, 0x8e2), (0x1680, 0x1680), (0x180e, 0x180e),
    (0x2000, 0x200f), (0x2028, 0x202f), (0x205f, 0x2064), (0x2066, 0x206f), (0x3000, 0x3000),
    (0xe000, 0xf8ff), (0xfeff, 0xfeff), (0xfff9, 0xfffb), (0x110bd, 0x110bd), (0x110cd, 0x110cd),
    (0x13430, 0x1343f), (0x1bca0, 0x1bca3), (0x1d173, 0x1d17a), (0xe0001, 0xe0001),
    (0xe0020, 0xe007f), (0xf0000, 0xffffd), (0x100000, 0x10fffd)]

/-- Letters that stand for a missing part of a syllable and are blank. -/
def fillerRanges : Unicode.Ranges := [(0x115f, 0x1160), (0x3164, 0x3164), (0xffa0, 0xffa0)]

def isShownByNumber (c : Char) : Bool :=
  if ' ' ≤ c && c ≤ '~' then false
  else
    blankRanges.has c || fillerRanges.has c || Unicode.isExtending c || Unicode.isUnassigned c

def quotedChar (c : Char) : List Char :=
  if c = '"' then ['\\', '"']
  else if c = '\\' then ['\\', '\\']
  else if c = '\n' then ['\\', 'n']
  else if c = '\r' then ['\\', 'r']
  else if c = '\t' then ['\\', 't']
  else if c = '\x00' then ['\\', '0']
  else if isShownByNumber c then
    ['\\', 'u', '\x7b'] ++ Nat.toDigits 16 c.toNat ++ ['\x7d']
  else [c]

/-- A text between double quotes. -/
def quotation (s : String) : String :=
  String.ofList ('"' :: s.toList.flatMap quotedChar ++ ['"'])

/-- A word or number between grave accents. -/
def ticked (s : String) : String := "\x60" ++ s ++ "\x60"

end Ferry
