import Ferry.Calendar
import Ferry.Text

/-!
# Points in time

A `Timestamp` is a date and a time of day in universal time, to the nanosecond,
with room for a leap second. It is written in the form of RFC 3339 and read from
a wider set of spellings, with any offset from universal time.
-/
namespace Ferry

structure Timestamp where
  date : Date
  hour : Nat
  minute : Nat
  second : Nat
  nanosecond : Nat
  valid : hour < 24 ∧ minute < 60 ∧ second ≤ 60 ∧ nanosecond < 1000000000
  deriving DecidableEq, Repr

namespace Timestamp

/-- Why a text is no point in time. -/
inductive Fault where
  | tooShort
  | badCharacter
  | outOfRange
  | impossible
  | trailing
  deriving DecidableEq, Repr

def Fault.message : Fault → String
  | tooShort => "premature end of input"
  | badCharacter => "input contains invalid characters"
  | outOfRange => "input is out of range"
  | impossible => "no possible date and time matching input"
  | trailing => "trailing input"

/-- A year has four digits, or else a sign and at least five characters with it. -/
def writeYear (year : Int) : List Char :=
  if 0 ≤ year ∧ year ≤ 9999 then padded 4 year.toNat
  else (if year < 0 then '-' else '+') :: padded 4 year.natAbs

/-- The fraction of a second in three, six or nine digits, whatever it needs. -/
def writeFraction (nanosecond : Nat) : List Char :=
  if nanosecond = 0 then []
  else if nanosecond % 1000000 = 0 then '.' :: padded 3 (nanosecond / 1000000)
  else if nanosecond % 1000 = 0 then '.' :: padded 6 (nanosecond / 1000)
  else '.' :: padded 9 nanosecond

def toText (t : Timestamp) : String :=
  String.ofList (writeYear t.date.year ++ '-' :: padded 2 t.date.month ++ '-' ::
    padded 2 t.date.day ++ 'T' :: padded 2 t.hour ++ ':' :: padded 2 t.minute ++ ':' ::
    padded 2 t.second ++ writeFraction t.nanosecond ++ ['Z'])

/-- At most so many digits, but at least one. -/
def number (most : Nat) (s : List Char) : Except Fault (Nat × List Char) :=
  let ds := (s.take most).takeWhile Char.isDigit
  let n := Nat.ofDigitChars 10 ds 0
  match s, ds with
  | [], _ => .error .tooShort
  | _, [] => .error .badCharacter
  | s, ds => if n < 9223372036854775808 then .ok (n, s.drop ds.length) else .error .outOfRange

/-- A number of at most two digits within bounds, after white space. -/
def field (least greatest : Nat) (s : List Char) : Except Fault (Nat × List Char) := do
  let (n, s) ← number 2 (skipWhiteSpace s)
  if least ≤ n ∧ n ≤ greatest then .ok (n, s) else .error .outOfRange

/-- A mark between two fields, after white space. -/
def mark (c : Char) (s : List Char) : Except Fault (List Char) :=
  match skipWhiteSpace s with
  | d :: s => if d = c then .ok s else .error .badCharacter
  | [] => .error .tooShort

/-- A year of at most four digits, or of any number of them after a sign. -/
def yearField (s : List Char) : Except Fault (Int × List Char) := do
  match skipWhiteSpace s with
  | '-' :: s =>
    let (n, s) ← number s.length s
    if n ≤ 2147483648 then .ok (-n, s) else .error .outOfRange
  | '+' :: s =>
    let (n, s) ← number s.length s
    if n < 2147483648 then .ok (n, s) else .error .outOfRange
  | s =>
    let (n, s) ← number 4 s
    .ok (n, s)

/-- The fraction of a second; digits past the ninth are dropped. -/
def fractionField (s : List Char) : Except Fault (Nat × List Char) :=
  match s with
  | '.' :: s =>
    match s, s.takeWhile Char.isDigit with
    | [], _ => .error .tooShort
    | _, [] => .error .badCharacter
    | s, ds =>
      let kept := ds.take 9
      .ok (Nat.ofDigitChars 10 kept 0 * Nat.pow 10 (9 - kept.length), s.drop ds.length)
  | s => .ok (0, s)

/-- Two digits of an offset. -/
def offsetDigits (s : List Char) : Except Fault (Nat × List Char) :=
  match s with
  | a :: b :: s =>
    if a.isDigit ∧ b.isDigit then .ok (Nat.ofDigitChars 10 [a, b] 0, s)
    else .error .badCharacter
  | [c] => if c.toNat < 128 then .error .tooShort else .error .badCharacter
  | [] => .error .tooShort

/-- The minutes of an offset; the colon before them may be left out. -/
def offsetMinutes (s : List Char) : Except Fault (Nat × List Char) := do
  let (n, s) ← offsetDigits (s.dropWhile fun c => c = ':' || isWhiteSpace c)
  if n < 60 then .ok (n, s) else .error .outOfRange

/-- Hours and minutes of an offset, in minutes. -/
def signedOffset (negative : Bool) (s : List Char) : Except Fault (Int × List Char) := do
  let (hours, s) ← offsetDigits s
  let (minutes, s) ← offsetMinutes s
  let n : Int := 60 * hours + minutes
  .ok (if negative then -n else n, s)

/-- An offset from universal time in minutes: a letter, a name, or a signed number. -/
def offsetField (s : List Char) : Except Fault (Int × List Char) :=
  let s := skipWhiteSpace s
  if (s.take 3).map Char.toUpper = ['U', 'T', 'C'] then .ok (0, s.drop 3)
  else
    match s with
    | c :: s =>
      if c = 'Z' ∨ c = 'z' then .ok (0, s)
      else if c = '+' then signedOffset false s
      else if c = '-' ∨ c = '\u2212' then signedOffset true s
      else .error .badCharacter
    | [] => .error .tooShort

/-- The time of day is set off by a letter or a space. -/
def separator : List Char → Except Fault (List Char)
  | c :: s => if c = 'T' ∨ c = 't' ∨ c = ' ' then .ok s else .error .badCharacter
  | [] => .error .tooShort

/-- The day that lies so many days after another, by one at most. -/
def shiftDate (date : Date) (days : Int) : Option Date :=
  if days = 0 then some date else if 0 < days then date.next? else date.previous?

/-- The point in universal time at which clocks with an offset show a time. -/
def ofLocal (date : Date) (hour minute second nanosecond : Nat) (offset : Int) :
    Except Fault Timestamp :=
  let minutes := (60 * hour + minute : Int) - offset
  match shiftDate date (minutes / 1440) with
  | none => .error .impossible
  | some date =>
    let minutes := (minutes % 1440).toNat
    if h : second ≤ 60 ∧ nanosecond < 1000000000 ∧ minutes < 1440 then
      .ok ⟨date, minutes / 60, minutes % 60, second, nanosecond, by omega⟩
    else .error .outOfRange

/-- Reads a point in time. White space may stand before each part. -/
def parse (text : String) : Except Fault Timestamp := do
  let (year, s) ← yearField text.toList
  let s ← mark '-' s
  let (month, s) ← field 1 12 s
  let s ← mark '-' s
  let (day, s) ← field 1 31 s
  let s ← separator s
  let (hour, s) ← field 0 23 s
  let s ← mark ':' s
  let (minute, s) ← field 0 59 s
  let s ← mark ':' s
  let (second, s) ← field 0 60 s
  let (nanosecond, s) ← fractionField s
  let (offset, s) ← offsetField s
  if !s.all isWhiteSpace then .error .trailing
  match Date.ofNumbers? year month day with
  | none => .error .outOfRange
  | some date =>
    if offset.natAbs < 1440 then ofLocal date hour minute second nanosecond offset
    else .error .outOfRange

/-- The point in time that lies so many nanoseconds after the first instant of the year 1970. -/
def ofEpochNanoseconds (n : Nat) : Timestamp :=
  let seconds := n / 1000000000
  { date := .ofEpochDays (seconds / 86400)
    hour := seconds / 3600 % 24
    minute := seconds / 60 % 60
    second := seconds % 60
    nanosecond := n % 1000000000
    valid := by omega }

/-- The first instant of the year 2000. -/
def year2000 : Timestamp :=
  ⟨⟨2000, 1, 1, by decide⟩, 0, 0, 0, 0, by decide⟩

instance : Inhabited Timestamp := ⟨year2000⟩

end Timestamp

end Ferry
