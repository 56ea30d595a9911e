import Ferry.Calendar
import Ferry.Text
import Ferry.Toml.Text

/-!
# Dates and times in a TOML document

The format knows dates, times, and both together with or without an offset from
universal time. They are carried as text in one spelling: `T` between date and
time, two digits to a part, no zeros at a fraction's end, and `Z` or a signed
offset.
-/
namespace Ferry.Toml

/-- Exactly so many digits, as they stand. -/
def fixedDigits? (count : Nat) (s : List Char) : Option (Nat × List Char) :=
  let ds := s.take count
  if ds.length = count ∧ ds.all Char.isDigit then
    some (Nat.ofDigitChars 10 ds 0, s.drop count)
  else none

/-- Two digits within bounds. -/
def twoDigits? (least greatest : Nat) (s : List Char) : Option (Nat × List Char) :=
  match fixedDigits? 2 s with
  | some (n, left) => if least ≤ n ∧ n ≤ greatest then some (n, left) else none
  | none => none

def char? (c : Char) : List Char → Option (List Char)
  | d :: s => if d = c then some s else none
  | [] => none

/-- A date of the calendar, in its written form. -/
def date? (s : List Char) : Option (List Char × List Char) := do
  let (year, s) ← fixedDigits? 4 s
  let s ← char? '-' s
  let (month, s) ← twoDigits? 1 12 s
  let s ← char? '-' s
  let (day, s) ← twoDigits? 1 (daysInMonth year month) s
  return (padded 4 year ++ '-' :: padded 2 month ++ '-' :: padded 2 day, s)

/-- The fraction of a second to nine digits, without zeros at its end. -/
def secondFraction (s : List Char) : List Char × List Char :=
  match s with
  | '.' :: t =>
    let ds := t.takeWhile Char.isDigit
    if ds = [] then ([], s)
    else
      let kept := ((ds.take 9).reverse.dropWhile (· = '0')).reverse
      (if kept = [] then [] else '.' :: kept, t.drop ds.length)
  | _ => ([], s)

/-- A time of day; second sixty is a leap second. -/
def time? (s : List Char) : Option (List Char × List Char) := do
  let (hour, s) ← twoDigits? 0 23 s
  let s ← char? ':' s
  let (minute, s) ← twoDigits? 0 59 s
  let s ← char? ':' s
  let (second, s) ← twoDigits? 0 60 s
  let (fraction, s) := secondFraction s
  return (padded 2 hour ++ ':' :: padded 2 minute ++ ':' :: padded 2 second ++ fraction, s)

/-- An offset from universal time; one of zero has a plus. -/
def offset? : List Char → Option (List Char × List Char)
  | c :: s =>
    if c = 'Z' ∨ c = 'z' then some (['Z'], s)
    else if c = '+' ∨ c = '-' then do
      let (hour, s) ← twoDigits? 0 23 s
      let s ← char? ':' s
      let (minute, s) ← twoDigits? 0 59 s
      let mark := if hour = 0 ∧ minute = 0 then '+' else c
      return (mark :: padded 2 hour ++ ':' :: padded 2 minute, s)
    else none
  | [] => none

/-- A time may follow its date after the letter `T` or a space. -/
def timeAfterDate? : List Char → Option (List Char × List Char)
  | c :: s => if c = 'T' ∨ c = 't' ∨ c = ' ' then time? s else none
  | [] => none

/-- A date, a time, or a date and a time, in its one spelling. -/
def dateTime? (s : List Char) : Option (List Char × List Char) :=
  match date? s with
  | some (date, afterDate) =>
    match timeAfterDate? afterDate with
    | none => some (date, afterDate)
    | some (time, afterTime) =>
      match offset? afterTime with
      | none => some (date ++ 'T' :: time, afterTime)
      | some (offset, left) => some (date ++ 'T' :: time ++ offset, left)
  | none => time? s

end Ferry.Toml
