/-!
# Finite binary floating-point numbers

A number is a sign, a 53-bit significand and a power of two, in the one form
the 64-bit format has for it. Decimal text is rounded to the nearest such
number in exact integer arithmetic, a tie going to the even significand. In the
other direction `shortest` gives the fewest decimal digits that round back. Two
decimals may be equally near; which one is taken is up to the way of writing.
-/
namespace Ferry

/-- The 52nd power of two, which is the least significand of a normalized number. -/
def leastNormal : Nat := 4503599627370496

/-- The number `± significand * 2 ^ exponent`, normalized unless the exponent is the least. -/
structure Binary64 where
  negative : Bool
  significand : Nat
  exponent : Int
  canonical : significand < 2 * leastNormal ∧ -1074 ≤ exponent ∧ exponent ≤ 971 ∧
    (leastNormal ≤ significand ∨ exponent = -1074)
  deriving DecidableEq

namespace Binary64

/-- Zero keeps its sign. -/
def zero (negative : Bool) : Binary64 := ⟨negative, 0, -1074, by decide⟩

instance : Inhabited Binary64 := ⟨zero false⟩

/-- The number with these parts, if the format has one. -/
def ofParts? (negative : Bool) (significand : Nat) (exponent : Int) : Option Binary64 :=
  if h : significand < 2 * leastNormal ∧ -1074 ≤ exponent ∧ exponent ≤ 971 ∧
      (leastNormal ≤ significand ∨ exponent = -1074) then
    some ⟨negative, significand, exponent, h⟩
  else none

/-- Which of two integers is taken for a quotient that lies half-way between them. -/
inductive Tie where
  | toEven
  | up
  deriving DecidableEq, Repr

/-- The quotient rounded to the nearest integer. -/
def roundDiv (tie : Tie) (num den : Nat) : Nat :=
  let floor := num / den
  let double := 2 * (num % den)
  if den < double ∨ (den = double ∧ (tie = .up ∨ floor % 2 = 1)) then floor + 1 else floor

/-- The greatest power of two that does not exceed a positive quotient. -/
def ratioLog2 (num den : Nat) : Int :=
  let guess : Int := (num.log2 : Int) - (den.log2 : Int)
  let reached :=
    if 0 ≤ guess then den * Nat.pow 2 guess.toNat ≤ num else den ≤ num * Nat.pow 2 (-guess).toNat
  if reached then guess else guess - 1

/-- The number nearest to a quotient; none beyond the largest one. -/
def ofRatio? (negative : Bool) (num den : Nat) : Option Binary64 :=
  if num = 0 then some (zero negative)
  else
    let exponent := max (-1074) (ratioLog2 num den - 52)
    let significand :=
      if 0 ≤ exponent then roundDiv .toEven num (den * Nat.pow 2 exponent.toNat)
      else roundDiv .toEven (num * Nat.pow 2 (-exponent).toNat) den
    if significand = 2 * leastNormal then ofParts? negative leastNormal (exponent + 1)
    else ofParts? negative significand exponent

/-- The decimal digits of a natural number. -/
def digits (n : Nat) : List Char := Nat.toDigits 10 n

/-- The number nearest to `digits * 10 ^ exponent`. A power of ten far outside the format decides
without being computed. -/
def ofDecimal? (negative : Bool) (coefficient : Nat) (exponent : Int) : Option Binary64 :=
  let magnitude := exponent + (digits coefficient).length
  if coefficient = 0 ∨ magnitude < -330 then some (zero negative)
  else if 330 < magnitude then none
  else if 0 ≤ exponent then ofRatio? negative (coefficient * Nat.pow 10 exponent.toNat) 1
  else ofRatio? negative coefficient (Nat.pow 10 (-exponent).toNat)

/-- The number nearest to an integer. -/
def ofInt? (n : Int) : Option Binary64 := ofDecimal? (decide (n < 0)) n.natAbs 0

/-- A decimal `coefficient * 10 ^ exponent`, whose coefficient ends in no zero. -/
structure Decimal where
  coefficient : Nat
  exponent : Int
  deriving DecidableEq, Repr

/-- Moves the zeros at a coefficient's end into the exponent. -/
def stripZeros : Nat → Nat → Int → Decimal
  | 0, n, e => ⟨n, e⟩
  | fuel + 1, n, e => if n ≠ 0 ∧ n % 10 = 0 then stripZeros fuel (n / 10) (e + 1) else ⟨n, e⟩

/-- Numerator and denominator of a power. -/
def powRatio (base : Nat) (exponent : Int) : Nat × Nat :=
  if 0 ≤ exponent then (Nat.pow base exponent.toNat, 1) else (1, Nat.pow base (-exponent).toNat)

/-- The digit count of a quotient's integer part; for a quotient below one, minus the number of
zeros that follow its point. -/
def ratioMagnitude (num den : Nat) : Int :=
  if den ≤ num then (digits (num / den)).length
  else
    match (List.range 400).find? fun j => den ≤ num * Nat.pow 10 j with
    | some j => 1 - (j : Int)
    | none => -400

/-- The decimal of at most `count` digits nearest to the number, if it rounds back to it. Numbers
are compared after multiplying by four, where the bounds of the rounding interval are integers. -/
def nearestWithDigits? (tie : Tie) (x : Binary64) (magnitude : Int) (count : Nat) :
    Option Decimal :=
  let (scaleNum, scaleDen) := powRatio 2 (x.exponent - 2)
  let (gridNum, gridDen) := powRatio 10 (magnitude - count)
  let lowerGap := if x.significand = leastNormal ∧ x.exponent ≠ -1074 then 1 else 2
  -- all quantities over the common denominator `scaleDen * gridDen`
  let value := 4 * x.significand * scaleNum * gridDen
  let lower := (4 * x.significand - lowerGap) * scaleNum * gridDen
  let upper := (4 * x.significand + 2) * scaleNum * gridDen
  let grid := gridNum * scaleDen
  let within := fun n : Nat =>
    if x.significand % 2 = 0 then lower ≤ n * grid ∧ n * grid ≤ upper
    else lower < n * grid ∧ n * grid < upper
  let below := value / grid
  let nearer := roundDiv tie value grid
  let other := if nearer = below then below + 1 else below
  if within nearer then some (stripZeros 20 nearer (magnitude - count))
  else if within other then some (stripZeros 20 other (magnitude - count))
  else none

/-- The fewest decimal digits that round back to a number, nearest to it among as many digits. -/
def shortest (tie : Tie) (x : Binary64) : Decimal :=
  if x.significand = 0 then ⟨0, 0⟩
  else
    let (num, den) := powRatio 2 x.exponent
    let magnitude := ratioMagnitude (x.significand * num) den
    match (List.range 17).findSome? fun n => nearestWithDigits? tie x magnitude (n + 1) with
    | some d => d
    | none =>
      if 0 ≤ x.exponent then ⟨x.significand * Nat.pow 2 x.exponent.toNat, 0⟩
      else ⟨x.significand * Nat.pow 5 (-x.exponent).toNat, x.exponent⟩

/-- Digits with the point written in place, with one digit at least on either side of it. -/
def positional (d : Decimal) : List Char :=
  let ds := digits d.coefficient
  if 0 ≤ d.exponent then ds ++ List.replicate d.exponent.toNat '0' ++ ['.', '0']
  else
    let places := (-d.exponent).toNat
    let padded := List.replicate (places + 1 - ds.length) '0' ++ ds
    padded.take (padded.length - places) ++ '.' :: padded.drop (padded.length - places)

/-- One digit, the other digits after the point, and a signed power of ten. -/
def scientific (d : Decimal) : List Char :=
  let ds := digits d.coefficient
  let power := d.exponent + (ds.length : Int) - 1
  let fraction := ds.drop 1
  ds.take 1 ++ (if fraction = [] then [] else '.' :: fraction) ++
    'e' :: (if power < 0 then '-' else '+') :: digits power.natAbs

def signed (x : Binary64) (text : List Char) : String :=
  String.ofList (if x.negative then '-' :: text else text)

/-- Always with a point and never with an exponent. Of two decimals equally near, the greater
magnitude is taken. -/
def toPositional (x : Binary64) : String := x.signed (positional (x.shortest .up))

/-- With a point from `10 ^ -5` up to `10 ^ 16`, with an exponent outside. Of two decimals equally
near, the one with an even last digit is taken. -/
def toText (x : Binary64) : String :=
  let d := x.shortest .toEven
  let power := d.exponent + ((digits d.coefficient).length : Int) - 1
  if d.coefficient = 0 ∨ (-5 ≤ power ∧ power < 16) then x.signed (positional d)
  else x.signed (scientific d)

end Binary64

end Ferry
