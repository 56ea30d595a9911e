import Ferry.Binary64
import Ferry.Toml.Quoted

/-!
# Numbers in a TOML document

Integers in four bases, and decimal fractions with underscores between digits.
An integer has to fit 64 bits; a fraction is rounded to the nearest binary
number, and only one that is too large on the positive side is refused.
-/
namespace Ferry.Toml

/-- A number that is not an integer; the infinities and the undefined number are written by name. -/
inductive Real where
  | finite (x : Binary64)
  | infinite (negative : Bool)
  | undefined
  deriving DecidableEq

/-- Digits with single underscores between them, as far as they go; the underscores are dropped. -/
def digitRun (isDigit : Char → Bool) : List Char → List Char × List Char
  | '_' :: d :: s =>
    if isDigit d then
      let (ds, left) := digitRun isDigit s
      (d :: ds, left)
    else ([], '_' :: d :: s)
  | d :: s =>
    if isDigit d then
      let (ds, left) := digitRun isDigit s
      (d :: ds, left)
    else ([], d :: s)
  | [] => ([], [])

/-- A run that begins with a digit. -/
def digits? (isDigit : Char → Bool) (s : List Char) : Option (List Char × List Char) :=
  match s with
  | d :: _ => if isDigit d then some (digitRun isDigit s) else none
  | [] => none

/-- A sign, if there is one; the flag tells a minus. -/
def sign : List Char → Bool × List Char
  | '+' :: s => (false, s)
  | '-' :: s => (true, s)
  | s => (false, s)

/-- Decimal digits of an integer: a zero stands alone. -/
def wholeDigits? : List Char → Option (List Char × List Char)
  | '0' :: s => some (['0'], s)
  | s => digits? Char.isDigit s

/-- The digits after a point. -/
def fraction? : List Char → Option (List Char × List Char)
  | '.' :: s => digits? Char.isDigit s
  | _ => none

/-- A power of ten after the letter e. -/
def power? : List Char → Option (Int × List Char)
  | c :: s =>
    if c = 'e' || c = 'E' then
      let (negative, s) := sign s
      (digits? Char.isDigit s).map fun (ds, left) =>
        let n : Int := Nat.ofDigitChars 10 ds 0
        (if negative then -n else n, left)
    else none
  | [] => none

/-- The integer that fits 64 bits. -/
def int64? (n : Int) : Option Int :=
  if -int64Bound ≤ n ∧ n < int64Bound then some n else none

/-- The number that digits, a fraction and a power of ten write. -/
def realOf? (negative : Bool) (whole fraction : List Char) (power : Int) : Option Real :=
  let coefficient := Nat.ofDigitChars 10 (whole ++ fraction) 0
  match Binary64.ofDecimal? negative coefficient (power - fraction.length) with
  | some x => some (.finite x)
  | none => if negative then some (.infinite true) else none

/-- An integer in hexadecimal, octal or binary digits. -/
def radixInt? : List Char → Option (Option Int × List Char)
  | '0' :: 'x' :: s => (digits? isHexDigit s).map fun (ds, left) => (int64? (ofHexDigits ds), left)
  | '0' :: 'o' :: s =>
    (digits? (fun c => '0' ≤ c && c ≤ '7') s).map fun (ds, left) =>
      (int64? (Nat.ofDigitChars 8 ds 0), left)
  | '0' :: 'b' :: s =>
    (digits? (fun c => c = '0' || c = '1') s).map fun (ds, left) =>
      (int64? (Nat.ofDigitChars 2 ds 0), left)
  | _ => none

/-- A number without digits. -/
def namedReal? (negative : Bool) (s : List Char) : Option (Real × List Char) :=
  match dropWord? ['i', 'n', 'f'] s with
  | some left => some (.infinite negative, left)
  | none => (dropWord? ['n', 'a', 'n'] s).map fun left => (.undefined, left)

/-- A number: one with a fraction or a power of ten is real, all others are integers. -/
def readNumber (s : List Char) : Reading (Int ⊕ Real) :=
  let (negative, body) := sign s
  match namedReal? negative body with
  | some (r, left) => .ok (.inr r, left)
  | none =>
    match radixInt? s with
    | some (some n, left) => .ok (.inl n, left)
    | some (none, _) => .error s
    | none =>
      match wholeDigits? body with
      | none => .error s
      | some (whole, left) =>
        let real (fraction : List Char) (power : Int) (left : List Char) : Reading (Int ⊕ Real) :=
          match realOf? negative whole fraction power with
          | some r => .ok (.inr r, left)
          | none => .error s
        match fraction? left with
        | some (fraction, left) =>
          match power? left with
          | some (power, left) => real fraction power left
          | none => real fraction 0 left
        | none =>
          match power? left with
          | some (power, left) => real [] power left
          | none =>
            let n : Int := Nat.ofDigitChars 10 whole 0
            match int64? (if negative then -n else n) with
            | some n => .ok (.inl n, left)
            | none => .error s

end Ferry.Toml
