import Mathlib.Data.List.DropRight
import Mathlib.Tactic.IntervalCases
import Ferry.Json.Text
import Ferry.Proofs.Toml.Number

/-!
# JSON text read back

A reader of JSON text that shares nothing with the writer. White space may stand before every part
of a value, a character of a quoted text stands for itself or is escaped, and a number is an integer
unless it has a point or a power of ten. An escape by number gives a character only if one number of
four digits is enough for it. Every value is what its text is read as, so a printed text tells the
value that was printed.
-/
namespace Ferry.Json

open Toml (EndsValue IsWhole isHexDigit ofHexDigits withSign)

/-! ### Reading -/

def isSpace (c : Char) : Bool := c = ' ' || c = '\t' || c = '\n' || c = '\r'

def skipSpace (s : List Char) : List Char := s.dropWhile isSpace

/-- What a letter after a backslash stands for. -/
def escaped? : Char → Option Char
  | '"' => some '"'
  | '\\' => some '\\'
  | '/' => some '/'
  | 'b' => some '\x08'
  | 'f' => some '\x0c'
  | 'n' => some '\n'
  | 'r' => some '\r'
  | 't' => some '\t'
  | _ => none

def numbered? (ds : List Char) : Option Char :=
  if ds.all isHexDigit ∧ (ofHexDigits ds).isValidChar then some (.ofNat (ofHexDigits ds)) else none

/-- The characters up to the closing quote, and the text after it. -/
def readQuoted? : List Char → Option (List Char × List Char)
  | '"' :: s => some ([], s)
  | '\\' :: 'u' :: a :: b :: c :: d :: s =>
    (numbered? [a, b, c, d]).bind fun char =>
      (readQuoted? s).map fun (cs, left) => (char :: cs, left)
  | '\\' :: c :: s =>
    (escaped? c).bind fun char => (readQuoted? s).map fun (cs, left) => (char :: cs, left)
  | c :: s => if c < ' ' then none else (readQuoted? s).map fun (cs, left) => (c :: cs, left)
  | [] => none

def minus : List Char → Bool × List Char
  | '-' :: s => (true, s)
  | s => (false, s)

def readDigits? (s : List Char) : Option (List Char × List Char) :=
  let ds := s.takeWhile Char.isDigit
  if ds = [] then none else some (ds, s.dropWhile Char.isDigit)

/-- Digits before a point, of which a zero stands alone. -/
def readWhole? (s : List Char) : Option (List Char × List Char) :=
  (readDigits? s).filter fun (ds, _) => ds.head? ≠ some '0' || ds = ['0']

def readFraction? : List Char → Option (List Char × List Char)
  | '.' :: s => readDigits? s
  | s => some ([], s)

def readPower? : List Char → Option (Option Int × List Char)
  | c :: s =>
    if c = 'e' ∨ c = 'E' then
      let (negative, digits) := Toml.sign s
      (readDigits? digits).map fun (ds, left) =>
        let n : Int := Nat.ofDigitChars 10 ds 0
        (some (if negative then -n else n), left)
    else some (none, c :: s)
  | [] => some (none, [])

def numberOf? (negative : Bool) (whole fraction : List Char) (power : Option Int) : Option Json :=
  let n := Nat.ofDigitChars 10 (whole ++ fraction) 0
  if fraction = [] ∧ power = none then some (.int (if negative then -n else n))
  else (Binary64.ofDecimal? negative n (power.getD 0 - fraction.length)).map .float

def readNumber? (s : List Char) : Option (Json × List Char) :=
  let (negative, s) := minus s
  (readWhole? s).bind fun (whole, s) =>
    (readFraction? s).bind fun (fraction, s) =>
      (readPower? s).bind fun (power, s) =>
        (numberOf? negative whole fraction power).map fun v => (v, s)

section Items

variable {α : Type} (closing : Char) (read? : List Char → Option (α × List Char))

/-- At most so many items, with commas between them, up to the closing bracket. -/
def readItems? : (count : Nat) → List Char → Option (List α × List Char)
  | 0, _ => none
  | count + 1, s =>
    (read? s).bind fun (item, s) =>
      match skipSpace s with
      | ',' :: s => (readItems? count s).map fun (items, left) => (item :: items, left)
      | c :: s => if c = closing then some ([item], s) else none
      | [] => none

def readEnclosed? (s : List Char) : Option (List α × List Char) :=
  if (skipSpace s).head? = some closing then some ([], (skipSpace s).tail)
  else readItems? closing read? s.length s

end Items

def readField? (read? : List Char → Option (Json × List Char)) (s : List Char) :
    Option ((String × Json) × List Char) :=
  match skipSpace s with
  | '"' :: s =>
    (readQuoted? s).bind fun (name, s) =>
      match skipSpace s with
      | ':' :: s => (read? s).map fun (v, left) => ((String.ofList name, v), left)
      | _ => none
  | _ => none

/-- A value that nests at most so deep. -/
def readValue? : (depth : Nat) → List Char → Option (Json × List Char)
  | 0, _ => none
  | depth + 1, s =>
    match skipSpace s with
    | 'n' :: 'u' :: 'l' :: 'l' :: s => some (null, s)
    | 't' :: 'r' :: 'u' :: 'e' :: s => some (bool true, s)
    | 'f' :: 'a' :: 'l' :: 's' :: 'e' :: s => some (bool false, s)
    | '"' :: s => (readQuoted? s).map fun (cs, left) => (str (String.ofList cs), left)
    | '[' :: s =>
      (readEnclosed? ']' (readValue? depth) s).map fun (items, left) => (arr items, left)
    | '\x7b' :: s =>
      (readEnclosed? '\x7d' (readField? (readValue? depth)) s).map fun (fields, left) =>
        (obj fields, left)
    | s => readNumber? s

/-- The value that a text says, if it says one and nothing else. No value nests as deep as its text
is long. -/
def read? (text : String) : Option Json :=
  match readValue? (text.length + 1) text.toList with
  | some (v, left) => if skipSpace left = [] then some v else none
  | none => none

/-- A text is read as a value, whatever follows it. -/
def Reads {α : Type} (read? : List Char → Option (α × List Char)) (text : List Char) (a : α) :
    Prop :=
  ∀ rest, EndsValue rest → read? (text ++ rest) = some (a, rest)

/-! ### White space -/

theorem skipSpace_cons {c : Char} (hc : isSpace c = false) (s : List Char) :
    skipSpace (c :: s) = c :: s := by
  rw [skipSpace, List.dropWhile_cons_of_neg (by simp [hc])]

@[simp]
theorem skipSpace_newLine (level : Nat) (s : List Char) :
    skipSpace (newLine level ++ s) = skipSpace s := by
  refine List.dropWhile_append_of_pos ?_
  intro c hc
  rcases List.mem_cons.mp hc with rfl | hc
  · rfl
  · rw [List.eq_of_mem_replicate hc]
    rfl

@[simp]
theorem skipSpace_skipSpace (s : List Char) : skipSpace (skipSpace s) = skipSpace s :=
  List.dropWhile_idempotent _ _

theorem readValue?_skipSpace (depth : Nat) (s : List Char) :
    readValue? depth (skipSpace s) = readValue? depth s := by
  cases depth <;> simp only [readValue?, skipSpace_skipSpace]

theorem readField?_skipSpace (read? : List Char → Option (Json × List Char)) (s : List Char) :
    readField? read? (skipSpace s) = readField? read? s := by
  simp only [readField?, skipSpace_skipSpace]

/-! ### Quoted text -/

/-- A control character is written by a number of four digits that is its own. -/
theorem numbered?_toDigits : ∀ n < 32,
    ∃ a b c d, List.replicate (4 - (Nat.toDigits 16 n).length) '0' ++ Nat.toDigits 16 n =
      [a, b, c, d] ∧ numbered? [a, b, c, d] = some (.ofNat n) := by
  intro n hn
  interval_cases n <;> exact ⟨_, _, _, _, rfl, by decide⟩

theorem readQuoted?_self {c : Char} (hquote : c ≠ '"') (hslash : c ≠ '\\') (hcontrol : ¬ c < ' ')
    (s : List Char) :
    readQuoted? (c :: s) = (readQuoted? s).map fun (cs, left) => (c :: cs, left) := by
  rw [readQuoted?.eq_def]
  split <;> simp_all

theorem readQuoted?_writeChar (c : Char) (rest : List Char) :
    readQuoted? (writeChar c ++ rest) =
      (readQuoted? rest).map fun (cs, left) => (c :: cs, left) := by
  by_cases hshort : c ∈ ['"', '\\', '\n', '\r', '\t', '\x08', '\x0c']
  · simp only [List.mem_cons, List.not_mem_nil, or_false] at hshort
    rcases hshort with rfl | rfl | rfl | rfl | rfl | rfl | rfl <;> rfl
  · simp only [List.mem_cons, List.not_mem_nil, or_false, not_or] at hshort
    obtain ⟨hquote, hslash, hn, hr, ht, hb, hf⟩ := hshort
    by_cases hcontrol : c < ' '
    · obtain ⟨a, b, e, d, hdigits, hnumber⟩ := numbered?_toDigits c.toNat hcontrol
      have hwrite : writeChar c = '\\' :: 'u' :: [a, b, e, d] := by
        simp [writeChar, hquote, hslash, hn, hr, ht, hb, hf, hcontrol, hdigits]
      rw [hwrite]
      simp [readQuoted?, hnumber]
    · have hwrite : writeChar c = [c] := by
        simp [writeChar, hquote, hslash, hn, hr, ht, hb, hf, hcontrol]
      rw [hwrite]
      exact readQuoted?_self hquote hslash hcontrol rest

theorem readQuoted?_flatMap (cs rest : List Char) :
    readQuoted? (cs.flatMap writeChar ++ '"' :: rest) = some (cs, rest) := by
  induction cs with
  | nil => rfl
  | cons c cs ih =>
    rw [List.flatMap_cons, List.append_assoc, readQuoted?_writeChar, ih]
    rfl

/-! ### Numbers -/

section Numbers

variable {ds rest : List Char}

theorem readDigits?_append (hne : ds ≠ []) (hds : ∀ c ∈ ds, c.isDigit = true)
    (hrest : ∀ c ∈ rest.head?, c.isDigit = false) : readDigits? (ds ++ rest) = some (ds, rest) := by
  have hdrop : (ds ++ rest).dropWhile Char.isDigit = rest := by
    have hall := List.takeWhile_append_dropWhile (p := Char.isDigit) (l := ds ++ rest)
    rw [takeWhile_isDigit_append hds hrest] at hall
    exact List.append_cancel_left hall
  rw [readDigits?, takeWhile_isDigit_append hds hrest, hdrop]
  exact if_neg hne

theorem readWhole?_append (hds : IsWhole ds) (hrest : ∀ c ∈ rest.head?, c.isDigit = false) :
    readWhole? (ds ++ rest) = some (ds, rest) := by
  obtain ⟨hne, hdigits, hzero⟩ := hds
  rw [readWhole?, readDigits?_append hne hdigits hrest]
  by_cases hhead : ds.head? = some '0'
  · simp [hzero hhead]
  · simp [hhead]

theorem minus_withSign (negative : Bool) (hds : IsWhole ds) (rest : List Char) :
    minus (withSign negative (ds ++ rest)) = (negative, ds ++ rest) := by
  cases negative with
  | true => rfl
  | false =>
    have hhead := hds.head?_append rest
    rw [withSign, if_neg Bool.false_ne_true]
    unfold minus
    split
    next heq =>
      rw [heq] at hhead
      exact absurd (hhead '-' rfl) (by decide)
    next => rfl

theorem readNumber?_withSign (negative : Bool) {whole fraction left after : List Char}
    {power : Option Int} {v : Json} (hwhole : IsWhole whole)
    (hrest : ∀ c ∈ rest.head?, c.isDigit = false)
    (hfraction : readFraction? rest = some (fraction, left))
    (hpower : readPower? left = some (power, after))
    (hv : numberOf? negative whole fraction power = some v) :
    readNumber? (withSign negative (whole ++ rest)) = some (v, after) := by
  rw [readNumber?, minus_withSign negative hwhole rest]
  simp [readWhole?_append hwhole hrest, hfraction, hpower, hv]

theorem readFraction?_of_head (hrest : rest.head? ≠ some '.') :
    readFraction? rest = some ([], rest) := by
  unfold readFraction?
  split <;> simp_all

theorem readPower?_of_ends (hrest : EndsValue rest) : readPower? rest = some (none, rest) := by
  cases rest with
  | nil => rfl
  | cons c rest =>
    have he : c ≠ 'e' := fun h => hrest.head_ne (by decide) (congrArg some h)
    have hE : c ≠ 'E' := fun h => hrest.head_ne (by decide) (congrArg some h)
    simp [readPower?, he, hE]

theorem isDigit_of_ends (hrest : EndsValue rest) : ∀ c ∈ rest.head?, c.isDigit = false :=
  fun c hc => (hrest.endsDigits c hc).1

theorem reads_int (n : Int) : Reads readNumber? (toString n).toList (.int n) := by
  intro rest hrest
  have hvalue : numberOf? (decide (n < 0)) (Nat.toDigits 10 n.natAbs) [] none = some (.int n) := by
    rw [numberOf?, if_pos ⟨rfl, rfl⟩, List.append_nil, Nat.ofDigitChars_ten_toDigits]
    simp only [decide_eq_true_eq]
    congr 2
    split <;> omega
  have htext : (toString n).toList ++ rest =
      withSign (decide (n < 0)) (Nat.toDigits 10 n.natAbs ++ rest) := by
    rw [Toml.toList_toString_int]
    unfold withSign
    split <;> rfl
  rw [htext]
  exact readNumber?_withSign _ (Toml.isWhole_toDigits _) (isDigit_of_ends hrest)
    (readFraction?_of_head (hrest.head_ne (by decide))) (readPower?_of_ends hrest) hvalue

theorem sign_natAbs (power : Int) (s : List Char) :
    Toml.sign ((if power < 0 then '-' else '+') :: s) = (decide (power < 0), s) := by
  by_cases hneg : power < 0 <;> simp [Toml.sign, hneg]

theorem readPower?_digits (power : Int) (hrest : EndsValue rest) :
    readPower? ('e' :: (if power < 0 then '-' else '+') :: (Nat.toDigits 10 power.natAbs ++ rest)) =
      some (some power, rest) := by
  have hdigits := readDigits?_append Nat.toDigits_ne_nil
    (fun c hc => Nat.isDigit_of_mem_toDigits (b := 10) (n := power.natAbs) (by omega) (by omega) hc)
    (isDigit_of_ends hrest)
  have hvalue : (if power < 0 then -(power.natAbs : Int) else power.natAbs) = power := by
    split <;> omega
  rw [readPower?, if_pos (.inl rfl), sign_natAbs]
  dsimp only
  rw [hdigits, Option.map_some]
  simp only [decide_eq_true_eq, Nat.ofDigitChars_ten_toDigits, hvalue]

theorem readFraction?_append (hds : ∀ c ∈ ds, c.isDigit = true) (hpoint : rest.head? ≠ some '.')
    (hrest : ∀ c ∈ rest.head?, c.isDigit = false) :
    readFraction? ((if ds = [] then [] else '.' :: ds) ++ rest) = some (ds, rest) := by
  split
  next hnil =>
    rw [hnil]
    exact readFraction?_of_head hpoint
  next hne => exact readDigits?_append hne hds hrest

theorem numberOf?_scientific (negative : Bool) {d : Binary64.Decimal} {x : Binary64}
    (hx : x.RoundsTo d.value) {first : Char} {fraction : List Char}
    (hdigits : Nat.toDigits 10 d.coefficient = first :: fraction) {power : Int}
    (hpower : power - fraction.length = d.exponent) :
    numberOf? negative [first] fraction (some power) =
      some (.float ⟨negative, x.significand, x.exponent, x.canonical⟩) := by
  rw [numberOf?, if_neg (by simp), List.singleton_append, ← hdigits, Nat.ofDigitChars_ten_toDigits,
    Option.getD_some, hpower, Binary64.ofDecimal?_of_roundsTo negative hx]
  rfl

theorem reads_scientific (negative : Bool) {d : Binary64.Decimal} {x : Binary64}
    (hx : x.RoundsTo d.value) : Reads readNumber? (withSign negative (Binary64.scientific d))
      (.float ⟨negative, x.significand, x.exponent, x.canonical⟩) := by
  intro rest hrest
  obtain ⟨power, hpower⟩ : ∃ power,
      power = d.exponent + ((Binary64.digits d.coefficient).length : Int) - 1 := ⟨_, rfl⟩
  obtain ⟨first, fraction, hdigits⟩ :=
    List.exists_cons_of_ne_nil (Nat.toDigits_ne_nil (b := 10) (n := d.coefficient))
  have hall : ∀ c ∈ first :: fraction, c.isDigit = true := fun c hc =>
    Nat.isDigit_of_mem_toDigits (b := 10) (n := d.coefficient) (by omega) (by omega) (hdigits ▸ hc)
  have hwhole : IsWhole [first] :=
    ⟨by simp, fun c hc => hall c (by simp_all), fun h => by simp_all⟩
  have hexponent : power - fraction.length = d.exponent := by
    rw [hpower, Binary64.digits, hdigits, List.length_cons]
    omega
  have htext : withSign negative (Binary64.scientific d) ++ rest = withSign negative ([first] ++
      ((if fraction = [] then [] else '.' :: fraction) ++
        'e' :: (if power < 0 then '-' else '+') :: (Nat.toDigits 10 power.natAbs ++ rest))) := by
    rw [Binary64.scientific, ← hpower, Binary64.digits, hdigits]
    cases negative <;> simp [withSign, Binary64.digits]
  rw [htext]
  refine readNumber?_withSign negative hwhole ?_ ?_ (readPower?_digits power hrest)
    (numberOf?_scientific negative hx hdigits hexponent)
  · split <;> simp
  · exact readFraction?_append (fun c hc => hall c (List.mem_cons_of_mem _ hc)) (by simp) (by simp)

theorem reads_positional (x : Binary64) (tie : Binary64.Tie) :
    Reads readNumber? (withSign x.negative (Binary64.positional (x.shortest tie))) (.float x) := by
  intro rest hrest
  obtain ⟨whole, fraction, htext, hwhole, hne, hdigits, hvalue⟩ := Toml.positional_shortest tie x
  have happend : withSign x.negative (whole ++ '.' :: fraction) ++ rest =
      withSign x.negative (whole ++ '.' :: (fraction ++ rest)) := by
    cases x.negative <;> simp [withSign]
  rw [htext, happend]
  refine readNumber?_withSign _ hwhole (by simp)
    (readDigits?_append hne hdigits (isDigit_of_ends hrest)) (readPower?_of_ends hrest) ?_
  rw [numberOf?, if_neg (by simp [hne]), Option.getD_none, hvalue]
  rfl

theorem reads_float (x : Binary64) : Reads readNumber? x.toText.toList (.float x) := by
  unfold Binary64.toText
  dsimp only
  split
  next =>
    rw [Toml.toList_signed]
    exact reads_positional x .toEven
  next hfar =>
    have hsignificand : x.significand ≠ 0 := by
      intro hzero
      exact hfar (.inl (by rw [Binary64.shortest, if_pos hzero]))
    rw [Toml.toList_signed]
    exact reads_scientific x.negative (Binary64.shortest_roundsTo .toEven hsignificand)

end Numbers

/-! ### Items between brackets -/

section Items

variable {α : Type} {closing : Char} {read? : List Char → Option (α × List Char)}

/-- Items are told from the closing bracket, which ends no white space and begins no item. -/
structure Delimits (closing : Char) (read? : List Char → Option (α × List Char)) : Prop where
  bracket : closing = ']' ∨ closing = '\x7d'
  skips : ∀ s, read? (skipSpace s) = read? s
  refuses : ∀ s, read? (closing :: s) = none

theorem Delimits.skipSpace_closing (h : Delimits closing read?) (level : Nat) (s : List Char) :
    skipSpace (newLine level ++ closing :: s) = closing :: s := by
  rw [skipSpace_newLine]
  rcases h.bracket with rfl | rfl <;> rfl

theorem endsValue_newLine (level : Nat) (s : List Char) : EndsValue (newLine level ++ s) := by
  rintro c ⟨⟩
  exact .inl rfl

theorem endsValue_comma (s : List Char) : EndsValue (',' :: s) := by
  rintro c ⟨⟩
  exact .inr (.inl rfl)

theorem Delimits.read?_newLine (h : Delimits closing read?) {text : List Char} {item : α}
    (hitem : Reads read? text item) (level : Nat) {rest : List Char} (hrest : EndsValue rest) :
    read? (newLine level ++ (text ++ rest)) = some (item, rest) := by
  rw [← h.skips, skipSpace_newLine, h.skips]
  exact hitem rest hrest

theorem joinTexts_cons_cons (between text next : List Char) (texts : List (List Char)) :
    joinTexts between (text :: next :: texts) =
      text ++ between ++ joinTexts between (next :: texts) := rfl

theorem readItems?_joinTexts (h : Delimits closing read?) {texts : List (List Char)}
    {items : List α} (hitems : List.Forall₂ (Reads read?) texts items) (hne : texts ≠ [])
    {count : Nat} (hcount : texts.length ≤ count) (inner outer : Nat) (rest : List Char) :
    readItems? closing read? count (newLine inner ++ (joinTexts (',' :: newLine inner) texts ++
      (newLine outer ++ closing :: rest))) = some (items, rest) := by
  induction hitems generalizing count with
  | nil => exact absurd rfl hne
  | @cons text item texts items hitem hitems ih =>
    obtain ⟨count, rfl⟩ : ∃ count', count = count' + 1 := Nat.exists_eq_add_of_le' (by
      rw [List.length_cons] at hcount
      omega)
    cases hitems with
    | nil =>
      rw [joinTexts, readItems?, h.read?_newLine hitem _ (endsValue_newLine _ _)]
      dsimp only [Option.bind_some]
      rw [h.skipSpace_closing]
      rcases h.bracket with rfl | rfl <;> simp
    | cons hnext hitems =>
      have hrest := ih (by simp) (Nat.le_of_succ_le_succ hcount)
      rw [joinTexts_cons_cons, List.append_assoc, List.append_assoc, List.cons_append, readItems?,
        h.read?_newLine hitem _ (endsValue_comma _)]
      dsimp only [Option.bind_some]
      rw [skipSpace_cons rfl]
      simp only [hrest, Option.map_some]

/-- Brackets are empty only if no item is read after the opening one. -/
theorem Delimits.readEnclosed?_eq (h : Delimits closing read?) {s : List Char}
    {result : List α × List Char} (hread : readItems? closing read? s.length s = some result) :
    readEnclosed? closing read? s = some result := by
  rw [readEnclosed?, if_neg, hread]
  intro hhead
  obtain ⟨left, hleft⟩ := List.head?_eq_some_iff.mp hhead
  have hnone : read? s = none := by rw [← h.skips, hleft, h.refuses]
  cases hlength : s.length with
  | zero =>
    rw [hlength] at hread
    cases hread
  | succ count =>
    rw [hlength, readItems?, hnone] at hread
    cases hread

theorem length_le_joinTexts (c : Char) (between : List Char) (texts : List (List Char)) :
    texts.length ≤ (joinTexts (c :: between) texts).length + 1 := by
  induction texts with
  | nil => simp
  | cons text texts ih =>
    cases texts with
    | nil => simp
    | cons next texts =>
      rw [joinTexts_cons_cons]
      simp only [List.length_append, List.length_cons] at ih ⊢
      omega

theorem readEnclosed?_enclose (h : Delimits closing read?) {texts : List (List Char)}
    {items : List α} (hitems : List.Forall₂ (Reads read?) texts items) (opening : Char)
    (level : Nat) : ∃ body, enclose opening closing level texts = opening :: body ∧
      ∀ rest, readEnclosed? closing read? (body ++ rest) = some (items, rest) := by
  cases hitems with
  | nil =>
    refine ⟨[closing], rfl, ?_⟩
    intro rest
    have hskip : skipSpace (closing :: rest) = closing :: rest := by
      rcases h.bracket with rfl | rfl <;> rfl
    rw [List.singleton_append, readEnclosed?, hskip]
    exact if_pos rfl
  | @cons text item texts items hitem hitems =>
    refine ⟨newLine (level + 1) ++ joinTexts (',' :: newLine (level + 1)) (text :: texts) ++
      newLine level ++ [closing], by simp [enclose], ?_⟩
    intro rest
    have hlength := length_le_joinTexts ',' (newLine (level + 1)) (text :: texts)
    simp only [List.append_assoc, List.singleton_append]
    refine h.readEnclosed?_eq (readItems?_joinTexts h (.cons hitem hitems) (by simp) ?_ _ _ _)
    simp only [List.length_append, List.length_cons] at hlength ⊢
    omega

theorem length_le_joinTexts_of_mem (between : List Char) {text : List Char}
    {texts : List (List Char)}
    (h : text ∈ texts) : text.length ≤ (joinTexts between texts).length := by
  induction texts with
  | nil => cases h
  | cons first texts ih =>
    cases texts with
    | nil =>
      rw [List.mem_singleton.mp h]
      exact le_rfl
    | cons next texts =>
      rw [joinTexts_cons_cons, List.length_append, List.length_append]
      rcases List.mem_cons.mp h with rfl | h
      · omega
      · have := ih h
        omega

theorem length_lt_enclose (opening closing : Char) (level : Nat) {text : List Char}
    {texts : List (List Char)} (h : text ∈ texts) :
    text.length + 1 < (enclose opening closing level texts).length := by
  have hle := length_le_joinTexts_of_mem (',' :: newLine (level + 1)) h
  cases texts with
  | nil => cases h
  | cons first texts =>
    simp only [enclose, List.length_append, List.length_cons, List.length_nil] at hle ⊢
    omega

end Items

/-! ### Values -/

theorem exists_head_of_readNumber? {s : List Char} {result : Json × List Char}
    (h : readNumber? s = some result) : ∃ c rest, s = c :: rest ∧ (c = '-' ∨ c.isDigit = true) := by
  cases s with
  | nil => cases h
  | cons c rest =>
    refine ⟨c, rest, rfl, ?_⟩
    by_contra hnone
    obtain ⟨hminus, hdigit⟩ := not_or.mp hnone
    have hsign : minus (c :: rest) = (false, c :: rest) := by
      unfold minus
      split <;> simp_all
    simp [readNumber?, hsign, readWhole?, readDigits?, hdigit] at h

theorem Reads.value {text : List Char} {v : Json} (h : Reads readNumber? text v) (depth : Nat) :
    Reads (readValue? (depth + 1)) text v := by
  intro rest hrest
  have hread := h rest hrest
  obtain ⟨c, s, hs, hc⟩ := exists_head_of_readNumber? hread
  rw [hs] at hread ⊢
  have hspace : isSpace c = false := by
    rcases hc with rfl | hc
    · rfl
    · have hne {d : Char} (hd : d.isDigit = false) : c ≠ d := ne_of_isDigit hc hd
      simp [isSpace, hne]
  rw [readValue?, skipSpace_cons hspace]
  split <;> simp_all

theorem delimits_readValue? (depth : Nat) : Delimits ']' (readValue? depth) where
  bracket := .inl rfl
  skips := readValue?_skipSpace depth
  refuses := by
    intro s
    cases depth <;> rfl

theorem delimits_readField? (depth : Nat) : Delimits '\x7d' (readField? (readValue? depth)) where
  bracket := .inr rfl
  skips := readField?_skipSpace _
  refuses := fun _ => rfl

theorem reads_field {read? : List Char → Option (Json × List Char)} {text : List Char} {v : Json}
    (hskips : ∀ s, read? (skipSpace s) = read? s) (h : Reads read? text v) (name : String) :
    Reads (readField? read?) (writeString name ++ [':', ' '] ++ text) (name, v) := by
  intro rest hrest
  have hname : readQuoted? (name.toList.flatMap writeChar ++ '"' :: ':' :: ' ' :: (text ++ rest)) =
      some (name.toList, ':' :: ' ' :: (text ++ rest)) := readQuoted?_flatMap _ _
  have hvalue : read? (' ' :: (text ++ rest)) = some (v, rest) := by
    rw [← hskips]
    change read? (skipSpace (text ++ rest)) = _
    rw [hskips]
    exact h rest hrest
  simp only [writeString, List.cons_append, List.append_assoc, List.nil_append]
  rw [readField?, skipSpace_cons rfl]
  simp only [hname, Option.bind_some]
  rw [skipSpace_cons rfl]
  simp only [hvalue, Option.map_some, String.ofList_toList]

mutual

/-- Every value is read from its text, at a depth that the length of the text bounds. -/
theorem reads_write : ∀ (v : Json) {level depth : Nat}, (write level v).length < depth →
    Reads (readValue? depth) (write level v) v
  | _, _, 0, h => absurd h (Nat.not_lt_zero _)
  | null, _, _ + 1, _ => fun _ _ => by simp [write, readValue?, skipSpace_cons, isSpace]
  | bool b, _, _ + 1, _ => fun _ _ => by
    cases b <;> simp [write, readValue?, skipSpace_cons, isSpace]
  | int n, _, depth + 1, _ => (reads_int n).value depth
  | float x, _, depth + 1, _ => (reads_float x).value depth
  | str s, _, _ + 1, _ => fun rest _ => by
    have hread : readQuoted? (s.toList.flatMap writeChar ++ '"' :: rest) = some (s.toList, rest) :=
      readQuoted?_flatMap _ _
    simp [write, writeString, readValue?, skipSpace_cons, isSpace, hread]
  | arr items, level, depth + 1, h => fun rest _ => by
    rw [write] at h ⊢
    have hitems : List.Forall₂ (Reads (readValue? depth)) (writeItems (level + 1) items) items := by
      refine forall₂_writeItems items ?_
      intro text htext
      have := length_lt_enclose '[' ']' level htext
      omega
    obtain ⟨body, hbody, hread⟩ :=
      readEnclosed?_enclose (delimits_readValue? depth) hitems '[' level
    rw [hbody, List.cons_append, readValue?, skipSpace_cons rfl]
    simp only [hread, Option.map_some]
  | obj fields, level, depth + 1, h => fun rest _ => by
    rw [write] at h ⊢
    have hfields : List.Forall₂ (Reads (readField? (readValue? depth)))
        (writeFields (level + 1) fields) fields := by
      refine forall₂_writeFields fields ?_
      intro text htext
      have := length_lt_enclose '\x7b' '\x7d' level htext
      omega
    obtain ⟨body, hbody, hread⟩ :=
      readEnclosed?_enclose (delimits_readField? depth) hfields '\x7b' level
    rw [hbody, List.cons_append, readValue?, skipSpace_cons rfl]
    simp only [hread, Option.map_some]

theorem forall₂_writeItems : ∀ (items : List Json) {level depth : Nat},
    (∀ text ∈ writeItems level items, text.length < depth) →
      List.Forall₂ (Reads (readValue? depth)) (writeItems level items) items
  | [], _, _, _ => .nil
  | v :: rest, _, _, h => by
    rw [writeItems, List.forall_mem_cons] at h
    exact .cons (reads_write v h.1) (forall₂_writeItems rest h.2)

theorem forall₂_writeFields : ∀ (fields : List (String × Json)) {level depth : Nat},
    (∀ text ∈ writeFields level fields, text.length < depth) →
      List.Forall₂ (Reads (readField? (readValue? depth))) (writeFields level fields) fields
  | [], _, _, _ => .nil
  | (name, v) :: rest, level, depth, h => by
    rw [writeFields, List.forall_mem_cons, List.length_append] at h
    have hvalue : (write level v).length < depth := by omega
    exact .cons (reads_field (readValue?_skipSpace depth) (reads_write v hvalue) name)
      (forall₂_writeFields rest h.2)

end

/-- The text of a value, and a line end after it, say the value. -/
theorem read?_pretty (v : Json) : read? (v.pretty ++ "\n") = some v := by
  have hends : EndsValue ['\n'] := by
    rintro c ⟨⟩
    exact .inl rfl
  have hlist : (v.pretty ++ "\n").toList = v.write 0 ++ ['\n'] := by simp [pretty]
  have hlength : (v.write 0).length < (v.pretty ++ "\n").length + 1 := by
    rw [← String.length_toList, hlist, List.length_append]
    omega
  rw [read?, hlist, reads_write v hlength _ hends]
  rfl

end Ferry.Json
