import Ferry.Proofs.Binary64
import Ferry.Proofs.Digits
import Ferry.Toml.Reader

/-!
# Numbers read back

The digits that the writer makes are read as they were written. A date or a time
begins with digits too, so a number is only read as one because of what follows
its digits.
-/
namespace Ferry.Toml

/-- What may follow a value: the end of its line or item, or the space before a brace. -/
def EndsValue (rest : List Char) : Prop :=
  ∀ c ∈ rest.head?, c = '\n' ∨ c = ',' ∨ c = ']' ∨ c = ' '

theorem EndsValue.head_ne {rest : List Char} (h : EndsValue rest) {c : Char}
    (hc : ¬(c = '\n' ∨ c = ',' ∨ c = ']' ∨ c = ' ')) : rest.head? ≠ some c :=
  fun hhead => hc (h c hhead)

/-- Digits end before a character that is neither a digit nor an underscore. -/
def EndsDigits (rest : List Char) : Prop := ∀ c ∈ rest.head?, c.isDigit = false ∧ c ≠ '_'

theorem EndsValue.endsDigits {rest : List Char} (h : EndsValue rest) : EndsDigits rest := by
  intro c hc
  rcases h c hc with rfl | rfl | rfl | rfl <;> decide

section Digits

variable {ds rest : List Char}

theorem digitRun_append (hds : ∀ c ∈ ds, c.isDigit = true) (hrest : EndsDigits rest) :
    digitRun Char.isDigit (ds ++ rest) = (ds, rest) := by
  induction ds with
  | nil =>
    cases rest with
    | nil => rfl
    | cons c rest =>
      obtain ⟨hdigit, hunderscore⟩ := hrest c rfl
      unfold digitRun
      split <;> simp_all
  | cons d ds ih =>
    have hd := hds d List.mem_cons_self
    have hunderscore : d ≠ '_' := ne_of_isDigit hd rfl
    have ih := ih fun c hc => hds c (List.mem_cons_of_mem _ hc)
    rw [List.cons_append]
    unfold digitRun
    split <;> simp_all

theorem digits?_append (hne : ds ≠ []) (hds : ∀ c ∈ ds, c.isDigit = true)
    (hrest : EndsDigits rest) : digits? Char.isDigit (ds ++ rest) = some (ds, rest) := by
  cases ds with
  | nil => exact absurd rfl hne
  | cons d ds =>
    have hrun := digitRun_append hds hrest
    rw [List.cons_append] at hrun ⊢
    simp [digits?, hds d List.mem_cons_self, hrun]

/-- Digits of a whole number: a zero stands alone. -/
def IsWhole (ds : List Char) : Prop :=
  ds ≠ [] ∧ (∀ c ∈ ds, c.isDigit = true) ∧ (ds.head? = some '0' → ds = ['0'])

theorem wholeDigits?_append (hds : IsWhole ds) (hrest : EndsDigits rest) :
    wholeDigits? (ds ++ rest) = some (ds, rest) := by
  obtain ⟨hne, hdigits, hzero⟩ := hds
  by_cases hhead : ds.head? = some '0'
  · rw [hzero hhead]
    rfl
  · have hrun := digits?_append hne hdigits hrest
    unfold wholeDigits?
    split
    next s heq =>
      cases ds with
      | nil => exact absurd rfl hne
      | cons d ds => simp_all
    next => exact hrun

theorem head?_toDigits {n : Nat} (hn : n ≠ 0) : (Nat.toDigits 10 n).head? ≠ some '0' := by
  induction n using Nat.strongRecOn with
  | ind n ih =>
    by_cases hlt : n < 10
    · rw [Nat.toDigits_of_lt_base hlt]
      have : ∀ m < 10, m ≠ 0 → [m.digitChar].head? ≠ some '0' := by decide
      exact this n hlt hn
    · have hrest := ih (n / 10) (by omega) (by omega)
      rw [Nat.toDigits_of_base_le (by omega) (by omega)]
      cases hdigits : Nat.toDigits 10 (n / 10) with
      | nil => exact absurd hdigits Nat.toDigits_ne_nil
      | cons d ds =>
        rw [hdigits] at hrest
        simpa using hrest

theorem isWhole_toDigits (n : Nat) : IsWhole (Nat.toDigits 10 n) := by
  refine ⟨Nat.toDigits_ne_nil, fun c hc => Nat.isDigit_of_mem_toDigits (by omega) (by omega) hc,
    fun hhead => ?_⟩
  by_cases hn : n = 0
  · rw [hn]
    rfl
  · exact absurd hhead (head?_toDigits hn)

/-! ### Digits that begin no date -/

theorem fixedDigits?_append {count n : Nat} {left : List Char} (hds : ∀ c ∈ ds, c.isDigit = true)
    (hrest : ∀ c ∈ rest.head?, c.isDigit = false)
    (h : fixedDigits? count (ds ++ rest) = some (n, left)) :
    ∃ ds', left = ds' ++ rest ∧ ∀ c ∈ ds', c.isDigit = true := by
  unfold fixedDigits? at h
  dsimp only at h
  split at h
  next hcount =>
    obtain ⟨hlen, hall⟩ := hcount
    cases h
    have hle : count ≤ ds.length := by
      refine Nat.le_of_not_lt fun hlt => ?_
      cases rest with
      | nil =>
        rw [List.append_nil, List.length_take] at hlen
        omega
      | cons c rest =>
        have hmem : c ∈ (ds ++ c :: rest).take count := by
          rw [List.take_append, List.take_of_length_le (by omega), List.mem_append]
          have : count - ds.length = count - ds.length - 1 + 1 := by omega
          rw [this, List.take_succ_cons]
          exact .inr List.mem_cons_self
        have hdigit := List.all_eq_true.mp hall c hmem
        rw [hrest c rfl] at hdigit
        cases hdigit
    refine ⟨ds.drop count, List.drop_append_of_le_length hle, fun c hc => ?_⟩
    exact hds c (List.mem_of_mem_drop hc)
  next => cases h

theorem char?_append {c : Char} (hc : c.isDigit = false) (hds : ∀ d ∈ ds, d.isDigit = true)
    (hrest : rest.head? ≠ some c) : char? c (ds ++ rest) = none := by
  cases ds with
  | nil => cases rest <;> simp_all [char?]
  | cons d ds => simp [char?, ne_of_isDigit (hds d List.mem_cons_self) hc]

/-- A date has a dash after its first digits and a time has a colon. -/
theorem dateTime?_append (hds : ∀ c ∈ ds, c.isDigit = true)
    (hrest : ∀ c ∈ rest.head?, c.isDigit = false ∧ c ≠ '-' ∧ c ≠ ':') :
    dateTime? (ds ++ rest) = none := by
  have hdigit : ∀ c ∈ rest.head?, c.isDigit = false := fun c hc => (hrest c hc).1
  have hdate : date? (ds ++ rest) = none := by
    unfold date?
    cases h : fixedDigits? 4 (ds ++ rest) with
    | none => rfl
    | some p =>
      obtain ⟨ds', hleft, hds'⟩ := fixedDigits?_append hds hdigit h
      have hnone := char?_append (c := '-') rfl hds' fun hc => (hrest '-' hc).2.1 rfl
      simp [hleft, hnone]
  have htime : time? (ds ++ rest) = none := by
    unfold time? twoDigits?
    cases h : fixedDigits? 2 (ds ++ rest) with
    | none => rfl
    | some p =>
      obtain ⟨ds', hleft, hds'⟩ := fixedDigits?_append hds hdigit h
      have hnone := char?_append (c := ':') rfl hds' fun hc => (hrest ':' hc).2.2 rfl
      by_cases hbound : p.1 ≤ 23 <;> simp [hleft, hnone, hbound]
  rw [dateTime?, hdate]
  exact htime

/-! ### Signs -/

def withSign (negative : Bool) (cs : List Char) : List Char := if negative then '-' :: cs else cs

theorem sign_withSign (negative : Bool) {cs : List Char} (hcs : ∀ c ∈ cs.head?, c.isDigit = true) :
    sign (withSign negative cs) = (negative, cs) := by
  cases negative with
  | true => rfl
  | false =>
    cases cs with
    | nil => rfl
    | cons c cs =>
      have hc := hcs c rfl
      have hplus := ne_of_isDigit hc (d := '+') rfl
      have hminus := ne_of_isDigit hc (d := '-') rfl
      unfold withSign sign
      split <;> simp_all

theorem IsWhole.head?_append (hds : IsWhole ds) (rest : List Char) :
    ∀ c ∈ (ds ++ rest).head?, c.isDigit = true := by
  obtain ⟨hne, hdigits, -⟩ := hds
  cases ds with
  | nil => exact absurd rfl hne
  | cons d ds =>
    intro c hc
    cases hc
    exact hdigits d List.mem_cons_self

theorem dateTime?_withSign (negative : Bool) (hds : ∀ c ∈ ds, c.isDigit = true)
    (hrest : ∀ c ∈ rest.head?, c.isDigit = false ∧ c ≠ '-' ∧ c ≠ ':') :
    dateTime? (withSign negative (ds ++ rest)) = none := by
  cases negative with
  | false => exact dateTime?_append hds hrest
  | true =>
    have hdash (count : Nat) : fixedDigits? (count + 1) ('-' :: (ds ++ rest)) = none := by
      simp [fixedDigits?, List.take_succ_cons]
    simp [withSign, dateTime?, date?, time?, twoDigits?, hdash]

theorem namedReal?_digit {negative : Bool} {cs : List Char}
    (hcs : ∀ c ∈ cs.head?, c.isDigit = true) : namedReal? negative cs = none := by
  cases cs with
  | nil => rfl
  | cons c cs =>
    have hi := (ne_of_isDigit (hcs c rfl) (d := 'i') rfl).symm
    have hn := (ne_of_isDigit (hcs c rfl) (d := 'n') rfl).symm
    simp [namedReal?, dropWord?, hi, hn]

/-- A zero that stands alone does not begin a number in another base. -/
theorem radixInt?_withSign (negative : Bool) (hds : IsWhole ds)
    (hrest : ∀ c ∈ rest.head?, c ≠ 'x' ∧ c ≠ 'o' ∧ c ≠ 'b') :
    radixInt? (withSign negative (ds ++ rest)) = none := by
  obtain ⟨hne, hdigits, hzero⟩ := hds
  cases negative with
  | true => rfl
  | false =>
    by_cases hhead : ds.head? = some '0'
    · obtain rfl := hzero hhead
      cases rest with
      | nil => rfl
      | cons c rest =>
        obtain ⟨hx, ho, hb⟩ := hrest c rfl
        simp [withSign, radixInt?, hx, ho, hb]
    · cases ds with
      | nil => exact absurd rfl hne
      | cons d ds =>
        have hd : d ≠ '0' := fun h => hhead (h ▸ rfl)
        simp [withSign, radixInt?, hd]

theorem readNumber_withSign (negative : Bool) (hwhole : IsWhole whole) (hdigits : EndsDigits rest)
    (hrest : ∀ c ∈ rest.head?, c ≠ 'x' ∧ c ≠ 'o' ∧ c ≠ 'b') :
    readNumber (withSign negative (whole ++ rest)) =
      (let s := withSign negative (whole ++ rest)
      let real (fraction : List Char) (power : Int) (left : List Char) : Reading (Int ⊕ Real) :=
        match realOf? negative whole fraction power with
        | some r => .ok (.inr r, left)
        | none => .error s
      match fraction? rest with
      | some (fraction, left) =>
        match power? left with
        | some (power, left) => real fraction power left
        | none => real fraction 0 left
      | none =>
        match power? rest with
        | some (power, left) => real [] power left
        | none =>
          match int64? (if negative then -(Nat.ofDigitChars 10 whole 0) else
            (Nat.ofDigitChars 10 whole 0 : Int)) with
          | some n => .ok (.inl n, rest)
          | none => .error s) := by
  have hhead := hwhole.head?_append rest
  unfold readNumber
  rw [sign_withSign negative hhead]
  dsimp only
  rw [namedReal?_digit hhead]
  dsimp only
  rw [radixInt?_withSign negative hwhole hrest]
  generalize hread : wholeDigits? (whole ++ rest) = read
  obtain rfl := hread.symm.trans (wholeDigits?_append hwhole hdigits)
  rfl

theorem power?_eq_none {s : List Char} (hs : ∀ c ∈ s.head?, c ≠ 'e' ∧ c ≠ 'E') :
    power? s = none := by
  cases s with
  | nil => rfl
  | cons c s =>
    obtain ⟨he, hE⟩ := hs c rfl
    simp [power?, he, hE]

theorem fraction?_eq_none {s : List Char} (hs : s.head? ≠ some '.') : fraction? s = none := by
  unfold fraction?
  split <;> simp_all

theorem int64?_eq_some {n : Int} (hn : -int64Bound ≤ n ∧ n < int64Bound) : int64? n = some n :=
  if_pos hn

theorem toList_toString_int (n : Int) :
    (toString n).toList = withSign (decide (n < 0)) (Nat.toDigits 10 n.natAbs) := by
  rw [Int.toString_eq_repr, Int.repr_eq_if]
  by_cases hn : 0 ≤ n
  · have hneg : ¬n < 0 := by omega
    have habs : n.toNat = n.natAbs := by omega
    simp [hn, hneg, habs, withSign, Nat.repr_eq_ofList_toDigits]
  · have hneg : n < 0 := by omega
    have habs : (-n).toNat = n.natAbs := by omega
    simp [hn, hneg, habs, withSign, Nat.repr_eq_ofList_toDigits]

theorem readNumber_int {n : Int} (hn : -int64Bound ≤ n ∧ n < int64Bound) (hrest : EndsValue rest) :
    readNumber ((toString n).toList ++ rest) = .ok (.inl n, rest) := by
  have hvalue : (if decide (n < 0) = true then -(n.natAbs : Int) else n.natAbs) = n := by
    by_cases hneg : n < 0
    · rw [if_pos (by simpa using hneg)]
      omega
    · rw [if_neg (by simpa using hneg)]
      omega
  have htext : (toString n).toList ++ rest =
      withSign (decide (n < 0)) (Nat.toDigits 10 n.natAbs ++ rest) := by
    rw [toList_toString_int]
    unfold withSign
    split <;> rfl
  rw [htext, readNumber_withSign _ (isWhole_toDigits _) hrest.endsDigits]
  · rw [fraction?_eq_none (hrest.head_ne (by decide)), power?_eq_none]
    · dsimp only
      rw [Nat.ofDigitChars_ten_toDigits, hvalue, int64?_eq_some hn]
    · intro c hc
      rcases hrest c hc with rfl | rfl | rfl | rfl <;> decide
  · intro c hc
    rcases hrest c hc with rfl | rfl | rfl | rfl <;> decide

theorem readNumber_fraction (negative : Bool) {whole fraction : List Char} (hwhole : IsWhole whole)
    (hne : fraction ≠ []) (hfraction : ∀ c ∈ fraction, c.isDigit = true) (hrest : EndsValue rest)
    {r : Real} (hr : realOf? negative whole fraction 0 = some r) :
    readNumber (withSign negative (whole ++ '.' :: (fraction ++ rest))) = .ok (.inr r, rest) := by
  have hpoint : fraction? ('.' :: (fraction ++ rest)) = some (fraction, rest) :=
    digits?_append hne hfraction hrest.endsDigits
  rw [readNumber_withSign negative hwhole, hpoint]
  · dsimp only
    rw [power?_eq_none]
    · dsimp only
      rw [hr]
    · intro c hc
      rcases hrest c hc with rfl | rfl | rfl | rfl <;> decide
  · intro c hc
    cases hc
    decide
  · intro c hc
    cases hc
    decide

end Digits

/-! ### Digits with a point -/

section Positional

variable {d : Binary64.Decimal}

theorem toDigits_append_zeros {n : Nat} (hn : n ≠ 0) (count : Nat) :
    Nat.toDigits 10 n ++ List.replicate count '0' = Nat.toDigits 10 (n * 10 ^ count) := by
  induction count with
  | zero => simp
  | succ count ih =>
    have hpos : 0 < n * 10 ^ count := Nat.mul_pos (by omega) (Nat.pow_pos (by omega))
    rw [List.replicate_succ', ← List.append_assoc, ih,
      show ['0'] = Nat.toDigits 10 0 from rfl,
      Nat.toDigits_append_toDigits (by omega) hpos (by omega)]
    congr 1
    ring

/-- What a decimal is written as: a whole number, a point, and digits that give its value. -/
structure WritesValue (whole fraction : List Char) (d : Binary64.Decimal) : Prop where
  isWhole : IsWhole whole
  ne_nil : fraction ≠ []
  isDigit : ∀ c ∈ fraction, c.isDigit = true
  value : ((Nat.ofDigitChars 10 (whole ++ fraction) 0 : ℕ) : ℚ) * 10 ^ (0 - fraction.length : ℤ) =
    d.value

/-- Zeros before a number are written only as far as one digit has to stand before the point. -/
theorem isWhole_take_padded {n places : Nat} :
    IsWhole ((List.replicate (places + 1 - (Nat.toDigits 10 n).length) '0' ++
      Nat.toDigits 10 n).take
        ((places + 1 - (Nat.toDigits 10 n).length) + (Nat.toDigits 10 n).length - places)) := by
  refine ⟨?_, fun c hc => isDigit_of_mem_zeros_append (List.mem_of_mem_take hc), fun hhead => ?_⟩
  · intro hnil
    have := congrArg List.length hnil
    simp only [List.length_take, List.length_append, List.length_replicate, List.length_nil]
      at this
    have hpos := Nat.length_toDigits_pos (b := 10) (n := n)
    omega
  · rcases Nat.lt_or_ge places (Nat.toDigits 10 n).length with hlt | hge
    · have hzeros : places + 1 - (Nat.toDigits 10 n).length = 0 := by omega
      rw [hzeros, List.replicate_zero, List.nil_append, Nat.zero_add] at hhead ⊢
      have hwhole := isWhole_toDigits n
      obtain ⟨k, hk⟩ : ∃ k, (Nat.toDigits 10 n).length - places = k + 1 :=
        Nat.exists_eq_add_of_le' (by omega)
      rw [hk] at hhead ⊢
      have hhead' : (Nat.toDigits 10 n).head? = some '0' := by
        cases hds : Nat.toDigits 10 n with
        | nil => exact absurd hds hwhole.1
        | cons c cs => simpa [hds] using hhead
      rw [hwhole.2.2 hhead']
      simp
    · obtain ⟨k, hk⟩ : ∃ k, places + 1 - (Nat.toDigits 10 n).length = k + 1 :=
        Nat.exists_eq_add_of_le' (by omega)
      have hone : k + 1 + (Nat.toDigits 10 n).length - places = 1 := by omega
      rw [hk, hone, List.replicate_succ]
      simp

theorem positional_writesValue (hd : d.coefficient ≠ 0 ∨ d.exponent = 0) :
    ∃ whole fraction, Binary64.positional d = whole ++ '.' :: fraction ∧
      WritesValue whole fraction d := by
  unfold Binary64.positional
  dsimp only
  split
  next hexp =>
    refine ⟨Nat.toDigits 10 (d.coefficient * 10 ^ d.exponent.toNat), ['0'], ?_,
      isWhole_toDigits _, by simp, by simp, ?_⟩
    · unfold Binary64.digits
      rcases hd with hd | hd
      · rw [toDigits_append_zeros hd]
      · simp [hd]
    · have hpow : (10 : ℚ) ^ d.exponent = ((10 ^ d.exponent.toNat : ℕ) : ℚ) := by
        exact Binary64.zpow_of_nonneg 10 hexp
      rw [Nat.ofDigitChars_append, Nat.ofDigitChars_ten_toDigits, Binary64.Decimal.value, hpow]
      norm_num [Nat.ofDigitChars_cons]
      ring
  next hexp =>
    obtain ⟨places, hplaces⟩ : ∃ places, (-d.exponent).toNat = places := ⟨_, rfl⟩
    rw [hplaces]
    refine ⟨_, _, rfl, ?_, ?_, ?_, ?_⟩
    · simpa [Binary64.digits] using isWhole_take_padded
    · intro hnil
      have := congrArg List.length hnil
      simp only [List.length_drop, List.length_append, List.length_replicate, List.length_nil]
        at this
      omega
    · exact fun c hc => isDigit_of_mem_zeros_append (List.mem_of_mem_drop hc)
    · have hlength : places ≤ (List.replicate (places + 1 - (Nat.toDigits 10 d.coefficient).length)
          '0' ++ Nat.toDigits 10 d.coefficient).length := by
        rw [List.length_append, List.length_replicate]
        omega
      rw [List.take_append_drop, List.length_drop, Binary64.digits, Nat.sub_sub_self hlength,
        Nat.ofDigitChars_append, Nat.ofDigitChars_replicate_zero, Nat.mul_zero,
        Nat.ofDigitChars_ten_toDigits, Binary64.Decimal.value]
      congr 2
      omega

theorem ofDecimal?_writesValue (negative : Bool) {whole fraction : List Char} {x : Binary64}
    (hd : WritesValue whole fraction d) (hx : x.RoundsTo d.value) :
    Binary64.ofDecimal? negative (Nat.ofDigitChars 10 (whole ++ fraction) 0)
      (0 - fraction.length) = some ⟨negative, x.significand, x.exponent, x.canonical⟩ := by
  rw [← hd.value] at hx
  exact Binary64.ofDecimal?_of_roundsTo negative
    (d := ⟨Nat.ofDigitChars 10 (whole ++ fraction) 0, 0 - fraction.length⟩) hx

/-- The shortest digits of a number, with the point in place, say the number. -/
theorem positional_shortest (tie : Binary64.Tie) (x : Binary64) :
    ∃ whole fraction, Binary64.positional (x.shortest tie) = whole ++ '.' :: fraction ∧
      IsWhole whole ∧ fraction ≠ [] ∧ (∀ c ∈ fraction, c.isDigit = true) ∧
        Binary64.ofDecimal? x.negative (Nat.ofDigitChars 10 (whole ++ fraction) 0)
          (0 - fraction.length) = some x := by
  by_cases hzero : x.significand = 0
  · refine ⟨['0'], ['0'], ?_, isWhole_toDigits 0, by simp, by simp, ?_⟩
    · rw [Binary64.shortest, if_pos hzero]
      rfl
    · rw [Binary64.eq_zero_of_significand hzero]
      rfl
  · have hrounds := Binary64.shortest_roundsTo tie hzero
    obtain ⟨whole, fraction, htext, hwrites⟩ :=
      positional_writesValue (.inl hrounds.coefficient_ne_zero)
    exact ⟨whole, fraction, htext, hwrites.isWhole, hwrites.ne_nil, hwrites.isDigit,
      ofDecimal?_writesValue _ hwrites hrounds⟩

theorem toList_signed (x : Binary64) (cs : List Char) :
    (x.signed cs).toList = withSign x.negative cs := String.toList_ofList

theorem toPositional_eq (x : Binary64) :
    ∃ whole fraction, x.toPositional.toList = withSign x.negative (whole ++ '.' :: fraction) ∧
      IsWhole whole ∧ fraction ≠ [] ∧ (∀ c ∈ fraction, c.isDigit = true) ∧
        realOf? x.negative whole fraction 0 = some (.finite x) := by
  obtain ⟨whole, fraction, htext, hwhole, hne, hdigits, hvalue⟩ := positional_shortest .up x
  refine ⟨whole, fraction, ?_, hwhole, hne, hdigits, ?_⟩
  · rw [Binary64.toPositional, toList_signed, htext]
  · unfold realOf?
    dsimp only
    rw [hvalue]

end Positional

end Ferry.Toml
