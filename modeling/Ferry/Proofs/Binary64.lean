import Mathlib.Algebra.Order.Field.Power
import Mathlib.Tactic.FieldSimp
import Mathlib.Tactic.Linarith
import Mathlib.Tactic.NormNum
import Mathlib.Tactic.Positivity
import Mathlib.Tactic.Ring
import Ferry.Binary64

/-!
# Rounding to binary numbers

A quotient rounds to a number exactly from within an interval around it, whose
ends count if the significand is even. `RoundsTo` states this over the rational
numbers; the integer arithmetic of `ofRatio?` and `ofDecimal?` finds the number
for every quotient inside the interval, and `shortest` gives a decimal that lies
inside. So the digits of a number read back as the number.
-/
namespace Ferry.Binary64

/-- A quarter of the step from a number to the next one. -/
def quarter (x : Binary64) : ℚ := 2 ^ (x.exponent - 2)

/-- How many quarters the rounding interval reaches below a number. The step below a power of two
is half of the step above it. -/
def quartersBelow (x : Binary64) : ℕ :=
  if x.significand = leastNormal ∧ x.exponent ≠ -1074 then 1 else 2

/-- A positive quotient rounds to the magnitude of a number. -/
structure RoundsTo (q : ℚ) (x : Binary64) : Prop where
  positive : x.significand ≠ 0
  lower : ((4 * x.significand - x.quartersBelow : ℕ) : ℚ) * x.quarter ≤ q
  upper : q ≤ ((4 * x.significand + 2 : ℕ) : ℚ) * x.quarter
  /-- The ends of the interval belong to the number with the even significand. -/
  inner : x.significand % 2 = 1 →
    ((4 * x.significand - x.quartersBelow : ℕ) : ℚ) * x.quarter < q ∧
      q < ((4 * x.significand + 2 : ℕ) : ℚ) * x.quarter

/-! ### Quotients -/

/-- The rounded quotient is the integer that is at most a half away, and the even one of two. -/
theorem roundDiv_toEven {num den n : ℕ} (hden : 0 < den) (hlower : 2 * n * den ≤ 2 * num + den)
    (hupper : 2 * num ≤ (2 * n + 1) * den)
    (htie : n % 2 = 1 → 2 * n * den < 2 * num + den ∧ 2 * num < (2 * n + 1) * den) :
    roundDiv .toEven num den = n := by
  have hsplit := Nat.div_add_mod num den
  have hmod := Nat.mod_lt num hden
  unfold roundDiv
  dsimp only
  generalize num / den = floor at *
  generalize num % den = rest at *
  have hle : floor ≤ n := by
    by_contra hlt
    have : (n + 1) * den ≤ floor * den := Nat.mul_le_mul_right _ (by omega)
    nlinarith
  have hge : n ≤ floor + 1 := by
    by_contra hlt
    have : (floor + 2) * den ≤ n * den := Nat.mul_le_mul_right _ (by omega)
    nlinarith
  rcases Nat.lt_or_ge floor n with hlt | hge'
  · obtain rfl : n = floor + 1 := by omega
    rw [if_pos]
    have hhalf : den ≤ 2 * rest := by nlinarith
    rcases Nat.lt_or_ge den (2 * rest) with h | h
    · exact .inl h
    · refine .inr ⟨by omega, .inr ?_⟩
      by_contra heven
      have := (htie (by omega)).1
      nlinarith
  · obtain rfl : n = floor := by omega
    rw [if_neg]
    have hhalf : 2 * rest ≤ den := by nlinarith
    rintro (h | ⟨h, h' | h'⟩)
    · omega
    · cases h'
    · have := (htie h').2
      nlinarith

theorem zpow_of_nonneg (base : ℕ) {k : ℤ} (hk : 0 ≤ k) :
    (base : ℚ) ^ k = ((Nat.pow base k.toNat : ℕ) : ℚ) := by
  obtain ⟨n, rfl⟩ := Int.eq_ofNat_of_zero_le hk
  simp

theorem zpow_of_neg (base : ℕ) {k : ℤ} (hk : k < 0) :
    (base : ℚ) ^ k = ((Nat.pow base (-k).toNat : ℕ) : ℚ)⁻¹ := by
  rw [← zpow_of_nonneg base (by omega), zpow_neg, inv_inv]

theorem two_zpow_le_div_iff {num den : ℕ} (hden : 0 < den) (k : ℤ) :
    (2 : ℚ) ^ k ≤ num / den ↔
      if 0 ≤ k then den * Nat.pow 2 k.toNat ≤ num else den ≤ num * Nat.pow 2 (-k).toNat := by
  have hden' : (0 : ℚ) < den := by exact_mod_cast hden
  rw [le_div_iff₀ hden']
  split
  next hk =>
    rw [show (2 : ℚ) = (2 : ℕ) by rfl, zpow_of_nonneg 2 hk, mul_comm]
    exact_mod_cast Iff.rfl
  next hk =>
    have hpow : (0 : ℚ) < (Nat.pow 2 (-k).toNat : ℕ) := by
      exact_mod_cast Nat.pow_pos (by omega)
    rw [show (2 : ℚ) = (2 : ℕ) by rfl, zpow_of_neg 2 (by omega), inv_mul_le_iff₀ hpow, mul_comm]
    exact_mod_cast Iff.rfl

theorem ratioLog2_spec {num den : ℕ} (hnum : num ≠ 0) (hden : den ≠ 0) :
    (2 : ℚ) ^ ratioLog2 num den ≤ num / den ∧ (num / den : ℚ) < 2 ^ (ratioLog2 num den + 1) := by
  have hden' : (0 : ℚ) < den := by exact_mod_cast Nat.pos_of_ne_zero hden
  have hnumLower : (2 : ℚ) ^ (num.log2 : ℤ) ≤ num := by
    exact_mod_cast Nat.log2_self_le hnum
  have hnumUpper : (num : ℚ) < 2 ^ ((num.log2 : ℤ) + 1) := by
    exact_mod_cast Nat.lt_log2_self
  have hdenLower : (2 : ℚ) ^ (den.log2 : ℤ) ≤ den := by
    exact_mod_cast Nat.log2_self_le hden
  have hdenUpper : (den : ℚ) < 2 ^ ((den.log2 : ℤ) + 1) := by
    exact_mod_cast Nat.lt_log2_self
  have hupper : (num / den : ℚ) < 2 ^ ((num.log2 : ℤ) - den.log2 + 1) := by
    rw [div_lt_iff₀ hden']
    calc (num : ℚ) < 2 ^ ((num.log2 : ℤ) + 1) := hnumUpper
      _ = 2 ^ ((num.log2 : ℤ) - den.log2 + 1) * 2 ^ (den.log2 : ℤ) := by
        rw [← zpow_add₀ two_ne_zero]
        congr 1
        ring
      _ ≤ 2 ^ ((num.log2 : ℤ) - den.log2 + 1) * den := by gcongr
  have hlower : (2 : ℚ) ^ ((num.log2 : ℤ) - den.log2 - 1) ≤ num / den := by
    rw [le_div_iff₀ hden']
    calc (2 : ℚ) ^ ((num.log2 : ℤ) - den.log2 - 1) * den
        ≤ 2 ^ ((num.log2 : ℤ) - den.log2 - 1) * 2 ^ ((den.log2 : ℤ) + 1) := by gcongr
      _ = 2 ^ (num.log2 : ℤ) := by
        rw [← zpow_add₀ two_ne_zero]
        congr 1
        ring
      _ ≤ num := hnumLower
  have hreached : (2 : ℚ) ^ ((num.log2 : ℤ) - den.log2) ≤ num / den ↔ _ :=
    two_zpow_le_div_iff (Nat.pos_of_ne_zero hden) _
  unfold ratioLog2
  dsimp only
  by_cases h : (2 : ℚ) ^ ((num.log2 : ℤ) - den.log2) ≤ num / den
  · rw [if_pos (hreached.mp h)]
    exact ⟨h, hupper⟩
  · rw [if_neg (mt hreached.mpr h), sub_add_cancel]
    exact ⟨hlower, not_le.mp h⟩

theorem ratioLog2_eq {num den : ℕ} (hnum : num ≠ 0) (hden : den ≠ 0) {k : ℤ}
    (hlower : (2 : ℚ) ^ k ≤ num / den) (hupper : (num / den : ℚ) < 2 ^ (k + 1)) :
    ratioLog2 num den = k := by
  obtain ⟨hl, hu⟩ := ratioLog2_spec hnum hden
  have h1 : k < ratioLog2 num den + 1 :=
    (zpow_lt_zpow_iff_right₀ one_lt_two).mp (hlower.trans_lt hu)
  have h2 : ratioLog2 num den < k + 1 :=
    (zpow_lt_zpow_iff_right₀ one_lt_two).mp (hl.trans_lt hupper)
  omega

/-! ### Quotients in a rounding interval -/

/-- The integer that `ofRatio?` rounds a quotient to, in units of a power of two. -/
def scaledRound (num den : ℕ) (exponent : ℤ) : ℕ :=
  if 0 ≤ exponent then roundDiv .toEven num (den * Nat.pow 2 exponent.toNat)
  else roundDiv .toEven (num * Nat.pow 2 (-exponent).toNat) den

theorem roundDiv_of_ratio {a b n : ℕ} (hb : 0 < b) (hlower : (2 * n - 1 : ℚ) ≤ 2 * (a / b))
    (hupper : 2 * (a / b) ≤ (2 * n + 1 : ℚ))
    (htie : n % 2 = 1 → (2 * n - 1 : ℚ) < 2 * (a / b) ∧ 2 * (a / b) < (2 * n + 1 : ℚ)) :
    roundDiv .toEven a b = n := by
  have hb' : (0 : ℚ) < b := by exact_mod_cast hb
  have hclear : (2 * (a / b : ℚ)) * b = 2 * a := by field_simp
  refine roundDiv_toEven hb ?_ ?_ fun hodd => ⟨?_, ?_⟩
  · have := mul_le_mul_of_nonneg_right hlower hb'.le
    rw [hclear] at this
    have : (2 * n * b : ℚ) ≤ 2 * a + b := by linarith
    exact_mod_cast this
  · have := mul_le_mul_of_nonneg_right hupper hb'.le
    rw [hclear] at this
    exact_mod_cast this
  · have := mul_lt_mul_of_pos_right (htie hodd).1 hb'
    rw [hclear] at this
    have : (2 * n * b : ℚ) < 2 * a + b := by linarith
    exact_mod_cast this
  · have := mul_lt_mul_of_pos_right (htie hodd).2 hb'
    rw [hclear] at this
    exact_mod_cast this

/-- A quotient at most half a unit away from `n` units is rounded to `n`. -/
theorem scaledRound_eq {num den n : ℕ} {exponent : ℤ} (hden : den ≠ 0)
    (hlower : (2 * n - 1 : ℚ) * 2 ^ exponent ≤ 2 * (num / den))
    (hupper : 2 * (num / den) ≤ (2 * n + 1 : ℚ) * 2 ^ exponent)
    (htie : n % 2 = 1 → (2 * n - 1 : ℚ) * 2 ^ exponent < 2 * (num / den) ∧
      2 * (num / den) < (2 * n + 1 : ℚ) * 2 ^ exponent) :
    scaledRound num den exponent = n := by
  have hunit : (0 : ℚ) < 2 ^ exponent := by positivity
  have hratio {a b : ℕ} (hb : 0 < b) (h : (a / b : ℚ) = num / den / 2 ^ exponent) :
      roundDiv .toEven a b = n := by
    have hdouble : 2 * (a / b : ℚ) = 2 * (num / den) / 2 ^ exponent := by rw [h, mul_div_assoc]
    refine roundDiv_of_ratio hb ?_ ?_ fun hodd => ?_ <;> rw [hdouble]
    · exact (le_div_iff₀ hunit).mpr hlower
    · exact (div_le_iff₀ hunit).mpr hupper
    · exact ⟨(lt_div_iff₀ hunit).mpr (htie hodd).1, (div_lt_iff₀ hunit).mpr (htie hodd).2⟩
  have hdenPos := Nat.pos_of_ne_zero hden
  unfold scaledRound
  split
  next hexp =>
    refine hratio (Nat.mul_pos hdenPos (Nat.pow_pos (by omega))) ?_
    rw [show (2 : ℚ) = (2 : ℕ) by rfl, zpow_of_nonneg 2 hexp, div_div, Nat.cast_mul]
  next hexp =>
    refine hratio hdenPos ?_
    rw [show (2 : ℚ) = (2 : ℕ) by rfl, zpow_of_neg 2 (by omega), div_inv_eq_mul, Nat.cast_mul,
      mul_div_right_comm]

theorem ofParts?_self (negative : Bool) (x : Binary64) :
    ofParts? negative x.significand x.exponent =
      some ⟨negative, x.significand, x.exponent, x.canonical⟩ :=
  dif_pos x.canonical

theorem ofRatio?_eq (negative : Bool) {num den : ℕ} (hnum : num ≠ 0) :
    ofRatio? negative num den =
      let exponent := max (-1074) (ratioLog2 num den - 52)
      if scaledRound num den exponent = 2 * leastNormal then
        ofParts? negative leastNormal (exponent + 1)
      else ofParts? negative (scaledRound num den exponent) exponent :=
  if_neg hnum

section Interval

variable {x : Binary64}

theorem quarter_pos (x : Binary64) : 0 < x.quarter := by
  unfold quarter
  positivity

theorem two_zpow_exponent (x : Binary64) : (2 : ℚ) ^ x.exponent = 4 * x.quarter := by
  unfold quarter
  rw [zpow_sub₀ two_ne_zero]
  ring

theorem leastNormal_quarters (x : Binary64) :
    (2 : ℚ) ^ (x.exponent + 52) = 4 * leastNormal * x.quarter := by
  have hleast : (leastNormal : ℚ) = 2 ^ (52 : ℤ) := by norm_num [leastNormal]
  rw [zpow_add₀ two_ne_zero, two_zpow_exponent, hleast]
  ring

theorem quartersBelow_le (x : Binary64) : x.quartersBelow ≤ 2 := by
  unfold quartersBelow
  split <;> omega

namespace RoundsTo

variable {q : ℚ}

theorem bounds (h : RoundsTo q x) :
    (4 * x.significand - x.quartersBelow : ℚ) * x.quarter ≤ q ∧
      q ≤ (4 * x.significand + 2) * x.quarter := by
  have hle := x.quartersBelow_le
  have hpos := h.positive
  refine ⟨?_, by exact_mod_cast h.upper⟩
  have := h.lower
  rwa [Nat.cast_sub (by omega), Nat.cast_mul] at this

theorem inner_bounds (h : RoundsTo q x) (hodd : x.significand % 2 = 1) :
    (4 * x.significand - x.quartersBelow : ℚ) * x.quarter < q ∧
      q < (4 * x.significand + 2) * x.quarter := by
  have hle := x.quartersBelow_le
  have hpos := h.positive
  obtain ⟨hlower, hupper⟩ := h.inner hodd
  refine ⟨?_, by exact_mod_cast hupper⟩
  rwa [Nat.cast_sub (by omega), Nat.cast_mul] at hlower

theorem pos (h : RoundsTo q x) : 0 < q := by
  have hle : (x.quartersBelow : ℚ) ≤ 2 := by exact_mod_cast x.quartersBelow_le
  have hone : (1 : ℚ) ≤ x.significand := by exact_mod_cast Nat.pos_of_ne_zero h.positive
  have := mul_pos (show (0 : ℚ) < 4 * x.significand - x.quartersBelow by linarith) x.quarter_pos
  linarith [h.bounds.1]

theorem lt_two_zpow (h : RoundsTo q x) : q < 2 ^ (x.exponent + 52 + 1) := by
  have hmax : (x.significand : ℚ) + 1 ≤ 2 * leastNormal := by exact_mod_cast x.canonical.1
  rw [zpow_add_one₀ two_ne_zero, leastNormal_quarters]
  nlinarith [h.bounds.2, x.quarter_pos]

end RoundsTo

/-- Every quotient in the rounding interval of a number is rounded to it. -/
theorem ofRatio?_of_roundsTo (negative : Bool) {num den : ℕ} (hden : den ≠ 0)
    (h : RoundsTo (num / den) x) :
    ofRatio? negative num den = some ⟨negative, x.significand, x.exponent, x.canonical⟩ := by
  have hquarter := x.quarter_pos
  have hbelow : (x.quartersBelow : ℚ) ≤ 2 := by exact_mod_cast x.quartersBelow_le
  obtain ⟨hsig, hleast, -, hnormal⟩ := x.canonical
  obtain ⟨hlower, hupper⟩ := h.bounds
  have hnum : num ≠ 0 := by
    rintro rfl
    simpa using h.pos
  rw [ofRatio?_eq negative hnum]
  dsimp only
  by_cases hexp : max (-1074) (ratioLog2 num den - 52) = x.exponent
  · have hround : scaledRound num den x.exponent = x.significand := by
      refine scaledRound_eq hden ?_ ?_ fun hodd => ?_ <;> rw [two_zpow_exponent]
      · nlinarith
      · nlinarith
      · obtain ⟨hlower, hupper⟩ := h.inner_bounds hodd
        constructor <;> nlinarith
    rw [hexp, hround, if_neg (by omega), ofParts?_self]
  · -- Only a power of two has quotients below it in its interval with a smaller exponent.
    have hlt : (num / den : ℚ) < 4 * leastNormal * x.quarter := by
      by_contra hge
      have := ratioLog2_eq hnum hden (by rw [leastNormal_quarters]; linarith) h.lt_two_zpow
      omega
    have hexponent : x.exponent ≠ -1074 := by
      intro heq
      have hlog := (ratioLog2_spec hnum hden).1.trans_lt h.lt_two_zpow
      rw [zpow_lt_zpow_iff_right₀ one_lt_two] at hlog
      omega
    have hpower : x.significand = leastNormal := by
      by_contra hne
      have hgt : (leastNormal : ℚ) + 1 ≤ x.significand := by
        exact_mod_cast show leastNormal + 1 ≤ x.significand by omega
      nlinarith
    have hquarters : x.quartersBelow = 1 := by simp [quartersBelow, hpower, hexponent]
    have hunit : (2 : ℚ) ^ (x.exponent - 1) = 2 * x.quarter := by
      rw [zpow_sub₀ two_ne_zero, two_zpow_exponent]
      ring
    have hleastPos : (1 : ℚ) ≤ leastNormal := by norm_num [leastNormal]
    rw [hpower, hquarters] at hlower
    have hlog : ratioLog2 num den = x.exponent + 51 := by
      refine ratioLog2_eq hnum hden ?_ ?_
      · rw [show x.exponent + 51 = x.exponent + 52 - 1 by ring, zpow_sub₀ two_ne_zero,
          leastNormal_quarters]
        push_cast at hlower
        nlinarith
      · rw [show x.exponent + 51 + 1 = x.exponent + 52 by ring, leastNormal_quarters]
        exact hlt
    have hmax : max (-1074) (ratioLog2 num den - 52) = x.exponent - 1 := by omega
    have hround : scaledRound num den (x.exponent - 1) = 2 * leastNormal := by
      refine scaledRound_eq hden ?_ ?_ fun hodd => ?_
      · rw [hunit]
        push_cast at hlower ⊢
        nlinarith
      · rw [hunit]
        push_cast
        nlinarith
      · omega
    rw [hmax, hround, if_pos rfl, sub_add_cancel, ← ofParts?_self, hpower]

theorem eq_zero_of_significand (h : x.significand = 0) : x = .zero x.negative := by
  obtain ⟨negative, significand, exponent, hcanonical⟩ := x
  obtain rfl : significand = 0 := h
  obtain rfl : exponent = -1074 := hcanonical.2.2.2.resolve_left (by decide)
  rfl

/-! ### Decimals in a rounding interval -/

def Decimal.value (d : Decimal) : ℚ := d.coefficient * 10 ^ d.exponent

theorem RoundsTo.coefficient_ne_zero {d : Decimal} (h : RoundsTo d.value x) :
    d.coefficient ≠ 0 := by
  intro hzero
  have := h.pos
  simp [Decimal.value, hzero] at this

theorem length_digits {n : ℕ} (hn : n ≠ 0) :
    (10 : ℚ) ^ ((digits n).length - 1 : ℤ) ≤ n ∧ (n : ℚ) < 10 ^ ((digits n).length : ℤ) := by
  have hpos : 0 < (digits n).length := Nat.length_toDigits_pos
  constructor
  · obtain ⟨k, hk⟩ := Nat.exists_eq_succ_of_ne_zero hpos.ne'
    rw [hk]
    have hle : 10 ^ k ≤ n := by
      rcases Nat.eq_zero_or_pos k with rfl | hkpos
      · rw [pow_zero]
        omega
      · by_contra hlt
        have := (Nat.length_toDigits_le_iff (b := 10) (n := n) (by omega) hkpos).mpr (by omega)
        unfold digits at hk
        omega
    push_cast
    rw [add_sub_cancel_right]
    exact_mod_cast hle
  · have := (Nat.length_toDigits_le_iff (b := 10) (n := n) (by omega) hpos).mp le_rfl
    exact_mod_cast this

theorem ten_zpow_lt_two_zpow : (10 : ℚ) ^ (-324 : ℤ) < 2 ^ (-1075 : ℤ) := by
  have hpow : 2 ^ 1075 < 10 ^ 324 := by decide +kernel
  rw [zpow_neg, zpow_neg, inv_lt_inv₀ (by positivity) (by positivity)]
  exact_mod_cast hpow

theorem two_zpow_lt_ten_zpow : (2 : ℚ) ^ (1024 : ℤ) < 10 ^ (309 : ℤ) := by
  have hpow : 2 ^ 1024 < 10 ^ 309 := by decide +kernel
  exact_mod_cast hpow

theorem RoundsTo.magnitude_bounds {q : ℚ} (h : RoundsTo q x) :
    (10 : ℚ) ^ (-324 : ℤ) < q ∧ q < 10 ^ (309 : ℤ) := by
  obtain ⟨-, hleast, hmax, -⟩ := x.canonical
  constructor
  · have hquarter : (2 : ℚ) ^ (-1076 : ℤ) ≤ x.quarter :=
      zpow_le_zpow_right₀ one_le_two (by omega)
    have hle : (x.quartersBelow : ℚ) ≤ 2 := by exact_mod_cast x.quartersBelow_le
    have hone : (1 : ℚ) ≤ x.significand := by exact_mod_cast Nat.pos_of_ne_zero h.positive
    have hbound := ten_zpow_lt_two_zpow
    rw [show (-1075 : ℤ) = -1076 + 1 by rfl, zpow_add_one₀ two_ne_zero] at hbound
    have htwo : 2 * x.quarter ≤ (4 * x.significand - x.quartersBelow) * x.quarter :=
      mul_le_mul_of_nonneg_right (by linarith) x.quarter_pos.le
    linarith [h.bounds.1]
  · calc q < 2 ^ (x.exponent + 52 + 1) := h.lt_two_zpow
      _ ≤ 2 ^ (1024 : ℤ) := zpow_le_zpow_right₀ one_le_two (by omega)
      _ < 10 ^ (309 : ℤ) := two_zpow_lt_ten_zpow

/-- Every decimal in the rounding interval of a number is read as the number. -/
theorem ofDecimal?_of_roundsTo (negative : Bool) {d : Decimal} (h : RoundsTo d.value x) :
    ofDecimal? negative d.coefficient d.exponent =
      some ⟨negative, x.significand, x.exponent, x.canonical⟩ := by
  have hne := h.coefficient_ne_zero
  unfold Decimal.value at h
  obtain ⟨coefficient, exponent⟩ := d
  dsimp only at h hne ⊢
  have hpow : (0 : ℚ) < 10 ^ exponent := by positivity
  obtain ⟨hlower, hupper⟩ := length_digits hne
  obtain ⟨hsmall, hlarge⟩ := h.magnitude_bounds
  have hlow : -324 < exponent + (digits coefficient).length := by
    rw [← zpow_lt_zpow_iff_right₀ (show (1 : ℚ) < 10 by norm_num), zpow_add₀ (by norm_num)]
    nlinarith
  have hhigh : exponent + (digits coefficient).length - 1 < 309 := by
    rw [← zpow_lt_zpow_iff_right₀ (show (1 : ℚ) < 10 by norm_num), add_sub_assoc,
      zpow_add₀ (by norm_num)]
    nlinarith
  unfold ofDecimal?
  dsimp only
  rw [if_neg (by omega), if_neg (by omega)]
  split
  next hexp =>
    refine ofRatio?_of_roundsTo negative one_ne_zero ?_
    rw [Nat.cast_mul, ← zpow_of_nonneg 10 hexp, Nat.cast_one, div_one]
    exact_mod_cast h
  next hexp =>
    refine ofRatio?_of_roundsTo negative (Nat.pow_pos (by omega)).ne' ?_
    rw [div_eq_mul_inv, ← zpow_of_neg 10 (by omega)]
    exact_mod_cast h

/-! ### The fewest digits -/

theorem powRatio_spec {base : ℕ} (hbase : 0 < base) (exponent : ℤ) :
    (0 < ((powRatio base exponent).2 : ℚ)) ∧
      ((powRatio base exponent).1 / (powRatio base exponent).2 : ℚ) = (base : ℚ) ^ exponent := by
  unfold powRatio
  split
  next hexp => simp [zpow_of_nonneg base hexp]
  next hexp =>
    have hpow : (0 : ℚ) < (Nat.pow base (-exponent).toNat : ℕ) := by
      exact_mod_cast Nat.pow_pos hbase
    exact ⟨hpow, by rw [zpow_of_neg base (by omega), Nat.cast_one, one_div]⟩

@[simp]
theorem value_stripZeros (fuel n : ℕ) (exponent : ℤ) :
    (stripZeros fuel n exponent).value = n * 10 ^ exponent := by
  induction fuel generalizing n exponent with
  | zero => rfl
  | succ fuel ih =>
    unfold stripZeros
    split
    next hstrip =>
      have hn : (n : ℚ) = (n / 10 : ℕ) * 10 := by
        exact_mod_cast (Nat.div_mul_cancel (Nat.dvd_of_mod_eq_zero hstrip.2)).symm
      rw [ih, hn, zpow_add_one₀ (by norm_num)]
      ring
    next => rfl

theorem nearestWithDigits?_roundsTo {tie : Tie} {magnitude : ℤ} {count : ℕ} {d : Decimal}
    (hpos : x.significand ≠ 0) (h : nearestWithDigits? tie x magnitude count = some d) :
    RoundsTo d.value x := by
  obtain ⟨hscale, hquarter⟩ := powRatio_spec (show 0 < 2 by omega) (x.exponent - 2)
  obtain ⟨hgrid, hunit⟩ := powRatio_spec (show 0 < 10 by omega) (magnitude - count)
  unfold nearestWithDigits? at h
  generalize powRatio 2 (x.exponent - 2) = scale at *
  generalize powRatio 10 (magnitude - count) = grid at *
  have hquarter' : (scale.1 / scale.2 : ℚ) = x.quarter := hquarter
  have hunit' : (grid.1 / grid.2 : ℚ) = 10 ^ (magnitude - count) := hunit
  have hcross (m n : ℕ) : ((m : ℚ) * x.quarter ≤ n * 10 ^ (magnitude - count) ↔
      m * scale.1 * grid.2 ≤ n * (grid.1 * scale.2)) := by
    rw [← hquarter', ← hunit', mul_div_assoc', mul_div_assoc', div_le_div_iff₀ hscale hgrid,
      mul_assoc (n : ℚ)]
    exact_mod_cast Iff.rfl
  have hcross' (m n : ℕ) : ((n : ℚ) * 10 ^ (magnitude - count) ≤ m * x.quarter ↔
      n * (grid.1 * scale.2) ≤ m * scale.1 * grid.2) := by
    rw [← hquarter', ← hunit', mul_div_assoc', mul_div_assoc', div_le_div_iff₀ hgrid hscale,
      mul_assoc (n : ℚ)]
    exact_mod_cast Iff.rfl
  have hwithin (n : ℕ) (hn : if x.significand % 2 = 0 then
      (4 * x.significand - x.quartersBelow) * scale.1 * grid.2 ≤ n * (grid.1 * scale.2) ∧
        n * (grid.1 * scale.2) ≤ (4 * x.significand + 2) * scale.1 * grid.2
      else (4 * x.significand - x.quartersBelow) * scale.1 * grid.2 < n * (grid.1 * scale.2) ∧
        n * (grid.1 * scale.2) < (4 * x.significand + 2) * scale.1 * grid.2) :
      RoundsTo (n * 10 ^ (magnitude - count)) x := by
    refine ⟨hpos, (hcross _ _).mpr ?_, (hcross' _ _).mpr ?_, fun hodd => ⟨?_, ?_⟩⟩
    · split at hn <;> omega
    · split at hn <;> omega
    · rw [← not_le, hcross', not_le]
      rw [if_neg (by omega)] at hn
      exact hn.1
    · rw [← not_le, hcross, not_le]
      rw [if_neg (by omega)] at hn
      exact hn.2
  rcases ite_eq_iff.mp h with ⟨hnear, hd⟩ | ⟨-, h⟩
  · cases hd
    rw [value_stripZeros]
    exact hwithin _ hnear
  · rcases ite_eq_iff.mp h with ⟨hother, hd⟩ | ⟨-, hnone⟩
    · cases hd
      rw [value_stripZeros]
      exact hwithin _ hother
    · cases hnone

theorem roundsTo_self (hpos : x.significand ≠ 0) : RoundsTo (x.significand * 2 ^ x.exponent) x := by
  have hquarter := x.quarter_pos
  have hbelow : 1 ≤ x.quartersBelow := by
    unfold quartersBelow
    split <;> omega
  have hlt : ((4 * x.significand - x.quartersBelow : ℕ) : ℚ) < 4 * x.significand := by
    exact_mod_cast show 4 * x.significand - x.quartersBelow < 4 * x.significand by omega
  rw [two_zpow_exponent]
  refine ⟨hpos, ?_, ?_, fun _ => ⟨?_, ?_⟩⟩ <;> push_cast <;> nlinarith

theorem shortest_roundsTo (tie : Tie) (hpos : x.significand ≠ 0) :
    RoundsTo (x.shortest tie).value x := by
  unfold shortest
  rw [if_neg hpos]
  dsimp only
  split
  next d hfind =>
    obtain ⟨n, -, hn⟩ := List.exists_of_findSome?_eq_some hfind
    exact nearestWithDigits?_roundsTo hpos hn
  next =>
    have hself := roundsTo_self hpos
    split
    next hexp =>
      have hcast : (2 : ℚ) ^ x.exponent = _ := zpow_of_nonneg 2 hexp
      simpa [Decimal.value, hcast] using hself
    next hexp =>
      have htwo : (2 : ℚ) ^ x.exponent = 5 ^ (-x.exponent) * 10 ^ x.exponent := by
        rw [zpow_neg, show (10 : ℚ) = 5 * 2 by norm_num, mul_zpow,
          inv_mul_cancel_left₀ (by positivity)]
      have hcast : (5 : ℚ) ^ (-x.exponent) = _ := zpow_of_nonneg 5 (show 0 ≤ -x.exponent by omega)
      rw [htwo, ← mul_assoc, hcast] at hself
      simpa [Decimal.value] using hself

end Interval

end Ferry.Binary64
