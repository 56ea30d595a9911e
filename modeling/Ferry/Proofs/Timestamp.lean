import Ferry.Proofs.Digits
import Ferry.Timestamp

/-!
# Points in time read back

Every point in time is read from its text, part by part: each part is digits, and
what follows it is no digit.
-/
namespace Ferry.Timestamp

section Parts

variable {rest : List Char}

theorem skipWhiteSpace_of_isDigit {ds : List Char} (hds : ∀ c ∈ ds, c.isDigit = true)
    (hne : ds ≠ []) (rest : List Char) : skipWhiteSpace (ds ++ rest) = ds ++ rest := by
  obtain ⟨c, cs, rfl⟩ := List.exists_cons_of_ne_nil hne
  have hc : isWhiteSpace c = false := by
    have hdigit := hds c List.mem_cons_self
    rw [Char.isDigit_iff_toNat, show '0'.toNat = 48 from rfl, show '9'.toNat = 57 from rfl]
      at hdigit
    simp only [isWhiteSpace, Bool.or_eq_false_iff, Bool.and_eq_false_iff, decide_eq_false_iff_not]
    omega
  simp [skipWhiteSpace, hc]

theorem number_append {most : Nat} {ds : List Char} (hds : ∀ c ∈ ds, c.isDigit = true)
    (hne : ds ≠ []) (hmost : ds.length ≤ most) (hrest : ∀ c ∈ rest.head?, c.isDigit = false)
    (hvalue : Nat.ofDigitChars 10 ds 0 < 9223372036854775808) :
    number most (ds ++ rest) = .ok (Nat.ofDigitChars 10 ds 0, rest) := by
  have htake : ((ds ++ rest).take most).takeWhile Char.isDigit = ds := by
    rw [List.take_append, List.take_of_length_le hmost]
    refine takeWhile_isDigit_append hds fun c hc => hrest c ?_
    rw [List.head?_take] at hc
    split at hc
    · cases hc
    · exact hc
  obtain ⟨c, cs, rfl⟩ := List.exists_cons_of_ne_nil hne
  unfold number
  rw [htake]
  rw [List.cons_append]
  dsimp only
  rw [if_pos hvalue]
  simp

theorem number_padded {most count n : Nat} (hlength : (padded count n).length ≤ most)
    (hrest : ∀ c ∈ rest.head?, c.isDigit = false) (hn : n < 9223372036854775808) :
    number most (padded count n ++ rest) = .ok (n, rest) := by
  have h := number_append (fun c hc => isDigit_of_mem_padded hc) (padded_ne_nil count n) hlength
    hrest (by rwa [ofDigitChars_padded])
  rwa [ofDigitChars_padded] at h

theorem skipWhiteSpace_padded (count n : Nat) (rest : List Char) :
    skipWhiteSpace (padded count n ++ rest) = padded count n ++ rest :=
  skipWhiteSpace_of_isDigit (fun _ => isDigit_of_mem_padded) (padded_ne_nil count n) rest

theorem field_padded {least greatest n : Nat} (hn : least ≤ n ∧ n ≤ greatest) (hlt : n < 100)
    (hrest : ∀ c ∈ rest.head?, c.isDigit = false) :
    field least greatest (padded 2 n ++ rest) = .ok (n, rest) := by
  have hlength : (padded 2 n).length = 2 := length_padded (by omega) hlt
  rw [field, skipWhiteSpace_padded, number_padded (by omega) hrest (by omega)]
  simp only [bind, Except.bind, hn, and_self, ↓reduceIte]

theorem fractionField_padded {k n : Nat} (hk : 0 < k) (hk' : k ≤ 9) (hn : n < 10 ^ k) :
    fractionField ('.' :: (padded k n ++ ['Z'])) = .ok (n * 10 ^ (9 - k), ['Z']) := by
  have hlength := length_padded hk hn
  have hvalue := ofDigitChars_padded k n
  have hds : (padded k n ++ ['Z']).takeWhile Char.isDigit = padded k n :=
    takeWhile_isDigit_append (fun c => isDigit_of_mem_padded) (by simp)
  obtain ⟨c, cs, hcons⟩ := List.exists_cons_of_ne_nil (padded_ne_nil k n)
  rw [hcons] at hlength hvalue hds ⊢
  have hkept : (c :: cs).take 9 = c :: cs := List.take_of_length_le (by omega)
  rw [List.cons_append] at hds ⊢
  simp only [fractionField, hds, hkept, hvalue, hlength]
  rw [← List.cons_append, ← hlength, List.drop_left]
  rfl

theorem fractionField_writeFraction {nanosecond : Nat} (h : nanosecond < 1000000000) :
    fractionField (writeFraction nanosecond ++ ['Z']) = .ok (nanosecond, ['Z']) := by
  unfold writeFraction
  split
  next hzero => rw [hzero]; rfl
  split
  next hmilli =>
    rw [List.cons_append, fractionField_padded (by omega) (by omega) (by omega)]
    congr 2
    omega
  split
  next hmicro =>
    rw [List.cons_append, fractionField_padded (by omega) (by omega) (by omega)]
    congr 2
    omega
  · rw [List.cons_append, fractionField_padded (by omega) (by omega) (by omega)]
    simp

theorem yearField_writeYear {year : Int} (h : -262143 ≤ year ∧ year ≤ 262142)
    (hrest : ∀ c ∈ rest.head?, c.isDigit = false) :
    yearField (writeYear year ++ rest) = .ok (year, rest) := by
  have hdigits {n : Nat} (hn : n < 10 ^ 9) :
      number (padded 4 n ++ rest).length (padded 4 n ++ rest) = .ok (n, rest) :=
    number_padded (by simp) hrest (by omega)
  unfold writeYear
  split
  next hyear =>
    have hlength : (padded 4 year.toNat).length = 4 := length_padded (by omega) (by omega)
    obtain ⟨c, cs, hcons⟩ := List.exists_cons_of_ne_nil (padded_ne_nil 4 year.toNat)
    have hc : c.isDigit = true :=
      isDigit_of_mem_padded (by rw [hcons]; exact List.mem_cons_self)
    have hnumber : number 4 (padded 4 year.toNat ++ rest) = .ok (year.toNat, rest) :=
      number_padded (by omega) hrest (by omega)
    have hvalue : ((year.toNat : Nat) : Int) = year := by omega
    unfold yearField
    rw [skipWhiteSpace_padded]
    rw [hcons, List.cons_append] at hnumber ⊢
    split
    next heq => exact absurd (List.cons.inj heq).1 (ne_of_isDigit hc rfl)
    next heq => exact absurd (List.cons.inj heq).1 (ne_of_isDigit hc rfl)
    next => simp only [hnumber, bind, Except.bind, hvalue]
  next hyear =>
    rw [List.cons_append]
    by_cases hneg : year < 0
    · have hsign : skipWhiteSpace ('-' :: (padded 4 year.natAbs ++ rest)) =
        '-' :: (padded 4 year.natAbs ++ rest) := rfl
      have hbound : year.natAbs ≤ 2147483648 := by omega
      have hvalue : -(year.natAbs : Int) = year := by omega
      simp only [hneg, ↓reduceIte, yearField, hsign, hdigits (show year.natAbs < 10 ^ 9 by omega),
        bind, Except.bind, hbound, hvalue]
    · have hsign : skipWhiteSpace ('+' :: (padded 4 year.natAbs ++ rest)) =
        '+' :: (padded 4 year.natAbs ++ rest) := rfl
      have hbound : year.natAbs < 2147483648 := by omega
      have hvalue : (year.natAbs : Int) = year := by omega
      simp only [hneg, ↓reduceIte, yearField, hsign, hdigits (show year.natAbs < 10 ^ 9 by omega),
        bind, Except.bind, hbound, hvalue]

end Parts

/-- A time of day that clocks without an offset show is the point in universal time. -/
theorem ofLocal_zero (t : Timestamp) :
    ofLocal t.date t.hour t.minute t.second t.nanosecond 0 = .ok t := by
  obtain ⟨date, hour, minute, second, nanosecond, hhour, hminute, hsecond, hnano⟩ := t
  have hday : (60 * hour + minute - 0 : Int) / 1440 = 0 := by omega
  have hminutes : ((60 * hour + minute - 0 : Int) % 1440).toNat = 60 * hour + minute := by omega
  have hh : (60 * hour + minute) / 60 = hour := by omega
  have hm : (60 * hour + minute) % 60 = minute := by omega
  unfold ofLocal
  simp only [hday, hminutes, shiftDate, ↓reduceIte, hh, hm]
  rw [dif_pos ⟨hsecond, hnano, by omega⟩]

theorem parse_toText (t : Timestamp) : parse t.toText = .ok t := by
  obtain ⟨hyear, hyear', hmonth, hmonth', hday, hday'⟩ := t.date.valid
  obtain ⟨hhour, hminute, hsecond, hnano⟩ := t.valid
  have hdays : daysInMonth t.date.year t.date.month ≤ 31 := by
    unfold daysInMonth
    repeat' split
    all_goals omega
  have htext : t.toText.toList = writeYear t.date.year ++ ('-' :: (padded 2 t.date.month ++
      ('-' :: (padded 2 t.date.day ++ ('T' :: (padded 2 t.hour ++ (':' :: (padded 2 t.minute ++
        (':' :: (padded 2 t.second ++ (writeFraction t.nanosecond ++ ['Z'])))))))))))  := by
    simp [toText]
  have hmark (c : Char) (hc : isWhiteSpace c = false) (s : List Char) :
      mark c (c :: s) = .ok s := by
    simp [mark, skipWhiteSpace, hc]
  have hfraction : ∀ c ∈ (writeFraction t.nanosecond ++ ['Z']).head?, c.isDigit = false := by
    unfold writeFraction
    repeat' split
    all_goals
      rintro c hc
      cases hc
      rfl
  have hoffset : offsetField ['Z'] = .ok (0, []) := rfl
  have hhead (d : Char) (hd : d.isDigit = false) (s : List Char) :
      ∀ c ∈ (d :: s).head?, c.isDigit = false := by
    rintro c hc
    cases hc
    exact hd
  have hmonthField (s : List Char) : field 1 12 (padded 2 t.date.month ++ '-' :: s) =
    .ok (t.date.month, '-' :: s) := field_padded ⟨hmonth, hmonth'⟩ (by omega) (hhead '-' rfl s)
  have hdayField (s : List Char) : field 1 31 (padded 2 t.date.day ++ 'T' :: s) =
    .ok (t.date.day, 'T' :: s) := field_padded ⟨hday, by omega⟩ (by omega) (hhead 'T' rfl s)
  have hhourField (s : List Char) : field 0 23 (padded 2 t.hour ++ ':' :: s) =
    .ok (t.hour, ':' :: s) := field_padded (by omega) (by omega) (hhead ':' rfl s)
  have hminuteField (s : List Char) : field 0 59 (padded 2 t.minute ++ ':' :: s) =
    .ok (t.minute, ':' :: s) := field_padded (by omega) (by omega) (hhead ':' rfl s)
  have hsecondField : field 0 60 (padded 2 t.second ++ (writeFraction t.nanosecond ++ ['Z'])) =
    .ok (t.second, _) := field_padded (by omega) (by omega) hfraction
  have hseparator (s : List Char) : separator ('T' :: s) = .ok s := rfl
  unfold parse
  rw [htext, yearField_writeYear ⟨hyear, hyear'⟩ (hhead '-' rfl _)]
  simp only [bind, Except.bind, hmark '-' rfl, hmark ':' rfl, hmonthField, hdayField, hseparator,
    hhourField, hminuteField, hsecondField, fractionField_writeFraction hnano, hoffset,
    Date.ofNumbers?_self, ofLocal_zero]
  rfl

end Ferry.Timestamp
