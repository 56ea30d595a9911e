import Ferry.Proofs.Toml.Document

/-!
# What can be written and read back

An object is read back from its text if all its parts have a TOML form, the names
in each object differ, and nothing is nested too deep. The last two conditions are
put together from the parts of an object, as an encoding puts the object together.
-/
namespace Ferry

open Toml (maxKeyParts maxNesting hasHeaders writeError? writeErrorItems? writeErrorFields?)

namespace Json

/-- A field whose path has so many keys can be written and read back. -/
structure WritableAt (keys : Nat) (v : Json) : Prop where
  names : v.Every DistinctNames
  fits : v.fits keys = true

structure WritableFields (keys : Nat) (fields : List (String × Json)) : Prop where
  names : EveryField DistinctNames fields
  fits : fitsFields keys fields = true

section Fields

variable {keys : Nat} {fields : List (String × Json)}

theorem WritableFields.nil : WritableFields keys [] := ⟨trivial, rfl⟩

theorem WritableFields.cons {name : String} {v : Json} (hv : v.WritableAt keys)
    (h : WritableFields keys fields) : WritableFields keys ((name, v) :: fields) :=
  ⟨⟨hv.names, h.names⟩, by rw [fitsFields, hv.fits, h.fits]; rfl⟩

inductive WritableTable (keys : Nat) : Json → Prop where
  | intro {fields : List (String × Json)} (names : (fields.map Prod.fst).Nodup)
    (writable : WritableFields keys fields) : WritableTable keys (obj fields)

theorem WritableTable.distinctNames {v : Json} (h : WritableTable keys v) :
    v.Every DistinctNames := by
  cases h with
  | intro hnames h => exact ⟨hnames, h.names⟩

/-- A table has so few keys in its path that its header may be written. -/
theorem WritableTable.writableAt {v : Json} (hkeys : keys ≤ maxKeyParts)
    (h : WritableTable (keys + 1) v) : v.WritableAt keys := by
  refine ⟨h.distinctNames, ?_⟩
  cases h with
  | intro _ h =>
    rw [Json.fits, h.fits, Bool.and_true, decide_eq_true_eq]
    exact hkeys

end Fields

theorem writableAt_str (keys : Nat) (s : String) : (str s).WritableAt keys :=
  ⟨trivial, rfl⟩

theorem writableAt_strs (keys : Nat) (names : List String) :
    (arr (names.map str)).WritableAt keys := by
  refine ⟨⟨trivial, everyItem_iff.mpr (List.forall_mem_map.mpr fun _ _ => trivial)⟩, ?_⟩
  have hplain : hasHeaders (arr (names.map str)) = false := by
    cases names <;> simp [hasHeaders, Toml.isTable]
  have hnesting : nestingItems (names.map str) = 0 := by
    clear hplain
    induction names with
    | nil => rfl
    | cons s names ih => simp [nestingItems, nesting, ih]
  rw [Json.fits, hplain, nesting, hnesting]
  rfl

/-- An array of nothing but tables, whose fields have paths with one key more. -/
theorem writableAt_tables {keys : Nat} {items : List Json} (hkeys : keys ≤ maxKeyParts)
    (h : ∀ v ∈ items, WritableTable (keys + 1) v) : (arr items).WritableAt keys := by
  refine ⟨⟨trivial, everyItem_iff.mpr fun v hv => (h v hv).distinctNames⟩, ?_⟩
  have hfits : fitsElements (keys + 1) items = true := by
    induction items with
    | nil => rfl
    | cons v items ih =>
      cases h v List.mem_cons_self with
      | intro _ hfields =>
        rw [fitsElements, hfields.fits, ih fun v hv => h v (List.mem_cons_of_mem _ hv)]
        rfl
  have htables : items.all Toml.isTable = true := by
    refine List.all_eq_true.mpr fun v hv => ?_
    cases h v hv
    rfl
  rw [Json.fits]
  split
  next => rw [hfits, Bool.and_true, decide_eq_true_eq]; exact hkeys
  next hplain =>
    cases items with
    | nil => rfl
    | cons v items => simp [hasHeaders, htables] at hplain

/-! ### Payloads -/

theorem nodup_of_increasing {fields : List (String × Json)} (h : Increasing fields) :
    (fields.map Prod.fst).Nodup := by
  refine List.Pairwise.map Prod.fst ?_ h
  intro f g hlt heq
  rw [heq, Std.compare_self] at hlt
  cases hlt

mutual

theorem Normal.distinctNames : ∀ {v : Json}, v.Normal → v.Every DistinctNames
  | null, _ | bool _, _ | int _, _ | float _, _ | str _, _ => trivial
  | arr items, h => by
    rw [Normal] at h
    exact ⟨trivial, NormalItems.distinctNames h⟩
  | obj fields, h => by
    rw [Normal] at h
    exact ⟨nodup_of_increasing h.1, NormalFields.distinctNames h.2⟩

theorem NormalItems.distinctNames : ∀ {items : List Json}, NormalItems items →
    EveryItem DistinctNames items
  | [], _ => trivial
  | v :: items, h => by
    rw [NormalItems] at h
    exact ⟨Normal.distinctNames h.1, NormalItems.distinctNames h.2⟩

theorem NormalFields.distinctNames : ∀ {fields : List (String × Json)}, NormalFields fields →
    EveryField DistinctNames fields
  | [], _ => trivial
  | (_, v) :: fields, h => by
    rw [NormalFields] at h
    exact ⟨Normal.distinctNames h.1, NormalFields.distinctNames h.2⟩

end

/-! ### Faults -/

/-- What can be written, apart from what it contains: no null, and no integer of more than 64 bits.
What TOML has a form for is bounded from below as well. -/
def HasText : Json → Prop
  | null => False
  | int n => n < Toml.int64Bound
  | bool _ | float _ | str _ | arr _ | obj _ => True

/-- An integer has 64 bits; of other values nothing is asked. -/
def FitsInt64 : Json → Prop
  | int n => -Toml.int64Bound ≤ n ∧ n < Toml.int64Bound
  | null | bool _ | float _ | str _ | arr _ | obj _ => True

def AboveInt64 : Json → Prop
  | int n => -Toml.int64Bound ≤ n
  | null | bool _ | float _ | str _ | arr _ | obj _ => True

instance : DecidablePred AboveInt64
  | int n => inferInstanceAs (Decidable (-Toml.int64Bound ≤ n))
  | null | bool _ | float _ | str _ | arr _ | obj _ => inferInstanceAs (Decidable True)

def IntsFit : Json → Prop := Every FitsInt64

def NoNull : Json → Prop := Every (· ≠ null)

theorem structural_hasText : Structural HasText :=
  ⟨fun _ => trivial, fun _ => trivial, fun _ => trivial⟩

theorem structural_fitsInt64 : Structural FitsInt64 :=
  ⟨fun _ => trivial, fun _ => trivial, fun _ => trivial⟩

theorem structural_hasToml : Structural HasToml :=
  ⟨fun _ => trivial, fun _ => trivial, fun _ => trivial⟩

theorem storable_iff_above {v : Json} : v.Storable ↔ v.Every HasText ∧ v.Every AboveInt64 := by
  have h : HasToml = fun v => HasText v ∧ AboveInt64 v := by
    funext v
    cases v <;> simp [HasToml, HasText, AboveInt64, and_comm]
  rw [Storable, h, every_and]

theorem storable_iff_fits {v : Json} : v.Storable ↔ v.NoNull ∧ v.IntsFit := by
  have h : HasToml = fun v => v ≠ null ∧ FitsInt64 v := by
    funext v
    cases v <;> simp [HasToml, FitsInt64]
  rw [Storable, h, every_and]
  rfl

theorem noNull_of_hasText {v : Json} (h : v.Every HasText) : v.NoNull :=
  h.imp fun v hv hnull => by
    rw [hnull] at hv
    exact hv

theorem IntsFit.above {v : Json} (h : v.IntsFit) : v.Every AboveInt64 :=
  h.imp fun v hv => by
    cases v with
    | int n => exact hv.1
    | _ => trivial

mutual

theorem writeError?_eq_none_iff : ∀ {v : Json}, writeError? v = none ↔ v.Every HasText
  | null => by simp [writeError?, Every, HasText]
  | int n => by simp [writeError?, Every, HasText]
  | bool _ | float _ | str _ => by simp [writeError?, Every, HasText]
  | arr items => by rw [writeError?, writeErrorItems?_eq_none_iff, structural_hasText.every_arr,
      everyItem_iff]
  | obj fields => by rw [writeError?, writeErrorFields?_eq_none_iff, structural_hasText.every_obj]

theorem writeErrorItems?_eq_none_iff : ∀ {items : List Json},
    writeErrorItems? items = none ↔ EveryItem HasText items
  | [] => by simp [writeErrorItems?, EveryItem]
  | v :: items => by
    rw [writeErrorItems?, Option.or_eq_none_iff, writeError?_eq_none_iff,
      writeErrorItems?_eq_none_iff, EveryItem]

theorem writeErrorFields?_eq_none_iff : ∀ {fields : List (String × Json)},
    writeErrorFields? fields = none ↔ EveryField HasText fields
  | [] => by simp [writeErrorFields?, EveryField]
  | (_, v) :: fields => by
    rw [writeErrorFields?, Option.or_eq_none_iff, writeError?_eq_none_iff,
      writeErrorFields?_eq_none_iff, EveryField]

end

mutual

theorem writeError?_ne_tooLarge : ∀ {v : Json}, v.Every FitsInt64 →
    writeError? v ≠ some .tooLarge
  | null, _ => by simp [writeError?]
  | int n, h => by simp [writeError?, Int.not_le.mpr h.2]
  | bool _, _ | float _, _ | str _, _ => by simp [writeError?]
  | arr items, h => by
    rw [writeError?]
    exact writeErrorItems?_ne_tooLarge h.2
  | obj fields, h => by
    rw [writeError?]
    exact writeErrorFields?_ne_tooLarge h.2

theorem writeErrorItems?_ne_tooLarge : ∀ {items : List Json}, EveryItem FitsInt64 items →
    writeErrorItems? items ≠ some .tooLarge
  | [], _ => by simp [writeErrorItems?]
  | v :: items, h => by
    rw [writeErrorItems?, ne_eq, Option.or_eq_some_iff, not_or, not_and]
    exact ⟨writeError?_ne_tooLarge h.1, fun _ => writeErrorItems?_ne_tooLarge h.2⟩

theorem writeErrorFields?_ne_tooLarge : ∀ {fields : List (String × Json)},
    EveryField FitsInt64 fields → writeErrorFields? fields ≠ some .tooLarge
  | [], _ => by simp [writeErrorFields?]
  | (_, v) :: fields, h => by
    rw [writeErrorFields?, ne_eq, Option.or_eq_some_iff, not_or, not_and]
    exact ⟨writeError?_ne_tooLarge h.1, fun _ => writeErrorFields?_ne_tooLarge h.2⟩

end

/-! ### Nesting -/

mutual

/-- A value that does not nest too deep in all fits. -/
theorem fits_of_nesting : ∀ (v : Json) {keys : Nat}, 1 ≤ keys →
    keys + v.nesting ≤ maxKeyParts + 1 → v.fits keys = true
  | null, _, _, _ | bool _, _, _, _ | int _, _, _, _ | float _, _, _, _ | str _, _, _, _ => rfl
  | arr items, keys, hkeys, h => by
    rw [nesting] at h
    rw [fits]
    split
    next hheaders =>
      rw [Bool.and_eq_true, decide_eq_true_eq]
      refine ⟨by omega, fitsElements_of_nesting items (by omega) (by omega)⟩
    next =>
      rw [decide_eq_true_eq, nesting]
      unfold maxKeyParts at h
      unfold maxNesting
      omega
  | obj fields, keys, hkeys, h => by
    rw [nesting] at h
    rw [fits, Bool.and_eq_true, decide_eq_true_eq]
    exact ⟨by omega, fitsFields_of_nesting fields (by omega) (by omega)⟩

theorem fitsElements_of_nesting : ∀ (items : List Json) {keys : Nat}, 1 ≤ keys →
    keys + nestingItems items ≤ maxKeyParts + 1 + 1 → fitsElements keys items = true
  | [], _, _, _ => rfl
  | obj fields :: items, keys, hkeys, h => by
    rw [nestingItems, nesting] at h
    rw [fitsElements, Bool.and_eq_true]
    exact ⟨fitsFields_of_nesting fields hkeys (by omega),
      fitsElements_of_nesting items hkeys (by omega)⟩
  | arr _ :: items, keys, hkeys, h | null :: items, keys, hkeys, h | bool _ :: items, keys, hkeys, h
  | int _ :: items, keys, hkeys, h | float _ :: items, keys, hkeys, h
  | str _ :: items, keys, hkeys, h => by
    rw [nestingItems] at h
    rw [fitsElements]
    exact fitsElements_of_nesting items hkeys (by omega)

theorem fitsFields_of_nesting : ∀ (fields : List (String × Json)) {keys : Nat}, 1 ≤ keys →
    keys + nestingFields fields ≤ maxKeyParts + 1 → fitsFields keys fields = true
  | [], _, _, _ => rfl
  | (_, v) :: fields, keys, hkeys, h => by
    rw [nestingFields] at h
    rw [fitsFields, Bool.and_eq_true]
    exact ⟨fits_of_nesting v hkeys (by omega), fitsFields_of_nesting fields hkeys (by omega)⟩

end

/-! ### Shorter paths -/

mutual

theorem fits_of_le : ∀ {v : Json} {keys keys' : Nat}, keys ≤ keys' → v.fits keys' = true →
    v.fits keys = true
  | null, _, _, _, _ | bool _, _, _, _, _ | int _, _, _, _, _ | float _, _, _, _, _
  | str _, _, _, _, _ => rfl
  | arr items, keys, keys', hle, h => by
    rw [fits] at h ⊢
    split at h
    next hheaders =>
      rw [Bool.and_eq_true, decide_eq_true_eq] at h
      rw [if_pos hheaders, Bool.and_eq_true, decide_eq_true_eq]
      exact ⟨Nat.le_trans hle h.1, fitsElements_of_le (Nat.succ_le_succ hle) h.2⟩
    next hplain =>
      rw [if_neg hplain]
      exact h
  | obj fields, keys, keys', hle, h => by
    rw [fits, Bool.and_eq_true, decide_eq_true_eq] at h ⊢
    exact ⟨Nat.le_trans hle h.1, fitsFields_of_le (Nat.succ_le_succ hle) h.2⟩

theorem fitsElements_of_le : ∀ {items : List Json} {keys keys' : Nat}, keys ≤ keys' →
    fitsElements keys' items = true → fitsElements keys items = true
  | [], _, _, _, _ => rfl
  | obj fields :: items, keys, keys', hle, h => by
    rw [fitsElements, Bool.and_eq_true] at h ⊢
    exact ⟨fitsFields_of_le hle h.1, fitsElements_of_le hle h.2⟩
  | arr _ :: items, keys, keys', hle, h | null :: items, keys, keys', hle, h
  | bool _ :: items, keys, keys', hle, h | int _ :: items, keys, keys', hle, h
  | float _ :: items, keys, keys', hle, h | str _ :: items, keys, keys', hle, h => by
    rw [fitsElements] at h ⊢
    exact fitsElements_of_le hle h

theorem fitsFields_of_le : ∀ {fields : List (String × Json)} {keys keys' : Nat}, keys ≤ keys' →
    fitsFields keys' fields = true → fitsFields keys fields = true
  | [], _, _, _, _ => rfl
  | (_, v) :: fields, keys, keys', hle, h => by
    rw [fitsFields, Bool.and_eq_true] at h ⊢
    exact ⟨fits_of_le hle h.1, fitsFields_of_le hle h.2⟩

end

end Json

end Ferry
