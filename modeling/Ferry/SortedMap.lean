/-!
# Maps sorted by key

A map is its list of entries in strictly increasing key order, so two maps with
the same entries are the same value and every traversal is in key order. The
lemmas describe `insert` and `erase` through the lookup `get?`, and say that
the lookup determines the map.
-/
namespace Ferry

section Entries

variable {κ α : Type} [Ord κ]

/-- Puts an entry at its place, taking the place of one with the same key. -/
def insertEntry (k : κ) (v : α) : List (κ × α) → List (κ × α)
  | [] => [(k, v)]
  | e :: rest =>
    match compare k e.1 with
    | .lt => (k, v) :: e :: rest
    | .eq => (k, v) :: rest
    | .gt => e :: insertEntry k v rest

/-- The value stored under a key. -/
def lookupEntry (k : κ) : List (κ × α) → Option α
  | [] => none
  | e :: rest => if compare k e.1 = .eq then some e.2 else lookupEntry k rest

/-- The entries under all other keys. -/
def eraseEntry (k : κ) (entries : List (κ × α)) : List (κ × α) :=
  entries.filter fun e => compare k e.1 ≠ .eq

/-- Keys increase strictly from one entry to the next. -/
def Increasing (entries : List (κ × α)) : Prop :=
  entries.Pairwise fun a b => compare a.1 b.1 = .lt

theorem mem_insertEntry {k : κ} {v : α} {e : κ × α} {entries : List (κ × α)}
    (h : e ∈ insertEntry k v entries) : e = (k, v) ∨ e ∈ entries := by
  induction entries with
  | nil => simpa [insertEntry] using h
  | cons head rest ih =>
    simp only [insertEntry] at h
    split at h
    · simpa using h
    · rcases List.mem_cons.1 h with h | h
      · exact .inl h
      · exact .inr (List.mem_cons_of_mem _ h)
    · rcases List.mem_cons.1 h with h | h
      · exact .inr (by simp [h])
      · rcases ih h with h | h
        · exact .inl h
        · exact .inr (List.mem_cons_of_mem _ h)

variable [Std.TransOrd κ] [Std.LawfulEqOrd κ]

theorem increasing_insertEntry {k : κ} {v : α} {entries : List (κ × α)}
    (h : Increasing entries) : Increasing (insertEntry k v entries) := by
  induction entries with
  | nil => simp [Increasing, insertEntry]
  | cons head rest ih =>
    have hhead := (List.pairwise_cons.1 h).1
    have hrest := (List.pairwise_cons.1 h).2
    simp only [insertEntry]
    split
    next hlt =>
      refine List.pairwise_cons.2 ⟨fun e he => ?_, h⟩
      rcases List.mem_cons.1 he with rfl | he
      · exact hlt
      · exact Std.TransCmp.lt_trans hlt (hhead e he)
    next heq =>
      rw [Std.LawfulEqOrd.eq_of_compare heq]
      exact List.pairwise_cons.2 ⟨hhead, hrest⟩
    next hgt =>
      refine List.pairwise_cons.2 ⟨fun e he => ?_, ih hrest⟩
      rcases mem_insertEntry he with rfl | he
      · exact Std.OrientedCmp.gt_iff_lt.1 hgt
      · exact hhead e he

omit [Std.TransOrd κ] [Std.LawfulEqOrd κ] in
theorem increasing_eraseEntry {k : κ} {entries : List (κ × α)} (h : Increasing entries) :
    Increasing (eraseEntry k entries) :=
  List.Pairwise.sublist List.filter_sublist h

omit [Std.TransOrd κ] [Std.LawfulEqOrd κ] in
theorem lookupEntry_eq_none {k : κ} {entries : List (κ × α)}
    (h : ∀ e ∈ entries, compare k e.1 ≠ .eq) : lookupEntry k entries = none := by
  induction entries with
  | nil => rfl
  | cons head rest ih =>
    simp [lookupEntry, h head (by simp), ih fun e he => h e (List.mem_cons_of_mem _ he)]

omit [Std.TransOrd κ] in
theorem lookupEntry_insertEntry (k l : κ) (v : α) (entries : List (κ × α)) :
    lookupEntry l (insertEntry k v entries) =
      if compare l k = .eq then some v else lookupEntry l entries := by
  induction entries with
  | nil => simp [insertEntry, lookupEntry]
  | cons head rest ih =>
    simp only [insertEntry]
    split
    next => simp [lookupEntry]
    next heq =>
      by_cases hl : compare l k = .eq <;>
        simp [lookupEntry, ← Std.LawfulEqOrd.eq_of_compare heq, hl]
    next hgt =>
      simp only [lookupEntry, ih]
      by_cases hl : compare l k = .eq
      · have : compare l head.1 ≠ .eq := by
          rw [Std.LawfulEqOrd.eq_of_compare hl, hgt]
          decide
        simp [hl, this]
      · simp [hl]

omit [Std.TransOrd κ] in
theorem lookupEntry_eraseEntry (k l : κ) (entries : List (κ × α)) :
    lookupEntry l (eraseEntry k entries) =
      if compare l k = .eq then none else lookupEntry l entries := by
  induction entries with
  | nil => simp [eraseEntry, lookupEntry]
  | cons head rest ih =>
    have ih' : lookupEntry l (List.filter (fun e => compare k e.1 ≠ .eq) rest) =
        if compare l k = .eq then none else lookupEntry l rest := ih
    by_cases hk : compare k head.1 = .eq
    · simp only [eraseEntry, List.filter_cons, hk, ne_eq, not_true_eq_false, decide_false,
        Bool.false_eq_true, ↓reduceIte, lookupEntry, ih']
      rw [← Std.LawfulEqOrd.eq_of_compare hk]
      by_cases hl : compare l k = .eq <;> simp [hl]
    · simp only [eraseEntry, List.filter_cons, hk, ne_eq, not_false_eq_true, decide_true,
        ↓reduceIte, lookupEntry, ih']
      by_cases hl : compare l k = .eq
      · have : compare l head.1 ≠ .eq := by rwa [Std.LawfulEqOrd.eq_of_compare hl]
        simp [hl, this]
      · simp [hl]

omit [Std.TransOrd κ] in
theorem lookupEntry_eq_some_iff {k : κ} {v : α} {entries : List (κ × α)}
    (h : Increasing entries) : lookupEntry k entries = some v ↔ (k, v) ∈ entries := by
  induction entries with
  | nil => simp [lookupEntry]
  | cons head rest ih =>
    have hhead := (List.pairwise_cons.1 h).1
    have hrest := (List.pairwise_cons.1 h).2
    by_cases hk : compare k head.1 = .eq
    · have hk' := Std.LawfulEqOrd.eq_of_compare hk
      have hnot : (k, v) ∉ rest := fun hmem => by
        have := hhead _ hmem
        rw [← hk', Std.compare_self] at this
        cases this
      simp only [lookupEntry, hk, ↓reduceIte, Option.some.injEq, List.mem_cons, hnot, or_false]
      constructor
      · rintro rfl
        exact Prod.ext hk' rfl
      · rintro rfl
        rfl
    · have hne : (k, v) ≠ head := fun e => hk (by rw [← e]; exact Std.compare_self)
      simp [lookupEntry, hk, ih hrest, hne]

/-- Two increasing lists with the same lookups are the same list. -/
theorem eq_of_lookupEntry_eq {xs ys : List (κ × α)} (hx : Increasing xs) (hy : Increasing ys)
    (h : ∀ k, lookupEntry k xs = lookupEntry k ys) : xs = ys := by
  have hmem : ∀ e, e ∈ xs ↔ e ∈ ys := fun e => by
    rw [← lookupEntry_eq_some_iff (k := e.1) (v := e.2) hx, h,
      lookupEntry_eq_some_iff (k := e.1) (v := e.2) hy]
  clear h
  induction xs generalizing ys with
  | nil =>
    cases ys with
    | nil => rfl
    | cons b ys => exact absurd ((hmem b).2 (by simp)) (by simp)
  | cons a xs ih =>
    cases ys with
    | nil => exact absurd ((hmem a).1 (by simp)) (by simp)
    | cons b ys =>
      have hx' := List.pairwise_cons.1 hx
      have hy' := List.pairwise_cons.1 hy
      have hnot : ∀ {c d : κ × α}, compare c.1 d.1 = .lt → compare d.1 c.1 = .lt → False := by
        intro c d hcd hdc
        have hcc := Std.TransCmp.lt_trans hcd hdc
        rw [Std.compare_self] at hcc
        cases hcc
      have hab : a = b := by
        rcases List.mem_cons.1 ((hmem a).1 (by simp)) with e | ha
        · exact e
        · rcases List.mem_cons.1 ((hmem b).2 (by simp)) with e | hb
          · exact e.symm
          · exact (hnot (hx'.1 b hb) (hy'.1 a ha)).elim
      subst hab
      have hself : compare a.1 a.1 ≠ .lt := by
        rw [Std.compare_self]
        decide
      have htail : xs = ys := by
        refine ih hx'.2 hy'.2 fun e => ⟨fun he => ?_, fun he => ?_⟩
        · rcases List.mem_cons.1 ((hmem e).1 (List.mem_cons_of_mem _ he)) with rfl | h
          · exact absurd (hx'.1 _ he) hself
          · exact h
        · rcases List.mem_cons.1 ((hmem e).2 (List.mem_cons_of_mem _ he)) with rfl | h
          · exact absurd (hy'.1 _ he) hself
          · exact h
      rw [htail]

end Entries

/-- Entries in strictly increasing key order. -/
structure SortedMap (κ α : Type) [Ord κ] where
  entries : List (κ × α)
  increasing : Increasing entries

namespace SortedMap

variable {κ α : Type} [Ord κ]

instance [DecidableEq κ] [DecidableEq α] : DecidableEq (SortedMap κ α) := fun a b =>
  decidable_of_iff (a.entries = b.entries) (by cases a; cases b; simp)

/-- The map without entries. -/
def empty : SortedMap κ α := ⟨[], List.Pairwise.nil⟩

instance : Inhabited (SortedMap κ α) := ⟨empty⟩

def isEmpty (m : SortedMap κ α) : Bool := m.entries.isEmpty

def size (m : SortedMap κ α) : Nat := m.entries.length

def keys (m : SortedMap κ α) : List κ := m.entries.map Prod.fst

def values (m : SortedMap κ α) : List α := m.entries.map Prod.snd

def get? (m : SortedMap κ α) (k : κ) : Option α := lookupEntry k m.entries

def contains (m : SortedMap κ α) (k : κ) : Bool := (m.get? k).isSome

variable [Std.TransOrd κ] [Std.LawfulEqOrd κ]

/-- Stores a value under a key; a value already there gives way. -/
def insert (m : SortedMap κ α) (k : κ) (v : α) : SortedMap κ α :=
  ⟨insertEntry k v m.entries, increasing_insertEntry m.increasing⟩

def erase (m : SortedMap κ α) (k : κ) : SortedMap κ α :=
  ⟨eraseEntry k m.entries, increasing_eraseEntry m.increasing⟩

/-- Inserts the entries in turn, so that of two with one key the later stays. -/
def ofList (entries : List (κ × α)) : SortedMap κ α :=
  entries.foldl (fun m e => m.insert e.1 e.2) empty

omit [Std.TransOrd κ] [Std.LawfulEqOrd κ] in
@[simp]
theorem get?_empty (k : κ) : (empty : SortedMap κ α).get? k = none := rfl

theorem get?_insert (m : SortedMap κ α) (k l : κ) (v : α) :
    (m.insert k v).get? l = if compare l k = .eq then some v else m.get? l :=
  lookupEntry_insertEntry k l v m.entries

@[simp]
theorem get?_insert_self (m : SortedMap κ α) (k : κ) (v : α) :
    (m.insert k v).get? k = some v := by
  simp [get?_insert]

theorem get?_insert_of_ne (m : SortedMap κ α) {k l : κ} (v : α) (h : l ≠ k) :
    (m.insert k v).get? l = m.get? l := by
  rw [get?_insert, if_neg fun e => h (Std.LawfulEqOrd.eq_of_compare e)]

omit [Std.TransOrd κ] in
theorem get?_erase (m : SortedMap κ α) (k l : κ) :
    (m.erase k).get? l = if compare l k = .eq then none else m.get? l :=
  lookupEntry_eraseEntry k l m.entries

omit [Std.TransOrd κ] in
@[simp]
theorem get?_erase_self (m : SortedMap κ α) (k : κ) : (m.erase k).get? k = none := by
  simp [get?_erase]

omit [Std.TransOrd κ] in
theorem get?_erase_of_ne (m : SortedMap κ α) {k l : κ} (h : l ≠ k) :
    (m.erase k).get? l = m.get? l := by
  rw [get?_erase, if_neg fun e => h (Std.LawfulEqOrd.eq_of_compare e)]

omit [Std.TransOrd κ] in
theorem get?_eq_some_iff (m : SortedMap κ α) {k : κ} {v : α} :
    m.get? k = some v ↔ (k, v) ∈ m.entries :=
  lookupEntry_eq_some_iff m.increasing

/-- The lookup determines the map. -/
theorem ext_get? {m n : SortedMap κ α} (h : ∀ k, m.get? k = n.get? k) : m = n := by
  cases m
  cases n
  congr
  exact eq_of_lookupEntry_eq (by assumption) (by assumption) h

end SortedMap

end Ferry
