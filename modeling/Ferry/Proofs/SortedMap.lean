import Ferry.SortedMap

/-!
# Maps filled and emptied by lists

A map that is filled entry by entry answers as a scan of the entries from the
last to the first would. A map from which keys are erased one after another
answers as before for all other keys.
-/
namespace Ferry

namespace SortedMap

variable {κ α : Type} [Ord κ] [Std.TransOrd κ] [Std.LawfulEqOrd κ] [DecidableEq κ]

theorem get?_foldl_insert (entries : List (κ × α)) (m : SortedMap κ α) (k : κ) :
    (entries.foldl (fun m e => m.insert e.1 e.2) m).get? k =
      ((entries.reverse.find? fun e => e.1 = k).map Prod.snd).or (m.get? k) := by
  induction entries generalizing m with
  | nil => simp
  | cons e rest ih =>
    rw [List.foldl_cons, ih, get?_insert, List.reverse_cons, List.find?_append]
    by_cases h : e.1 = k
    · have hk : compare k e.1 = .eq := by rw [h]; exact Std.compare_self
      cases rest.reverse.find? fun e => e.1 = k <;> simp [h]
    · have hk : compare k e.1 ≠ .eq := fun hk => h (Std.LawfulEqOrd.eq_of_compare hk).symm
      cases rest.reverse.find? fun e => e.1 = k <;> simp [h, hk]

theorem get?_ofList (entries : List (κ × α)) (k : κ) :
    (ofList entries).get? k = (entries.reverse.find? fun e => e.1 = k).map Prod.snd := by
  simp [ofList, get?_foldl_insert]

omit [Std.TransOrd κ] in
theorem get?_foldl_erase (keys : List κ) (m : SortedMap κ α) (k : κ) :
    (keys.foldl erase m).get? k = if k ∈ keys then none else m.get? k := by
  induction keys generalizing m with
  | nil => simp
  | cons key keys ih =>
    rw [List.foldl_cons, ih]
    by_cases hkeys : k ∈ keys
    · simp [hkeys]
    · by_cases hkey : k = key
      · simp [hkey]
      · simp [hkeys, hkey, get?_erase_of_ne]

omit [Std.TransOrd κ] in
theorem entries_foldl_erase (keys : List κ) (m : SortedMap κ α) :
    (keys.foldl erase m).entries = m.entries.filter fun e => e.1 ∉ keys := by
  induction keys generalizing m with
  | nil => exact (List.filter_eq_self.mpr fun e _ => by simp).symm
  | cons key keys ih =>
    have herased : (m.erase key).entries = m.entries.filter fun e => e.1 ≠ key := by
      refine List.filter_congr fun e _ => decide_eq_decide.mpr (not_congr ?_)
      rw [Std.LawfulEqOrd.compare_eq_iff_eq]
      exact eq_comm
    rw [List.foldl_cons, ih, herased, List.filter_filter]
    apply List.filter_congr
    intro e _
    simp [Bool.and_comm]

omit [Std.TransOrd κ] [DecidableEq κ] in
theorem contains_erase_of_ne (m : SortedMap κ α) {k l : κ} (h : l ≠ k) :
    (m.erase k).contains l = m.contains l := by
  rw [contains, get?_erase_of_ne _ h, contains]

omit [Std.TransOrd κ] [Std.LawfulEqOrd κ] [DecidableEq κ] in
theorem contains_iff {m : SortedMap κ α} {k : κ} : m.contains k = true ↔ m.get? k ≠ none := by
  rw [contains, Option.isSome_iff_ne_none]

omit [Std.TransOrd κ] [Std.LawfulEqOrd κ] [DecidableEq κ] in
theorem contains_eq_false_iff {m : SortedMap κ α} {k : κ} :
    m.contains k = false ↔ m.get? k = none := by
  rw [contains, Option.isSome_eq_false_iff, Option.isNone_iff_eq_none]

omit [DecidableEq κ] in
theorem contains_insert_self (m : SortedMap κ α) (k : κ) (v : α) :
    (m.insert k v).contains k = true := by
  rw [contains, get?_insert_self, Option.isSome_some]

omit [DecidableEq κ] in
/-- Erasing takes back an insertion under a key that was free. -/
theorem erase_insert {m : SortedMap κ α} {k : κ} (h : m.get? k = none) (v : α) :
    (m.insert k v).erase k = m := by
  apply ext_get?
  intro l
  by_cases hkey : l = k
  · rw [hkey, get?_erase_self, h]
  · rw [get?_erase_of_ne _ hkey, get?_insert_of_ne _ _ hkey]

omit [Std.TransOrd κ] [DecidableEq κ] in
theorem mem_values_iff {m : SortedMap κ α} {v : α} : v ∈ m.values ↔ ∃ k, m.get? k = some v := by
  simp [values, get?_eq_some_iff]

omit [Std.LawfulEqOrd κ] [DecidableEq κ] in
theorem nodup_keys (m : SortedMap κ α) : m.keys.Nodup := by
  refine List.Pairwise.map Prod.fst ?_ m.increasing
  intro e e' hlt heq
  rw [heq, Std.compare_self] at hlt
  cases hlt

end SortedMap

end Ferry
