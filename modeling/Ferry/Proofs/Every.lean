import Ferry.Json

/-!
# Properties of all parts of a value

`Every P` says that a value and all values in it have a property. Bringing a value
into normal form keeps such a property, if it is not about the fields of objects or
the items of arrays.
-/
namespace Ferry.Json

mutual

def Every (P : Json → Prop) : Json → Prop
  | arr items => P (arr items) ∧ EveryItem P items
  | obj fields => P (obj fields) ∧ EveryField P fields
  | null => P null
  | bool b => P (bool b)
  | int n => P (int n)
  | float x => P (float x)
  | str s => P (str s)

def EveryItem (P : Json → Prop) : List Json → Prop
  | [] => True
  | v :: items => Every P v ∧ EveryItem P items

def EveryField (P : Json → Prop) : List (String × Json) → Prop
  | [] => True
  | (_, v) :: fields => Every P v ∧ EveryField P fields

end

section

variable {P Q : Json → Prop} {items : List Json} {fields : List (String × Json)}

mutual

def decidableEvery (P : Json → Prop) [DecidablePred P] : (v : Json) → Decidable (v.Every P)
  | null => inferInstanceAs (Decidable (P null))
  | bool b => inferInstanceAs (Decidable (P (bool b)))
  | int n => inferInstanceAs (Decidable (P (int n)))
  | float x => inferInstanceAs (Decidable (P (float x)))
  | str s => inferInstanceAs (Decidable (P (str s)))
  | arr items =>
    have := decidableEveryItem P items
    inferInstanceAs (Decidable (P (arr items) ∧ EveryItem P items))
  | obj fields =>
    have := decidableEveryField P fields
    inferInstanceAs (Decidable (P (obj fields) ∧ EveryField P fields))

def decidableEveryItem (P : Json → Prop) [DecidablePred P] :
    (items : List Json) → Decidable (EveryItem P items)
  | [] => inferInstanceAs (Decidable True)
  | v :: items =>
    have := decidableEvery P v
    have := decidableEveryItem P items
    inferInstanceAs (Decidable (v.Every P ∧ EveryItem P items))

def decidableEveryField (P : Json → Prop) [DecidablePred P] :
    (fields : List (String × Json)) → Decidable (EveryField P fields)
  | [] => inferInstanceAs (Decidable True)
  | (_, v) :: fields =>
    have := decidableEvery P v
    have := decidableEveryField P fields
    inferInstanceAs (Decidable (v.Every P ∧ EveryField P fields))

end

instance [DecidablePred P] : DecidablePred (Every P) := decidableEvery P

theorem everyItem_iff : EveryItem P items ↔ ∀ v ∈ items, v.Every P := by
  induction items with
  | nil => simp [EveryItem]
  | cons v items ih => rw [EveryItem, ih, List.forall_mem_cons]

theorem everyField_iff : EveryField P fields ↔ ∀ f ∈ fields, f.2.Every P := by
  induction fields with
  | nil => simp [EveryField]
  | cons f fields ih => rw [EveryField, ih, List.forall_mem_cons]

mutual

theorem every_and : ∀ {v : Json}, v.Every (fun w => P w ∧ Q w) ↔ v.Every P ∧ v.Every Q
  | null | bool _ | int _ | float _ | str _ => Iff.rfl
  | arr items => by
    rw [Every, Every, Every, everyItem_and]
    exact and_and_and_comm
  | obj fields => by
    rw [Every, Every, Every, everyField_and]
    exact and_and_and_comm

theorem everyItem_and : ∀ {items : List Json},
    EveryItem (fun w => P w ∧ Q w) items ↔ EveryItem P items ∧ EveryItem Q items
  | [] => (and_self_iff (a := True)).symm
  | v :: items => by
    rw [EveryItem, EveryItem, EveryItem, every_and, everyItem_and]
    exact and_and_and_comm

theorem everyField_and : ∀ {fields : List (String × Json)},
    EveryField (fun w => P w ∧ Q w) fields ↔ EveryField P fields ∧ EveryField Q fields
  | [] => (and_self_iff (a := True)).symm
  | (_, v) :: fields => by
    rw [EveryField, EveryField, EveryField, every_and, everyField_and]
    exact and_and_and_comm

end

theorem every_arr (harr : ∀ items, P (arr items)) :
    (arr items).Every P ↔ ∀ v ∈ items, v.Every P := by
  rw [Every, everyItem_iff, and_iff_right (harr items)]

theorem Every.imp (h : ∀ v, P v → Q v) {v : Json} (hv : v.Every P) : v.Every Q := by
  have hboth : P = fun v => P v ∧ Q v := funext fun v => propext ⟨fun hp => ⟨hp, h v hp⟩, And.left⟩
  rw [hboth, every_and] at hv
  exact hv.2

/-- A property that texts, arrays and objects have, whatever is in them. -/
structure Structural (P : Json → Prop) : Prop where
  str : ∀ s, P (str s)
  arr : ∀ items, P (arr items)
  obj : ∀ fields, P (obj fields)

theorem Structural.every_arr (hP : Structural P) :
    (Json.arr items).Every P ↔ ∀ v ∈ items, v.Every P :=
  Json.every_arr hP.arr

theorem Structural.every_obj (hP : Structural P) :
    (Json.obj fields).Every P ↔ EveryField P fields := by
  rw [Every, and_iff_right (hP.obj fields)]

theorem everyField_insertEntry {k : String} {v : Json} (hv : v.Every P) :
    ∀ {fields : List (String × Json)}, EveryField P fields → EveryField P (insertEntry k v fields)
  | [], _ => ⟨hv, trivial⟩
  | (l, w) :: rest, h => by
    simp only [insertEntry]
    split
    · exact ⟨hv, h⟩
    · exact ⟨hv, h.2⟩
    · exact ⟨h.1, everyField_insertEntry hv h.2⟩

mutual

theorem Every.normalize (hP : Structural P) : ∀ {v : Json}, v.Every P → v.normalize.Every P
  | null, h | bool _, h | int _, h | float _, h | str _, h => h
  | arr items, h => by
    rw [Json.normalize]
    exact ⟨hP.arr _, EveryItem.normalizeItems hP h.2⟩
  | obj fields, h => by
    rw [Json.normalize]
    exact ⟨hP.obj _, EveryField.normalizeFields hP h.2⟩

theorem EveryItem.normalizeItems (hP : Structural P) : ∀ {items : List Json},
    EveryItem P items → EveryItem P (Json.normalizeItems items)
  | [], _ => trivial
  | v :: items, h => by
    rw [Json.normalizeItems]
    exact ⟨Every.normalize hP h.1, EveryItem.normalizeItems hP h.2⟩

theorem EveryField.normalizeFields (hP : Structural P) : ∀ {fields : List (String × Json)},
    EveryField P fields → EveryField P (Json.normalizeFields fields)
  | [], _ => trivial
  | (k, v) :: fields, h => by
    have hrest := EveryField.normalizeFields hP h.2
    simp only [Json.normalizeFields]
    split
    · exact hrest
    · exact everyField_insertEntry (Every.normalize hP h.1) hrest

end

end

end Ferry.Json
