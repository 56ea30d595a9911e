import Ferry.Binary64
import Ferry.SortedMap

/-!
# Untyped values

The payloads that a deployable carries without looking inside. Objects hold
their fields in key order without repeats; `normalize` brings any tree of
fields into that form, and `Payload` is a value known to be in it, so that two
payloads that mean the same are equal.
-/
namespace Ferry

/-- A value of the JSON data model, with integers kept apart from other numbers. -/
inductive Json where
  | null
  | bool (b : Bool)
  | int (n : Int)
  | float (x : Binary64)
  | str (s : String)
  | arr (items : List Json)
  | obj (fields : List (String × Json))

namespace Json

instance : Inhabited Json := ⟨null⟩

mutual

/-- Equality of trees is decided constructor by constructor. -/
def decEq : (a b : Json) → Decidable (a = b)
  | null, null => isTrue rfl
  | bool x, bool y => if h : x = y then isTrue (h ▸ rfl) else isFalse fun e => h (by injection e)
  | int x, int y => if h : x = y then isTrue (h ▸ rfl) else isFalse fun e => h (by injection e)
  | float x, float y =>
    if h : x = y then isTrue (h ▸ rfl) else isFalse fun e => h (by injection e)
  | str x, str y => if h : x = y then isTrue (h ▸ rfl) else isFalse fun e => h (by injection e)
  | arr xs, arr ys =>
    match decEqItems xs ys with
    | isTrue h => isTrue (h ▸ rfl)
    | isFalse h => isFalse fun e => h (by injection e)
  | obj xs, obj ys =>
    match decEqFields xs ys with
    | isTrue h => isTrue (h ▸ rfl)
    | isFalse h => isFalse fun e => h (by injection e)
  | null, bool _ | null, int _ | null, float _ | null, str _ | null, arr _ | null, obj _
  | bool _, null | bool _, int _ | bool _, float _ | bool _, str _ | bool _, arr _ | bool _, obj _
  | int _, null | int _, bool _ | int _, float _ | int _, str _ | int _, arr _ | int _, obj _
  | float _, null | float _, bool _ | float _, int _ | float _, str _ | float _, arr _
  | float _, obj _
  | str _, null | str _, bool _ | str _, int _ | str _, float _ | str _, arr _ | str _, obj _
  | arr _, null | arr _, bool _ | arr _, int _ | arr _, float _ | arr _, str _ | arr _, obj _
  | obj _, null | obj _, bool _ | obj _, int _ | obj _, float _ | obj _, str _ | obj _, arr _ =>
    isFalse nofun

def decEqItems : (a b : List Json) → Decidable (a = b)
  | [], [] => isTrue rfl
  | x :: xs, y :: ys =>
    match decEq x y, decEqItems xs ys with
    | isTrue h, isTrue hs => isTrue (h ▸ hs ▸ rfl)
    | isFalse h, _ => isFalse fun e => h (by injection e)
    | _, isFalse h => isFalse fun e => h (by injection e)
  | [], _ :: _ | _ :: _, [] => isFalse nofun

def decEqFields : (a b : List (String × Json)) → Decidable (a = b)
  | [], [] => isTrue rfl
  | (k, x) :: xs, (l, y) :: ys =>
    if hk : k = l then
      match decEq x y, decEqFields xs ys with
      | isTrue h, isTrue hs => isTrue (hk ▸ h ▸ hs ▸ rfl)
      | isFalse h, _ => isFalse fun e => h (by injection e with e; injection e)
      | _, isFalse h => isFalse fun e => h (by injection e)
    else isFalse fun e => hk (by injection e with e; injection e)
  | [], _ :: _ | _ :: _, [] => isFalse nofun

end

instance : DecidableEq Json := decEq

mutual

/-- Fields sorted by key at every depth; of two fields with one key the later stays. -/
def normalize : Json → Json
  | arr items => arr (normalizeItems items)
  | obj fields => obj (normalizeFields fields)
  | null => null
  | bool b => bool b
  | int n => int n
  | float x => float x
  | str s => str s

def normalizeItems : List Json → List Json
  | [] => []
  | v :: rest => v.normalize :: normalizeItems rest

def normalizeFields : List (String × Json) → List (String × Json)
  | [] => []
  | (k, v) :: rest =>
    let others := normalizeFields rest
    match lookupEntry k others with
    | some _ => others
    | none => insertEntry k v.normalize others

end

mutual

/-- Fields are in key order, without repeats, at every depth. -/
def Normal : Json → Prop
  | arr items => NormalItems items
  | obj fields => Increasing fields ∧ NormalFields fields
  | null | bool _ | int _ | float _ | str _ => True

def NormalItems : List Json → Prop
  | [] => True
  | v :: rest => v.Normal ∧ NormalItems rest

def NormalFields : List (String × Json) → Prop
  | [] => True
  | (_, v) :: rest => v.Normal ∧ NormalFields rest

end

theorem normalFields_insertEntry {k : String} {v : Json} (hv : v.Normal) :
    ∀ {fields : List (String × Json)}, NormalFields fields → NormalFields (insertEntry k v fields)
  | [], _ => ⟨hv, trivial⟩
  | (l, w) :: rest, h => by
    simp only [insertEntry]
    split
    · exact ⟨hv, h⟩
    · exact ⟨hv, h.2⟩
    · exact ⟨h.1, normalFields_insertEntry hv h.2⟩

mutual

theorem normal_normalize : ∀ v : Json, v.normalize.Normal
  | null | bool _ | int _ | float _ | str _ => by simp [normalize, Normal]
  | arr items => by
    simp only [normalize, Normal]
    exact normalItems_normalizeItems items
  | obj fields => by
    simp only [normalize, Normal]
    exact normalFields_normalizeFields fields

theorem normalItems_normalizeItems : ∀ items : List Json, NormalItems (normalizeItems items)
  | [] => by simp [normalizeItems, NormalItems]
  | v :: rest => by
    simp only [normalizeItems, NormalItems]
    exact ⟨normal_normalize v, normalItems_normalizeItems rest⟩

theorem normalFields_normalizeFields : ∀ fields : List (String × Json),
    Increasing (normalizeFields fields) ∧ NormalFields (normalizeFields fields)
  | [] => by simp [normalizeFields, NormalFields, Increasing]
  | (k, v) :: rest => by
    have ih := normalFields_normalizeFields rest
    simp only [normalizeFields]
    split
    · exact ih
    · exact ⟨increasing_insertEntry ih.1, normalFields_insertEntry (normal_normalize v) ih.2⟩

end

mutual

/-- A tree in normal form is left as it is. -/
theorem normalize_eq_self : ∀ {v : Json}, v.Normal → v.normalize = v
  | null, _ | bool _, _ | int _, _ | float _, _ | str _, _ => by simp [normalize]
  | arr items, h => by
    have h' : NormalItems items := by simpa [Normal] using h
    simp only [normalize, normalizeItems_eq_self h']
  | obj fields, h => by
    simp only [Normal] at h
    simp only [normalize, normalizeFields_eq_self h.1 h.2]

theorem normalizeItems_eq_self : ∀ {items : List Json}, NormalItems items →
    normalizeItems items = items
  | [], _ => by simp [normalizeItems]
  | v :: rest, h => by
    simp only [NormalItems] at h
    simp [normalizeItems, normalize_eq_self h.1, normalizeItems_eq_self h.2]

theorem normalizeFields_eq_self : ∀ {fields : List (String × Json)}, Increasing fields →
    NormalFields fields → normalizeFields fields = fields
  | [], _, _ => by simp [normalizeFields]
  | (k, v) :: rest, hi, h => by
    simp only [NormalFields] at h
    have hhead := (List.pairwise_cons.1 hi).1
    have hnone : lookupEntry k rest = none := lookupEntry_eq_none fun e he => by
      rw [hhead e he]
      decide
    simp only [normalizeFields, normalizeFields_eq_self (List.pairwise_cons.1 hi).2 h.2, hnone,
      normalize_eq_self h.1]
    cases rest with
    | nil => rfl
    | cons e rest => simp [insertEntry, hhead e (by simp)]

end

/-- The object with these fields, of which later ones replace earlier ones. -/
def ofFields (fields : List (String × Json)) : Json := normalize (obj fields)

end Json

/-- A value in normal form. -/
structure Payload where
  value : Json
  normal : value.Normal

namespace Payload

instance : DecidableEq Payload := fun a b =>
  decidable_of_iff (a.value = b.value) (by cases a; cases b; simp)

/-- Puts a value into normal form. -/
def ofJson (v : Json) : Payload := ⟨v.normalize, Json.normal_normalize v⟩

instance : Inhabited Payload := ⟨ofJson .null⟩

@[simp]
theorem ofJson_value (p : Payload) : ofJson p.value = p := by
  cases p with
  | mk v h => simp [ofJson, Json.normalize_eq_self h]

end Payload

end Ferry
