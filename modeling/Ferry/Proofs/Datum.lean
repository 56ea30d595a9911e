import Ferry.Datum

/-!
# Values and the data that show them

A data format presents a value with marks and, if it is an object, with its fields
in an order of its own. `Shows` says that a datum is such a presentation of a
value. As an untyped value the datum is the value again.
-/
namespace Ferry

open Toml (Mark Node)

namespace Datum

/-- A datum without the places around it. -/
def core : Datum → Datum
  | located _ d | keyed _ d => d.core
  | d => d

@[simp]
theorem core_located (mark : Mark) (d : Datum) : (located mark d).core = d.core := rfl

@[simp]
theorem core_keyed (mark : Mark) (d : Datum) : (keyed mark d).core = d.core := rfl

theorem toJson_core : ∀ d : Datum, d.core.toJson = d.toJson
  | located _ d | keyed _ d => by simp [toJson, toJson_core d]
  | null | bool _ | int _ | real _ | str _ | dateTime _ | seq _ | tables _ | map _ => rfl

theorem toJsonFields_eq_map (fields : List (String × Datum)) :
    toJsonFields fields = fields.map fun f => (f.1, f.2.toJson) := by
  induction fields with
  | nil => rfl
  | cons f rest ih => rw [toJsonFields, ih, List.map_cons]

theorem ofEntries_eq_map (entries : Toml.Entries) :
    ofEntries entries = entries.map fun e => (e.1.name, keyed e.1.mark (ofNode e.2)) := by
  induction entries with
  | nil => rfl
  | cons e rest ih => rw [ofEntries, ih, List.map_cons]

theorem ofNodes_eq_map (nodes : List Node) : ofNodes nodes = nodes.map ofNode := by
  induction nodes with
  | nil => rfl
  | cons node rest ih => rw [ofNodes, ih, List.map_cons]

end Datum

namespace Json

/-! ### Order of fields -/

section Order

variable {fields : List (String × Json)} {k l : String} {v : Json}

theorem lookupEntry_normalizeFields_cons :
    lookupEntry l (normalizeFields ((k, v) :: fields)) =
      if compare l k = .eq then
        some ((lookupEntry k (normalizeFields fields)).getD v.normalize)
      else lookupEntry l (normalizeFields fields) := by
  rw [normalizeFields]
  cases hlookup : lookupEntry k (normalizeFields fields) with
  | none =>
    dsimp only
    rw [lookupEntry_insertEntry]
    rfl
  | some w =>
    by_cases hl : compare l k = .eq
    · rw [if_pos hl, Std.LawfulEqOrd.eq_of_compare hl, hlookup]
      rfl
    · rw [if_neg hl]

theorem lookupEntry_normalizeFields_eq_none (h : k ∉ fields.map Prod.fst) :
    lookupEntry k (normalizeFields fields) = none := by
  induction fields with
  | nil => rfl
  | cons f rest ih =>
    obtain ⟨l, w⟩ := f
    rw [List.map_cons, List.mem_cons, not_or] at h
    rw [lookupEntry_normalizeFields_cons,
      if_neg fun e => h.1 (Std.LawfulEqOrd.eq_of_compare e), ih h.2]

theorem lookupEntry_normalizeFields_of_mem (hnodup : (fields.map Prod.fst).Nodup)
    (h : (k, v) ∈ fields) : lookupEntry k (normalizeFields fields) = some v.normalize := by
  induction fields with
  | nil => cases h
  | cons f rest ih =>
    obtain ⟨l, w⟩ := f
    rw [List.map_cons, List.nodup_cons] at hnodup
    rw [lookupEntry_normalizeFields_cons]
    rcases List.mem_cons.mp h with heq | hmem
    · cases heq
      rw [if_pos Std.compare_self, lookupEntry_normalizeFields_eq_none hnodup.1]
      rfl
    · have hne : k ≠ l := by
        rintro rfl
        exact hnodup.1 (List.mem_map.mpr ⟨_, hmem, rfl⟩)
      rw [if_neg fun e => hne (Std.LawfulEqOrd.eq_of_compare e), ih hnodup.2 hmem]

/-- Fields with different names are put into the same order, in whatever order they are given. -/
theorem normalizeFields_perm {fields' : List (String × Json)} (hperm : fields.Perm fields')
    (hnodup : (fields.map Prod.fst).Nodup) : normalizeFields fields = normalizeFields fields' := by
  refine eq_of_lookupEntry_eq (normalFields_normalizeFields _).1
    (normalFields_normalizeFields _).1 fun k => ?_
  by_cases hk : k ∈ fields.map Prod.fst
  · obtain ⟨⟨_, v⟩, hmem, rfl⟩ := List.mem_map.mp hk
    rw [lookupEntry_normalizeFields_of_mem hnodup hmem,
      lookupEntry_normalizeFields_of_mem ((hperm.map Prod.fst).nodup_iff.mp hnodup)
        (hperm.mem_iff.mp hmem)]
  · rw [lookupEntry_normalizeFields_eq_none hk,
      lookupEntry_normalizeFields_eq_none fun h => hk ((hperm.map Prod.fst).mem_iff.mpr h)]

end Order

/-! ### Presentations -/

mutual

/-- A datum presents a value: with places around it, and with the fields of objects in any order. -/
def Shows : Json → Datum → Prop
  | null, d => d.core = .null
  | bool b, d => d.core = .bool b
  | int n, d => d.core = .int n
  | float x, d => d.core = .real (.finite x)
  | str s, d => d.core = .str s
  | arr items, d => ∃ ds, (d.core = .seq ds ∨ d.core = .tables ds) ∧ ShowsItems items ds
  | obj fields, d =>
    ∃ ds ds', d.core = .map ds ∧ ds.Perm ds' ∧ (ds'.map Prod.fst).Nodup ∧ ShowsFields fields ds'

def ShowsItems : List Json → List Datum → Prop
  | [], ds => ds = []
  | v :: items, ds => ∃ d rest, ds = d :: rest ∧ Shows v d ∧ ShowsItems items rest

def ShowsFields : List (String × Json) → List (String × Datum) → Prop
  | [], ds => ds = []
  | (name, v) :: fields, ds =>
    ∃ d rest, ds = (name, d) :: rest ∧ Shows v d ∧ ShowsFields fields rest

end

theorem Shows.congr_core {v : Json} {d d' : Datum} (hcore : d.core = d'.core) (h : v.Shows d) :
    v.Shows d' := by
  cases v <;> simpa only [Shows, hcore] using h

@[simp]
theorem shows_located {v : Json} {mark : Mark} {d : Datum} :
    v.Shows (.located mark d) ↔ v.Shows d :=
  ⟨.congr_core rfl, .congr_core rfl⟩

@[simp]
theorem shows_keyed {v : Json} {mark : Mark} {d : Datum} : v.Shows (.keyed mark d) ↔ v.Shows d :=
  ⟨.congr_core rfl, .congr_core rfl⟩

theorem ShowsFields.map_fst {fields : List (String × Json)} {ds : List (String × Datum)}
    (h : ShowsFields fields ds) : ds.map Prod.fst = fields.map Prod.fst := by
  induction fields generalizing ds with
  | nil =>
    rw [ShowsFields] at h
    rw [h]
    rfl
  | cons f fields ih =>
    obtain ⟨name, v⟩ := f
    rw [ShowsFields] at h
    obtain ⟨d, rest, rfl, -, hrest⟩ := h
    rw [List.map_cons, List.map_cons, ih hrest]

theorem ShowsFields.append {fields fields' : List (String × Json)} {ds ds' : List (String × Datum)}
    (h : ShowsFields fields ds) (h' : ShowsFields fields' ds') :
    ShowsFields (fields ++ fields') (ds ++ ds') := by
  induction fields generalizing ds with
  | nil =>
    rw [ShowsFields] at h
    rw [h]
    exact h'
  | cons f fields ih =>
    obtain ⟨name, v⟩ := f
    rw [ShowsFields] at h
    obtain ⟨d, rest, rfl, hv, hrest⟩ := h
    rw [List.cons_append, ShowsFields]
    exact ⟨d, rest ++ ds', rfl, hv, ih hrest⟩

theorem ShowsFields.perm {fields fields' : List (String × Json)} (hperm : fields.Perm fields')
    {ds : List (String × Datum)} (h : ShowsFields fields ds) :
    ∃ ds', ds.Perm ds' ∧ ShowsFields fields' ds' := by
  induction hperm generalizing ds with
  | nil => exact ⟨ds, .refl _, h⟩
  | cons f hperm ih =>
    obtain ⟨name, v⟩ := f
    rw [ShowsFields] at h
    obtain ⟨d, rest, rfl, hv, hrest⟩ := h
    obtain ⟨rest', hperm', hrest'⟩ := ih hrest
    refine ⟨(name, d) :: rest', hperm'.cons _, ?_⟩
    rw [ShowsFields]
    exact ⟨d, rest', rfl, hv, hrest'⟩
  | swap f g fields =>
    obtain ⟨name, v⟩ := f
    obtain ⟨name', v'⟩ := g
    rw [ShowsFields] at h
    obtain ⟨d', _, rfl, hv', h⟩ := h
    rw [ShowsFields] at h
    obtain ⟨d, rest, rfl, hv, hrest⟩ := h
    refine ⟨(name, d) :: (name', d') :: rest, .swap _ _ _, ?_⟩
    simp only [ShowsFields]
    exact ⟨d, _, rfl, hv, d', rest, rfl, hv', hrest⟩
  | trans _ _ ih ih' =>
    obtain ⟨ds', hperm', h'⟩ := ih h
    obtain ⟨ds'', hperm'', h''⟩ := ih' h'
    exact ⟨ds'', hperm'.trans hperm'', h''⟩

theorem shows_obj_of_perm {fields fields' : List (String × Json)} {ds : List (String × Datum)}
    {d : Datum} (hcore : d.core = .map ds) (hperm : fields'.Perm fields)
    (hnodup : (fields.map Prod.fst).Nodup) (h : ShowsFields fields' ds) : (obj fields).Shows d := by
  obtain ⟨ds', hperm', h'⟩ := h.perm hperm
  rw [Shows]
  exact ⟨ds, ds', hcore, hperm', by rwa [h'.map_fst], h'⟩

mutual

/-- What presents a value is the value, up to the order of fields. -/
theorem normalize_toJson_of_shows : ∀ (v : Json) {d : Datum}, v.Shows d →
    d.toJson.normalize = v.normalize
  | null, d, h | bool _, d, h | int _, d, h | float _, d, h | str _, d, h => by
    rw [Shows] at h
    rw [← d.toJson_core, h]
    simp [Datum.toJson]
  | arr items, d, h => by
    rw [Shows] at h
    obtain ⟨ds, hcore, hitems⟩ := h
    have hitems' := normalizeItems_toJsonItems items hitems
    rw [← d.toJson_core]
    rcases hcore with hcore | hcore <;> rw [hcore] <;> simp only [Datum.toJson, normalize, hitems']
  | obj fields, d, h => by
    rw [Shows] at h
    obtain ⟨ds, ds', hcore, hperm, hnodup, hfields⟩ := h
    have hnames : ((Datum.toJsonFields ds).map Prod.fst).Nodup := by
      rw [Datum.toJsonFields_eq_map, List.map_map]
      exact (hperm.map Prod.fst).nodup_iff.mpr hnodup
    have hperm' : (Datum.toJsonFields ds).Perm (Datum.toJsonFields ds') := by
      rw [Datum.toJsonFields_eq_map, Datum.toJsonFields_eq_map]
      exact hperm.map _
    rw [← d.toJson_core, hcore, Datum.toJson, normalize, normalize,
      normalizeFields_perm hperm' hnames, normalizeFields_toJsonFields fields hfields]

theorem normalizeItems_toJsonItems : ∀ (items : List Json) {ds : List Datum},
    ShowsItems items ds → normalizeItems (Datum.toJsonItems ds) = normalizeItems items
  | [], ds, h => by
    rw [ShowsItems] at h
    rw [h]
    rfl
  | v :: items, ds, h => by
    rw [ShowsItems] at h
    obtain ⟨d, rest, rfl, hv, hrest⟩ := h
    rw [Datum.toJsonItems, normalizeItems, normalizeItems, normalize_toJson_of_shows v hv,
      normalizeItems_toJsonItems items hrest]

theorem normalizeFields_toJsonFields : ∀ (fields : List (String × Json))
    {ds : List (String × Datum)}, ShowsFields fields ds →
    normalizeFields (Datum.toJsonFields ds) = normalizeFields fields
  | [], ds, h => by
    rw [ShowsFields] at h
    rw [h]
    rfl
  | (name, v) :: fields, ds, h => by
    rw [ShowsFields] at h
    obtain ⟨d, rest, rfl, hv, hrest⟩ := h
    rw [Datum.toJsonFields, normalizeFields, normalizeFields, normalize_toJson_of_shows v hv,
      normalizeFields_toJsonFields fields hrest]

end

end Json

theorem Payload.ofJson_of_shows (p : Payload) {d : Datum} (h : p.value.Shows d) :
    Payload.ofJson d.toJson = p := by
  have hvalue := Json.normalize_toJson_of_shows p.value h
  rw [← p.ofJson_value]
  unfold Payload.ofJson
  congr 1

end Ferry
