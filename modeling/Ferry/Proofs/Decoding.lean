import Mathlib.Data.List.Pairwise
import Ferry.Decoding
import Ferry.Proofs.Datum
import Ferry.Proofs.Results
import Ferry.Proofs.SortedMap
import Ferry.Proofs.Timestamp

/-!
# Decoding what presents a value

A decoder that takes the encoding of something back to it does so for every datum
that presents the encoding. Records are decoded field by field; the order of the
fields does not matter, because two fields of a record change different parts of
it.
-/
namespace Ferry

namespace SortedMap

variable {κ α : Type} [Ord κ] [Std.TransOrd κ] [Std.LawfulEqOrd κ] [DecidableEq κ]

/-- A map is filled by its own entries, in whatever order they come. -/
theorem ofList_perm {entries : List (κ × α)} (m : SortedMap κ α) (h : entries.Perm m.entries) :
    ofList entries = m := by
  have hmem {e : κ × α} (he : e ∈ entries) : m.get? e.1 = some e.2 :=
    m.get?_eq_some_iff.mpr (h.mem_iff.mp he)
  refine ext_get? fun k => ?_
  rw [get?_ofList]
  cases hfind : entries.reverse.find? fun e => decide (e.1 = k) with
  | some e =>
    have hkey : e.1 = k := by simpa using List.find?_some hfind
    rw [← hkey, hmem (List.mem_reverse.mp (List.mem_of_find?_eq_some hfind))]
    rfl
  | none =>
    cases hget : m.get? k with
    | none => rfl
    | some v =>
      have he : (k, v) ∈ entries := h.mem_iff.mpr (m.get?_eq_some_iff.mp hget)
      have := List.find?_eq_none.mp hfind (k, v) (List.mem_reverse.mpr he)
      simp at this

end SortedMap

namespace Decoder

variable {α β : Type} {decode : Decoder α} {v : Json} {a : α}

/-- Whatever presents a value is decoded to a result. -/
def Reads (decode : Decoder α) (v : Json) (a : α) : Prop :=
  ∀ format d, v.Shows d → decode format d = .ok a

theorem visit_of_core {decode : Datum → Decoded α} : ∀ {d : Datum}, decode d.core = .ok a →
    visit decode d = .ok a
  | .located _ d, h | .keyed _ d, h => by rw [visit, visit_of_core (d := d) h, locate]
  | .null, h | .bool _, h | .int _, h | .real _, h | .str _, h | .dateTime _, h | .seq _, h
  | .tables _, h | .map _, h => h

theorem reads_string (s : String) : string.Reads (.str s) s := by
  intro format d h
  rw [Json.Shows] at h
  exact visit_of_core (by rw [h])

theorem Reads.optional (h : decode.Reads v a) (hnull : v ≠ .null) :
    (optional decode).Reads v (some a) := by
  intro format d hd
  have hne : d ≠ .null := by
    rintro rfl
    cases v with
    | null => exact hnull rfl
    | arr items =>
      rw [Json.Shows] at hd
      obtain ⟨_, hcore | hcore, _⟩ := hd <;> cases hcore
    | obj fields =>
      rw [Json.Shows] at hd
      obtain ⟨_, _, hcore, _⟩ := hd
      cases hcore
    | _ =>
      rw [Json.Shows] at hd
      cases hd
  unfold Decoder.optional
  split
  · exact absurd rfl hne
  · rw [h format d hd]
    rfl

theorem reads_listOf {encode : α → Json} {items : List α}
    (h : ∀ a ∈ items, decode.Reads (encode a) a) :
    (listOf decode).Reads (.arr (items.map encode)) items := by
  intro format d hd
  rw [Json.Shows] at hd
  obtain ⟨ds, hcore, hitems⟩ := hd
  have hmap : ds.mapM (decode format) = .ok items := by
    clear hcore
    induction items generalizing ds with
    | nil =>
      rw [List.map_nil, Json.ShowsItems] at hitems
      rw [hitems]
      rfl
    | cons a items ih =>
      rw [List.map_cons, Json.ShowsItems] at hitems
      obtain ⟨d, rest, rfl, hd, hrest⟩ := hitems
      rw [List.mapM_cons, h a List.mem_cons_self format d hd,
        ih (fun a ha => h a (List.mem_cons_of_mem _ ha)) rest hrest]
      rfl
  refine visit_of_core ?_
  rcases hcore with hcore | hcore <;> rw [hcore] <;> exact hmap

def textOf (d : Datum) : String :=
  match d.core with
  | .str s => s
  | _ => ""

theorem string_textOf {format : Format} {d : Datum} {s : String} (h : d.core = .str s) :
    string format d = .ok (textOf d) := by
  rw [textOf, h]
  exact visit_of_core (by rw [h])

theorem texts_of_showsFields {entries : List (String × String)} {ds : List (String × Datum)}
    (h : Json.ShowsFields (entries.map fun e => (e.1, .str e.2)) ds) :
    ds.map (fun e => (e.1, textOf e.2)) = entries ∧ ∀ e ∈ ds, ∃ s, e.2.core = .str s := by
  induction entries generalizing ds with
  | nil =>
    rw [List.map_nil, Json.ShowsFields] at h
    rw [h]
    simp
  | cons e entries ih =>
    rw [List.map_cons, Json.ShowsFields] at h
    obtain ⟨d, rest, rfl, hd, hrest⟩ := h
    rw [Json.Shows] at hd
    obtain ⟨htexts, hcores⟩ := ih hrest
    refine ⟨?_, List.forall_mem_cons.mpr ⟨⟨_, hd⟩, hcores⟩⟩
    rw [List.map_cons, htexts, textOf, hd]

theorem reads_stringMap (m : SortedMap String String) :
    stringMap.Reads (.obj (m.entries.map fun e => (e.1, .str e.2))) m := by
  intro format d hd
  rw [Json.Shows] at hd
  obtain ⟨ds, ds', hcore, hperm, -, hfields⟩ := hd
  obtain ⟨htexts, hcores⟩ := texts_of_showsFields hfields
  have hmap : ds.mapM (stringEntry format) = .ok (ds.map fun e => (e.1, textOf e.2)) := by
    refine mapM_eq_ok fun e he => ?_
    obtain ⟨s, hs⟩ := hcores e (hperm.mem_iff.mp he)
    rw [stringEntry, string_textOf hs]
    rfl
  refine visit_of_core ?_
  rw [hcore]
  change (ds.mapM (stringEntry format)).map SortedMap.ofList = _
  rw [hmap]
  refine congrArg Except.ok (SortedMap.ofList_perm m ?_)
  rw [← htexts]
  exact hperm.map _

theorem reads_payload (p : Payload) : payload.Reads p.value p := by
  intro format d hd
  rw [payload, p.ofJson_of_shows hd]

theorem reads_timestamp (t : Timestamp) : timestamp.Reads (.str t.toText) t := by
  intro format d h
  rw [Json.Shows] at h
  refine visit_of_core ?_
  rw [h]
  dsimp only
  rw [t.parse_toText]

theorem reads_key {k : ObjectKey} (hk : ObjectKey.parse? k.text = some k) :
    key.Reads (.str k.text) k := by
  intro format d h
  unfold key
  simp only [reads_string _ format d h, bind, Except.bind, hk]

end Decoder

/-! ### Records -/

section Records

variable {α β : Type}

namespace Field

theorem reads_default {decode : Decoder β} {v : Json} {b : β} (h : decode.Reads v b)
    (name : String) (set : β → α → α) : (default name decode set).decode.Reads v (set b) := by
  intro format d hd
  change (decode format d).map set = _
  rw [h format d hd]
  rfl

theorem reads_need {decode : Decoder β} {v : Json} {b : β} (h : decode.Reads v b)
    (name : String) (set : β → α → α) : (need name decode set).decode.Reads v (set b) :=
  reads_default h name set

@[simp] theorem name_need (name : String) (decode : Decoder β) (set : β → α → α) :
    (need name decode set).name = name := rfl

@[simp] theorem required_default (name : String) (decode : Decoder β) (set : β → α → α) :
    (default name decode set).required = false := rfl

/-- What one field decodes to does not interfere with what another one decodes to. -/
def Commutes (f g : Field α) : Prop :=
  ∀ format d d' u u', f.decode format d = .ok u → g.decode format d' = .ok u' →
    ∀ r, u (u' r) = u' (u r)

instance : Std.Symm (@Commutes α) :=
  ⟨fun _ _ h format d d' u u' hu hu' r => (h format d' d u' u hu' hu r).symm⟩

/-- Fields commute that set different parts of the record. -/
@[simp] theorem commutes_default {γ : Type} {name name' : String} {decode : Decoder β}
    {decode' : Decoder γ} {set : β → α → α} {set' : γ → α → α}
    (h : ∀ b c r, set b (set' c r) = set' c (set b r)) :
    (default name decode set).Commutes (default name' decode' set') := by
  intro format d d' u u' hu hu' r
  obtain ⟨b, -, rfl⟩ := exists_of_map_eq_ok hu
  obtain ⟨c, -, rfl⟩ := exists_of_map_eq_ok hu'
  exact h b c r

@[simp] theorem commutes_need_left {name : String} {decode : Decoder β} {set : β → α → α}
    {g : Field α} :
    (need name decode set).Commutes g ↔ (default name decode set).Commutes g := Iff.rfl

@[simp] theorem commutes_need_right {name : String} {decode : Decoder β} {set : β → α → α}
    {f : Field α} :
    f.Commutes (need name decode set) ↔ f.Commutes (default name decode set) := Iff.rfl

end Field

namespace Schema

variable {schema : Schema α}

def step (schema : Schema α) (format : Format) (record : α) (e : String × Datum) : Decoded α :=
  match schema.fields.find? (·.name = e.1) with
  | some field => (field.decode format e.2).map (· record)
  | none => .ok record

/-- Fields with values, one after another, take a record to another one. -/
inductive Fills (schema : Schema α) : α → List (String × Json) → α → Prop where
  | nil (r : α) : Fills schema r [] r
  | cons {name : String} {v : Json} {field : Field α} {u : α → α} {r r' : α}
    {fields : List (String × Json)} (hfind : schema.fields.find? (·.name = name) = some field)
    (hread : field.decode.Reads v u) (hrest : Fills schema (u r) fields r') :
    Fills schema r ((name, v) :: fields) r'

theorem fills_blank (schema : Schema α) : schema.Fills schema.blank [] schema.blank := .nil _

theorem Fills.append {r r' r'' : α} {fields fields' : List (String × Json)}
    (h : schema.Fills r fields r') (h' : schema.Fills r' fields' r'') :
    schema.Fills r (fields ++ fields') r'' := by
  induction h with
  | nil => exact h'
  | cons hfind hread _ ih => exact .cons hfind hread (ih h')

def Decodes (schema : Schema α) (format : Format) (e : String × Datum) (u : α → α) : Prop :=
  ∃ field, schema.fields.find? (·.name = e.1) = some field ∧ field.decode format e.2 = .ok u

theorem Decodes.step {format : Format} {e : String × Datum} {u : α → α}
    (h : schema.Decodes format e u) (r : α) : schema.step format r e = .ok (u r) := by
  obtain ⟨field, hfind, hdecode⟩ := h
  rw [Schema.step, hfind]
  dsimp only
  rw [hdecode]
  rfl

theorem Fills.foldlM {r r' : α} {fields : List (String × Json)} (h : schema.Fills r fields r')
    (format : Format) {ds : List (String × Datum)} (hds : Json.ShowsFields fields ds) :
    ds.foldlM (schema.step format) r = .ok r' ∧ ∀ e ∈ ds, ∃ u, schema.Decodes format e u := by
  induction h generalizing ds with
  | nil r =>
    rw [Json.ShowsFields] at hds
    rw [hds]
    exact ⟨rfl, by simp⟩
  | @cons name v field u r r' fields hfind hread hrest ih =>
    rw [Json.ShowsFields] at hds
    obtain ⟨d, rest, rfl, hd, hds⟩ := hds
    obtain ⟨hfold, hdecodes⟩ := ih hds
    have hdecode : schema.Decodes format (name, d) u := ⟨field, hfind, hread format d hd⟩
    refine ⟨?_, List.forall_mem_cons.mpr ⟨⟨u, hdecode⟩, hdecodes⟩⟩
    rw [List.foldlM_cons, hdecode.step]
    exact hfold

theorem Decodes.commutes {format : Format} {e e' : String × Datum} {u u' : α → α}
    (he : schema.Decodes format e u) (h : schema.fields.Pairwise Field.Commutes)
    (hname : e.1 ≠ e'.1) (he' : schema.Decodes format e' u') (r : α) :
    u (u' r) = u' (u r) := by
  obtain ⟨f, hf, hu⟩ := he
  obtain ⟨g, hg, hu'⟩ := he'
  have hfname : f.name = e.1 := by simpa using List.find?_some hf
  have hgname : g.name = e'.1 := by simpa using List.find?_some hg
  have hne : f ≠ g := by
    rintro rfl
    exact hname (hfname.symm.trans hgname)
  exact h.forall (List.mem_of_find?_eq_some hf) (List.mem_of_find?_eq_some hg) hne format _ _ u u'
    hu hu' r

/-- The order of fields with different names does not matter, if fields of the schema commute. -/
theorem foldlM_step_perm (h : schema.fields.Pairwise Field.Commutes) {format : Format}
    {ds ds' : List (String × Datum)} (hperm : ds.Perm ds')
    (hdecodes : ∀ e ∈ ds, ∃ u, schema.Decodes format e u) (hnames : (ds.map Prod.fst).Nodup)
    (r : α) :
    ds.foldlM (schema.step format) r = ds'.foldlM (schema.step format) r := by
  induction hperm generalizing r with
  | nil => rfl
  | cons e _ ih =>
    obtain ⟨⟨u, hu⟩, hrest⟩ := List.forall_mem_cons.mp hdecodes
    rw [List.foldlM_cons, List.foldlM_cons, hu.step]
    exact ih hrest (List.nodup_cons.mp hnames).2 (u r)
  | swap e e' rest =>
    obtain ⟨⟨u', hu'⟩, hrest⟩ := List.forall_mem_cons.mp hdecodes
    obtain ⟨⟨u, hu⟩, -⟩ := List.forall_mem_cons.mp hrest
    have hname : e.1 ≠ e'.1 := by
      rw [List.map_cons, List.map_cons, List.nodup_cons, List.mem_cons, not_or] at hnames
      exact Ne.symm hnames.1.1
    simp only [List.foldlM_cons, hu.step, hu'.step, bind, Except.bind, hu.commutes h hname hu' r]
  | trans hperm _ ih ih' =>
    rw [ih hdecodes hnames, ih' (fun e he => hdecodes e (hperm.mem_iff.mpr he))
      ((hperm.map Prod.fst).nodup_iff.mp hnames)]

/-- An object whose fields fill a record is decoded to the record. -/
theorem reads_of_fills {fields : List (String × Json)} {r r' : α}
    (hfills : schema.Fills schema.blank fields r')
    (hcommutes : schema.fields.Pairwise Field.Commutes)
    (hrequired : ∀ f ∈ schema.fields, f.required = true → f.name ∈ fields.map Prod.fst)
    (hr : r' = r) : schema.decode.Reads (.obj fields) r := by
  subst hr
  intro format d hd
  rw [Json.Shows] at hd
  obtain ⟨ds, ds', hcore, hperm, hnames, hds⟩ := hd
  obtain ⟨hfold, hdecodes⟩ := hfills.foldlM format hds
  have hfold' : ds.foldlM (schema.step format) schema.blank = .ok r' := by
    rw [foldlM_step_perm hcommutes hperm (fun e he => hdecodes e (hperm.mem_iff.mp he))
      ((hperm.map Prod.fst).nodup_iff.mpr hnames)]
    exact hfold
  have hnone : (schema.fields.find? fun f => f.required && ds.all (·.1 ≠ f.name)) = none := by
    refine List.find?_eq_none.mpr fun f hf hmissing => ?_
    rw [Bool.and_eq_true, List.all_eq_true] at hmissing
    have hmem := hrequired f hf hmissing.1
    rw [← hds.map_fst, ← (hperm.map Prod.fst).mem_iff] at hmem
    obtain ⟨e, he, hname⟩ := List.mem_map.mp hmem
    simpa [hname] using hmissing.2 e he
  refine Decoder.visit_of_core ?_
  rw [hcore]
  change schema.decodeFields format ds = .ok r'
  unfold decodeFields
  change (ds.foldlM (schema.step format) schema.blank >>= _) = _
  rw [hfold']
  simp only [bind, Except.bind, hnone]

/-! Fields as they are encoded, one more at a time. -/

variable {r r' : α} {decode : Decoder β} {set : β → α → α} {v : Json} {b : β}
  {fields : List (String × Json)}

theorem Fills.default (h : schema.Fills r fields r') (name : String)
    (hfind : schema.fields.find? (·.name = name) = some (.default name decode set))
    (hread : decode.Reads v b) : schema.Fills r (fields ++ [(name, v)]) (set b r') :=
  h.append (.cons hfind (Field.reads_default hread name set) (.nil _))

theorem Fills.need (h : schema.Fills r fields r') (name : String)
    (hfind : schema.fields.find? (·.name = name) = some (.need name decode set))
    (hread : decode.Reads v b) : schema.Fills r (fields ++ [(name, v)]) (set b r') :=
  h.append (.cons hfind (Field.reads_need hread name set) (.nil _))

end Schema

end Records

end Ferry
