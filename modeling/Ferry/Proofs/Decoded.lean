import Ferry.Proofs.Manifest
import Ferry.Proofs.Results

/-!
# What is known of decoded records

A property of data that a datum hands down to its parts is handed on to what the
parts are decoded to: from a payload or a text to a record, field by field, and to
a deployable, whose channels are keys that their texts give again.
-/
namespace Ferry

variable {Q : Datum → Prop}

/-- A property that a datum hands down to its parts. -/
structure Datum.Hereditary (Q : Datum → Prop) : Prop where
  core : ∀ {d : Datum}, Q d → Q d.core
  seq : ∀ {items : List Datum}, Q (.seq items) → ∀ d ∈ items, Q d
  tables : ∀ {items : List Datum}, Q (.tables items) → ∀ d ∈ items, Q d
  fields : ∀ {d : Datum} {fields : List (String × Datum)}, Q d →
    Decoder.fields? d = some fields → ∀ f ∈ fields, Q f.2

namespace Decoder

variable {α β : Type} {decode : Decoder α} {P : α → Prop}

/-- What a decoder gives for data with one property has another property. -/
def Yields (decode : Decoder α) (Q : Datum → Prop) (P : α → Prop) : Prop :=
  ∀ format d a, Q d → decode format d = .ok a → P a

theorem yields_true (decode : Decoder α) : decode.Yields Q fun _ => True :=
  fun _ _ _ _ _ => trivial

theorem core_of_visit {decode : Datum → Decoded α} {a : α} : ∀ {d : Datum},
    visit decode d = .ok a → decode d.core = .ok a
  | .located mark d, h | .keyed mark d, h => by
    rw [visit] at h
    cases hvisit : visit decode d with
    | error e =>
      rw [hvisit] at h
      cases h
    | ok b =>
      rw [hvisit] at h
      cases h
      exact core_of_visit (d := d) hvisit
  | .null, h | .bool _, h | .int _, h | .real _, h | .str _, h | .dateTime _, h | .seq _, h
  | .tables _, h | .map _, h => h

theorem Yields.optional (h : decode.Yields (fun d => Q d ∧ d ≠ .null) P) :
    (optional decode).Yields Q fun o => ∀ a ∈ o, P a := by
  intro format d o hd hdecode
  unfold Decoder.optional at hdecode
  split at hdecode
  next =>
    cases hdecode
    exact nofun
  next hnull =>
    obtain ⟨a, ha, rfl⟩ := exists_of_map_eq_ok hdecode
    intro b hb
    cases hb
    exact h format d a ⟨hd, hnull⟩ ha

theorem Yields.listOf (h : decode.Yields Q P) (hQ : Datum.Hereditary Q) :
    (listOf decode).Yields Q fun l => ∀ a ∈ l, P a := by
  intro format d l hd hdecode
  have hcore := hQ.core hd
  have hdecode := core_of_visit hdecode
  split at hdecode
  next items heq =>
    rw [heq] at hcore
    exact forall_of_mapM_eq_ok (fun item hitem b hb =>
      h format item b (hQ.seq hcore item hitem) hb) hdecode
  next items heq =>
    rw [heq] at hcore
    exact forall_of_mapM_eq_ok (fun item hitem b hb =>
      h format item b (hQ.tables hcore item hitem) hb) hdecode
  next => cases hdecode

theorem yields_key : key.Yields Q ObjectKey.WellFormed := by
  intro format d k _ hdecode
  unfold key at hdecode
  obtain ⟨s, -, hdecode⟩ := exists_of_bind_eq_ok hdecode
  split at hdecode
  next hparse =>
    cases hdecode
    exact ObjectKey.wellFormed_of_parse? hparse
  next => cases hdecode

end Decoder

/-! ### Records -/

section Records

variable {α β : Type} {P : α → Prop}

def Field.Keeps (Q : Datum → Prop) (P : α → Prop) (field : Field α) : Prop :=
  ∀ format d u, Q d → field.decode format d = .ok u → ∀ r, P r → P (u r)

theorem Field.keeps_default {decode : Decoder β} {R : β → Prop} (h : decode.Yields Q R)
    {set : β → α → α} (hset : ∀ b r, R b → P r → P (set b r)) (name : String) :
    (Field.default name decode set).Keeps Q P := by
  intro format d u hd hdecode r hr
  obtain ⟨b, hb, rfl⟩ := exists_of_map_eq_ok hdecode
  exact hset b r (h format d b hd hb) hr

theorem Field.keeps_need {decode : Decoder β} {R : β → Prop} (h : decode.Yields Q R)
    {set : β → α → α} (hset : ∀ b r, R b → P r → P (set b r)) (name : String) :
    (Field.need name decode set).Keeps Q P :=
  Field.keeps_default h hset name

namespace Schema

variable {schema : Schema α}

theorem keeps_decodeFields (hfields : ∀ field ∈ schema.fields, field.Keeps Q P)
    (hblank : P schema.blank) {format : Format} {fields : List (String × Datum)}
    (hd : ∀ f ∈ fields, Q f.2) {r : α} (h : schema.decodeFields format fields = .ok r) :
    P r := by
  unfold decodeFields at h
  obtain ⟨r', hfold, h⟩ := exists_of_bind_eq_ok h
  split at h
  · cases h
  · cases h
    refine invariant_of_foldlM_eq_ok (fun f hf b b' hb hstep => ?_) hblank hfold
    dsimp only at hstep
    split at hstep
    next field hfind =>
      obtain ⟨u, hu, rfl⟩ := exists_of_map_eq_ok hstep
      exact hfields field (List.mem_of_find?_eq_some hfind) format f.2 u (hd f hf) hu b hb
    next =>
      cases hstep
      exact hb

theorem keeps_decodeItems (hfields : ∀ field ∈ schema.fields, field.Keeps Q P)
    (hblank : P schema.blank) {format : Format} {items : List Datum}
    (hd : ∀ d ∈ items, Q d) {r : α} (h : schema.decodeItems format items = .ok r) : P r := by
  unfold decodeItems at h
  obtain ⟨r', hfold, h⟩ := exists_of_bind_eq_ok h
  have hr' : P r' := by
    refine invariant_of_foldlM_eq_ok (fun f hf b b' hb hstep => ?_) hblank hfold
    obtain ⟨hfield, hitem⟩ := List.of_mem_zip hf
    obtain ⟨u, hu, rfl⟩ := exists_of_map_eq_ok hstep
    exact hfields f.1 hfield format f.2 u (hd f.2 hitem) hu b hb
  split at h
  · cases h
  · split at h
    · cases h
    · cases h
      exact hr'

/-- A record has what it has without any fields, and what every field keeps. -/
theorem yields_decode (hQ : Datum.Hereditary Q)
    (hfields : ∀ field ∈ schema.fields, field.Keeps Q P) (hblank : P schema.blank) :
    schema.decode.Yields Q P := by
  intro format d r hd hdecode
  have hcore := hQ.core hd
  have hdecode := Decoder.core_of_visit hdecode
  split at hdecode
  next heq =>
    rw [heq] at hcore
    exact keeps_decodeItems hfields hblank (hQ.seq hcore) hdecode
  next heq =>
    rw [heq] at hcore
    exact keeps_decodeItems hfields hblank (hQ.tables hcore) hdecode
  next =>
    split at hdecode
    next hseen => exact keeps_decodeFields hfields hblank (hQ.fields hcore hseen) hdecode
    next => cases hdecode

end Schema

end Records

/-! ### Deployables -/

open Decoder

/-- What is known of the parts of a deployable that was decoded, if the template and the patches
have a property each. -/
structure DeployableSpec.Sound (T P : Json → Prop) (s : DeployableSpec) : Prop where
  template : ∀ p ∈ s.template, T p.value
  channels : ∀ k ∈ s.channels, k.WellFormed
  overrides : ∀ o ∈ s.overrides, ∀ p ∈ o.patches, P p.value

section

variable {T P : Json → Prop}

theorem DeployableSpec.sound_default : (default : DeployableSpec).Sound T P :=
  ⟨nofun, nofun, nofun⟩

variable (hQ : Datum.Hereditary Q)
include hQ

theorem Override.yields_decode (hpatch : payload.Yields Q fun p => P p.value) :
    Override.schema.decode.Yields Q fun o => ∀ p ∈ o.patches, P p.value := by
  refine Schema.yields_decode hQ (List.forall_mem_cons.mpr
    ⟨?name, List.forall_mem_singleton.mpr ?patches⟩) nofun
  case name =>
    refine Field.keeps_need (yields_true _) ?_ _
    intro _ o _ ho
    exact ho
  case patches =>
    refine Field.keeps_default (hpatch.listOf hQ) ?_ _
    intro patches o hpatches _
    exact hpatches

variable (htemplate : payload.Yields (fun d => Q d ∧ d ≠ .null) fun p => T p.value)
  (hpatch : payload.Yields Q fun p => P p.value)
include htemplate hpatch

theorem DeployableSpec.yields_decode : DeployableSpec.schema.decode.Yields Q (Sound T P) := by
  refine Schema.yields_decode hQ ?_ sound_default
  simp only [DeployableSpec.schema, List.forall_mem_cons, List.not_mem_nil, false_implies,
    implies_true, and_true]
  refine ⟨?template, ?channels, ?placement, ?overrides, ?dependencies⟩
  case template =>
    refine Field.keeps_default htemplate.optional ?_ _
    intro template s htemplate hs
    exact ⟨htemplate, hs.channels, hs.overrides⟩
  case channels =>
    refine Field.keeps_default (yields_key.listOf hQ) ?_ _
    intro channels s hchannels hs
    exact ⟨hs.template, hchannels, hs.overrides⟩
  case overrides =>
    refine Field.keeps_default ((Override.yields_decode hQ hpatch).listOf hQ) ?_ _
    intro overrides s hoverrides hs
    exact ⟨hs.template, hs.channels, hoverrides⟩
  case placement | dependencies =>
    refine Field.keeps_default (yields_true _) ?_ _
    intro _ s _ hs
    exact ⟨hs.template, hs.channels, hs.overrides⟩

theorem Deployable.yields_decode :
    Deployable.schema.decode.Yields Q fun d => d.spec.Sound T P := by
  refine Schema.yields_decode hQ ?_ DeployableSpec.sound_default
  simp only [Deployable.schema, List.forall_mem_cons, List.not_mem_nil, false_implies,
    implies_true, and_true]
  refine ⟨?apiVersion, ?kind, ?metadata, ?spec⟩
  case spec =>
    refine Field.keeps_default (DeployableSpec.yields_decode hQ htemplate hpatch) ?_ _
    intro spec d hspec _
    exact hspec
  case metadata =>
    refine Field.keeps_need (yields_true _) ?_ _
    intro _ d _ hd
    exact hd
  case apiVersion | kind =>
    refine Field.keeps_default (yields_true _) ?_ _
    intro _ d _ hd
    exact hd

end

end Ferry
