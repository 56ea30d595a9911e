import Ferry.Proofs.Decoded
import Ferry.Proofs.Toml.Integers

/-!
# Manifests that were loaded

Whatever text a manifest is read from, it is valid, the channels that its
deployables declare are keys that their texts give again, and all integers in its
payloads have 64 bits.
-/
namespace Ferry

open Json

namespace Datum

theorem intsFit_core {d : Datum} : d.core.IntsFit ↔ d.IntsFit := by
  rw [IntsFit, toJson_core]
  rfl

theorem hereditary_intsFit : Hereditary IntsFit where
  core hd := intsFit_core.mpr hd
  seq hd := intsFit_seq.mp hd
  tables hd := intsFit_tables.mp hd
  fields hd hseen := by
    unfold Decoder.fields? at hseen
    split at hseen
    next =>
      cases hseen
      exact intsFit_map.mp hd
    next =>
      cases hseen
      exact List.forall_mem_singleton.mpr trivial
    next => cases hseen

end Datum

open Decoder

theorem Decoder.yields_payload : payload.Yields Datum.IntsFit fun p => p.value.IntsFit := by
  intro format d p hd hdecode
  cases hdecode
  exact Every.normalize structural_fitsInt64 hd

namespace Manifest

theorem yields_decode : Manifest.schema.decode.Yields Datum.IntsFit fun m =>
    ∀ d ∈ m.deployables, d.spec.Sound IntsFit IntsFit := by
  have hdeployable : Deployable.schema.decode.Yields Datum.IntsFit fun d =>
      d.spec.Sound IntsFit IntsFit :=
    Deployable.yields_decode Datum.hereditary_intsFit
      (fun format d p hd hdecode => yields_payload format d p hd.1 hdecode) yields_payload
  refine Schema.yields_decode Datum.hereditary_intsFit (List.forall_mem_cons.mpr
    ⟨?deployables, List.forall_mem_singleton.mpr ?channels⟩) ?blank
  case deployables =>
    refine Field.keeps_default (hdeployable.listOf Datum.hereditary_intsFit) ?_ _
    intro deployables m hdeployables _
    exact hdeployables
  case channels =>
    refine Field.keeps_default (yields_true _) ?_ _
    intro _ m _ hm
    exact hm
  case blank =>
    intro d hd
    exact absurd hd List.not_mem_nil

structure Loaded (m : Manifest) : Prop where
  valid : m.validate = .ok ()
  channels : ∀ d ∈ m.deployables, d.NamesChannels
  ints : ∀ d ∈ m.deployables, ∀ p ∈ d.payloads, p.value.IntsFit

theorem loaded_of_parse {text : String} {m : Manifest} (h : parse text = .ok m) : m.Loaded := by
  unfold parse at h
  split at h
  · cases h
  next m' hdecoded =>
    obtain ⟨_, hvalid, hm⟩ := exists_of_bind_eq_ok h
    cases hm
    unfold Toml.decodeText at hdecoded
    split at hdecoded
    · cases hdecoded
    next node hnode =>
      split at hdecoded
      next hdecode =>
        cases hdecoded
        have hsound := yields_decode .toml _ m (Toml.intsFit_of_readDocument hnode) hdecode
        exact ⟨hvalid, fun d hd => (hsound d hd).channels, fun d hd =>
          Deployable.forall_mem_payloads.mpr ⟨(hsound d hd).template, (hsound d hd).overrides⟩⟩
      next => cases hdecoded

end Manifest

end Ferry
