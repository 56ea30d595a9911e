import Ferry.Manifest
import Ferry.Proofs.Every

/-!
# Payloads in an encoding

A property that all texts, arrays and objects have holds of everything in an encoded
manifest, if it holds of everything in the payloads of its deployables.
-/
namespace Ferry

namespace Json

section

variable {α : Type} {P : Json → Prop} {name : String} {encode : α → Json}
  {fields fields' : List (String × Json)}

theorem everyField_append :
    EveryField P (fields ++ fields') ↔ EveryField P fields ∧ EveryField P fields' := by
  simp only [everyField_iff, List.forall_mem_append]

theorem everyField_fieldOfSome {o : Option α} :
    EveryField P (fieldOfSome name encode o) ↔ ∀ a ∈ o, (encode a).Every P := by
  cases o <;> simp [fieldOfSome, EveryField]

theorem everyField_fieldOfItems (harr : ∀ items, P (.arr items)) {items : List α} :
    EveryField P (fieldOfItems name encode items) ↔ ∀ a ∈ items, (encode a).Every P := by
  cases items with
  | nil => simp [fieldOfItems, EveryField]
  | cons a items =>
    change (Json.arr ((a :: items).map encode)).Every P ∧ True ↔ _
    rw [and_true, every_arr harr, List.forall_mem_map]

namespace Structural

variable (hP : Structural P)
include hP

theorem every_str (s : String) : (Json.str s).Every P := hP.str s

theorem every_stringMap (m : StringMap) : m.encode.Every P := by
  rw [StringMap.encode, hP.every_obj, everyField_iff, List.forall_mem_map]
  exact fun e _ => hP.str e.2

theorem everyField_fieldOfEntries (m : StringMap) : EveryField P (fieldOfEntries name m) := by
  unfold fieldOfEntries
  split
  · trivial
  · exact ⟨hP.every_stringMap m, trivial⟩

end Structural

end

end Json

open Json

variable {P : Json → Prop} (hP : Structural P)
include hP

theorem OwnerReference.every_encode (o : OwnerReference) : o.encode.Every P := by
  simp only [OwnerReference.encode, hP.every_obj, everyField_append, everyField_fieldOfSome,
    EveryField, hP.every_str, and_true, implies_true]

theorem Metadata.every_encode (m : Metadata) : m.encode.Every P := by
  simp only [Metadata.encode, hP.every_obj, everyField_append, everyField_fieldOfSome,
    everyField_fieldOfItems hP.arr, hP.everyField_fieldOfEntries, hP.every_stringMap, EveryField,
    hP.every_str, OwnerReference.every_encode hP, and_true, implies_true]

theorem Placement.every_encode (p : Placement) : p.encode.Every P := by
  simp only [Placement.encode, hP.every_obj, everyField_append, everyField_fieldOfItems hP.arr,
    hP.everyField_fieldOfEntries, hP.every_str, and_true, implies_true]

theorem Dependency.every_encode (d : Dependency) : d.encode.Every P := by
  simp only [Dependency.encode, hP.every_obj, everyField_append, everyField_fieldOfSome,
    EveryField, hP.every_str, and_true, implies_true]

theorem Override.every_encode (o : Override) :
    o.encode.Every P ↔ ∀ p ∈ o.patches, p.value.Every P := by
  simp only [Override.encode, hP.every_obj, EveryField, hP.every_arr, List.forall_mem_map,
    hP.every_str, and_true, true_and]

theorem ChannelGate.every_encode (g : ChannelGate) : g.encode.Every P := by
  simp only [ChannelGate.encode, hP.every_obj, everyField_fieldOfSome, hP.every_stringMap,
    implies_true]

theorem ChannelSpec.every_encode (s : ChannelSpec) : s.encode.Every P := by
  simp only [ChannelSpec.encode, hP.every_obj, everyField_append, everyField_fieldOfSome,
    hP.every_arr, List.forall_mem_map, hP.every_str, ChannelGate.every_encode hP, and_true,
    implies_true]

theorem Channel.every_encode (c : Channel) : c.encode.Every P := by
  simp only [Channel.encode, hP.every_obj, EveryField, hP.every_str, Metadata.every_encode hP,
    ChannelSpec.every_encode hP, and_true]

namespace Deployable

omit hP in
def payloads (d : Deployable) : List Payload :=
  d.spec.template.toList ++ d.spec.overrides.flatMap Override.patches

omit hP in
theorem forall_mem_payloads {d : Deployable} {Q : Payload → Prop} :
    (∀ p ∈ d.payloads, Q p) ↔
      (∀ p ∈ d.spec.template, Q p) ∧ ∀ o ∈ d.spec.overrides, ∀ p ∈ o.patches, Q p := by
  simp only [payloads, List.forall_mem_append, Option.mem_toList, List.forall_mem_flatMap,
    Option.mem_def]

omit hP in
theorem template_ne_null {d : Deployable} (hnull : ¬ P .null)
    (h : ∀ p ∈ d.payloads, p.value.Every P) : ∀ p ∈ d.spec.template, p.value ≠ .null := by
  intro p hp heq
  have htemplate := (forall_mem_payloads.mp h).1 p hp
  rw [heq] at htemplate
  exact hnull htemplate

theorem every_encode (d : Deployable) : d.encode.Every P ↔ ∀ p ∈ d.payloads, p.value.Every P := by
  rw [forall_mem_payloads]
  simp only [encode, fields, DeployableSpec.encode, hP.every_obj, EveryField, everyField_append,
    everyField_fieldOfSome, everyField_fieldOfItems hP.arr, hP.every_str, Metadata.every_encode hP,
    Placement.every_encode hP, Dependency.every_encode hP, Override.every_encode hP,
    ObjectKey.encode, and_true, true_and, implies_true]

end Deployable

/-- Of a manifest only the payloads matter. -/
theorem Manifest.everyField_fields (m : Manifest) :
    EveryField P m.fields ↔ ∀ d ∈ m.deployables, ∀ p ∈ d.payloads, p.value.Every P := by
  simp only [fields, EveryField, hP.every_arr, List.forall_mem_map, Deployable.every_encode hP,
    Channel.every_encode hP, and_true, implies_true]

end Ferry
