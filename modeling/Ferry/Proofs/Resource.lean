import Ferry.Proofs.Decoding
import Ferry.Resource.Decode
import Ferry.Resource.Encode

/-!
# Deployables and channels read back

The encoding of each record is decoded to the record. For a deployable its channels
have to be keys that their texts give again, and its payloads must not be null.
-/
namespace Ferry

namespace ObjectKey

/-- A key whose text says it: neither part is empty or has a slash. -/
structure WellFormed (k : ObjectKey) : Prop where
  space_ne : k.space ≠ ""
  name_ne : k.name ≠ ""
  space_slash : '/' ∉ k.space.toList
  name_slash : '/' ∉ k.name.toList

instance (k : ObjectKey) : Decidable k.WellFormed :=
  decidable_of_iff (k.space ≠ "" ∧ k.name ≠ "" ∧ '/' ∉ k.space.toList ∧ '/' ∉ k.name.toList)
    ⟨fun ⟨hspace, hname, hslash, hslash'⟩ => ⟨hspace, hname, hslash, hslash'⟩,
      fun h => ⟨h.space_ne, h.name_ne, h.space_slash, h.name_slash⟩⟩

theorem parse?_text {k : ObjectKey} (hk : k.WellFormed) : parse? k.text = some k := by
  have htext : k.text.toList = k.space.toList ++ '/' :: k.name.toList := by simp [text]
  have hspace : ∀ c ∈ k.space.toList, decide (c ≠ '/') = true := by
    intro c hc
    rw [decide_eq_true_eq]
    rintro rfl
    exact hk.space_slash hc
  have htake : k.text.toList.takeWhile (· ≠ '/') = k.space.toList := by
    rw [htext, List.takeWhile_append_of_pos hspace]
    simp
  have hdrop : k.text.toList.dropWhile (· ≠ '/') = '/' :: k.name.toList := by
    rw [htext, List.dropWhile_append_of_pos hspace]
    simp
  have hspaceNe : k.space.toList ≠ [] := fun h => hk.space_ne (String.toList_eq_nil_iff.mp h)
  have hnameNe : k.name.toList ≠ [] := fun h => hk.name_ne (String.toList_eq_nil_iff.mp h)
  unfold parse?
  rw [hdrop, htake]
  change (if k.space.toList = [] ∨ k.name.toList = [] ∨ '/' ∈ k.name.toList then none
    else some ⟨String.ofList k.space.toList, String.ofList k.name.toList⟩) = some k
  rw [if_neg (by simp [hspaceNe, hnameNe, hk.name_slash])]
  simp

theorem wellFormed_of_parse? {s : String} {k : ObjectKey} (h : parse? s = some k) :
    k.WellFormed := by
  unfold parse? at h
  dsimp only at h
  split at h
  next name hdrop =>
    split at h
    next => cases h
    next hkept =>
      rw [not_or, not_or] at hkept
      obtain ⟨hspace, hname, hslash⟩ := hkept
      cases h
      refine ⟨?_, ?_, ?_, ?_⟩
      · exact fun he => hspace (by simpa using congrArg String.toList he)
      · exact fun he => hname (by simpa using congrArg String.toList he)
      · rw [String.toList_ofList]
        intro hmem
        simpa using List.all_eq_true.mp List.all_takeWhile _ hmem
      · rwa [String.toList_ofList]
  next => cases h

end ObjectKey

namespace Schema

variable {α β : Type} {schema : Schema α} {r r' : α} {fields : List (String × Json)}
  {decode : Decoder β} {encode : β → Json}

/-- A field that is left out leaves what the record has without it. -/
theorem Fills.some {set : Option β → α → α} (h : schema.Fills r fields r') (name : String)
    {o : Option β} (hfind : schema.fields.find? (·.name = name) =
      some (.default name (Decoder.optional decode) set))
    (hread : ∀ b ∈ o, decode.Reads (encode b) b ∧ encode b ≠ .null) (hnone : set none r' = r') :
    schema.Fills r (fields ++ fieldOfSome name encode o) (set o r') := by
  cases o with
  | none =>
    rw [fieldOfSome, List.append_nil, hnone]
    exact h
  | some b =>
    obtain ⟨hb, hnull⟩ := hread b rfl
    exact h.default name hfind (hb.optional hnull)

theorem Fills.items {set : List β → α → α} (h : schema.Fills r fields r') (name : String)
    {items : List β}
    (hfind : schema.fields.find? (·.name = name) =
      .some (.default name (Decoder.listOf decode) set))
    (hread : ∀ b ∈ items, decode.Reads (encode b) b) (hnil : set [] r' = r') :
    schema.Fills r (fields ++ fieldOfItems name encode items) (set items r') := by
  cases items with
  | nil =>
    rw [fieldOfItems, List.append_nil, hnil]
    exact h
  | cons b items => exact h.default name hfind (Decoder.reads_listOf hread)

theorem Fills.entries {set : StringMap → α → α} (h : schema.Fills r fields r') (name : String)
    {m : StringMap}
    (hfind : schema.fields.find? (·.name = name) = .some (.default name Decoder.stringMap set))
    (hempty : set .empty r' = r') :
    schema.Fills r (fields ++ fieldOfEntries name m) (set m r') := by
  unfold fieldOfEntries
  split
  next hentries =>
    have hm : m = .empty := by
      obtain ⟨entries, _⟩ := m
      obtain rfl : entries = [] := List.isEmpty_iff.mp hentries
      rfl
    rw [hm, hempty, List.append_nil]
    exact h
  next => exact h.default name hfind (Decoder.reads_stringMap m)

end Schema

open Decoder
open Schema (reads_of_fills)

/-! ### Parts that are not null -/

theorem Decoder.reads_str (s : String) : string.Reads (.str s) s ∧ Json.str s ≠ .null :=
  ⟨reads_string s, by simp⟩

theorem StringMap.reads_encode (m : StringMap) :
    stringMap.Reads m.encode m ∧ StringMap.encode m ≠ .null :=
  ⟨reads_stringMap m, by simp [encode]⟩

/-! ### Records -/

theorem OwnerReference.reads_encode (o : OwnerReference) :
    OwnerReference.schema.decode.Reads o.encode o := by
  have hversion := schema.fills_blank.need "api_version" rfl (reads_string o.apiVersion)
  have hkind := hversion.need "kind" rfl (reads_string o.kind)
  have hname := hkind.need "name" rfl (reads_string o.name)
  have huid := hname.some "uid" rfl (fun s (_ : s ∈ o.uid) => reads_str s) rfl
  exact reads_of_fills huid (by simp [schema]) (by simp [schema]) rfl

theorem Metadata.reads_encode (m : Metadata) : Metadata.schema.decode.Reads m.encode m := by
  have hname := schema.fills_blank.default "name" rfl (reads_string m.name)
  have hspace := hname.default "namespace" rfl (reads_string m.space)
  have hstart := hspace.some "generate_name" rfl (fun s (_ : s ∈ m.generateName) => reads_str s) rfl
  have huid := hstart.some "uid" rfl (fun s (_ : s ∈ m.uid) => reads_str s) rfl
  have htime := huid.some "creation_timestamp" rfl
    (fun t (_ : t ∈ m.createdAt) => ⟨reads_timestamp t, (reads_str _).2⟩) rfl
  have hlabels := htime.entries "labels" (m := m.labels) rfl rfl
  have hannotations := hlabels.some "annotations" rfl
    (fun a (_ : a ∈ m.annotations) => StringMap.reads_encode a) rfl
  have howners := hannotations.items "owner_references" rfl
    (fun o (_ : o ∈ m.owners) => o.reads_encode) rfl
  exact reads_of_fills howners (by simp [schema]) (by simp [schema]) rfl

theorem Placement.reads_encode (p : Placement) : Placement.schema.decode.Reads p.encode p := by
  have hclusters := schema.fills_blank.items "clusters" rfl
    (fun s (_ : s ∈ p.clusters) => reads_string s) rfl
  have hselector := hclusters.entries "cluster_selector" (m := p.clusterSelector) rfl rfl
  exact reads_of_fills hselector (by simp [schema]) (by simp [schema]) rfl

theorem Override.reads_encode (o : Override) : Override.schema.decode.Reads o.encode o := by
  have hcluster := schema.fills_blank.need "cluster_name" rfl (reads_string o.clusterName)
  have hpatches := hcluster.default "patches" rfl
    (reads_listOf fun p (_ : p ∈ o.patches) => reads_payload p)
  exact reads_of_fills hpatches (by simp [schema]) (by simp [schema]) rfl

theorem Dependency.reads_encode (d : Dependency) : Dependency.schema.decode.Reads d.encode d := by
  have hkind := schema.fills_blank.need "kind" rfl (reads_string d.kind)
  have hname := hkind.need "name" rfl (reads_string d.name)
  have hspace := hname.some "namespace" rfl (fun s (_ : s ∈ d.space) => reads_str s) rfl
  exact reads_of_fills hspace (by simp [schema]) (by simp [schema]) rfl

theorem DeployableSpec.reads_encode {s : DeployableSpec}
    (htemplate : ∀ p ∈ s.template, p.value ≠ .null) (hkeys : ∀ k ∈ s.channels, k.WellFormed) :
    DeployableSpec.schema.decode.Reads s.encode s := by
  have htemplates := schema.fills_blank.some "template" rfl
    (fun p hp => ⟨reads_payload p, htemplate p hp⟩) rfl
  have hchannels := htemplates.items "channels" rfl
    (fun k hk => reads_key (k.parse?_text (hkeys k hk))) rfl
  have hplacement := hchannels.some "placement" rfl
    (fun p (_ : p ∈ s.placement) => ⟨p.reads_encode, by simp [Placement.encode]⟩) rfl
  have hoverrides := hplacement.items "overrides" rfl
    (fun o (_ : o ∈ s.overrides) => o.reads_encode) rfl
  have hdependencies := hoverrides.items "dependencies" rfl
    (fun d (_ : d ∈ s.dependencies) => d.reads_encode) rfl
  exact reads_of_fills hdependencies (by simp [schema]) (by simp [schema]) rfl

/-- A deployable is read from what it is written as, if it declares keys that their texts give and
has no null for its template. -/
theorem Deployable.reads_encode {d : Deployable}
    (htemplate : ∀ p ∈ d.spec.template, p.value ≠ .null)
    (hkeys : ∀ k ∈ d.spec.channels, k.WellFormed) : Deployable.schema.decode.Reads d.encode d := by
  have hversion := schema.fills_blank.default "api_version" rfl (reads_string d.apiVersion)
  have hkind := hversion.default "kind" rfl (reads_string d.kind)
  have hmetadata := hkind.need "metadata" rfl d.metadata.reads_encode
  have hspec := hmetadata.default "spec" rfl (DeployableSpec.reads_encode htemplate hkeys)
  exact reads_of_fills hspec (by simp [schema]) (by simp [schema, Deployable.fields]) rfl

theorem ChannelGate.reads_encode (g : ChannelGate) :
    ChannelGate.schema.decode.Reads g.encode g := by
  have hannotations := schema.fills_blank.some "annotations" rfl
    (fun a (_ : a ∈ g.annotations) => StringMap.reads_encode a) rfl
  exact reads_of_fills hannotations (by simp [schema]) (by simp [schema]) rfl

theorem ChannelSpec.reads_encode (s : ChannelSpec) :
    ChannelSpec.schema.decode.Reads s.encode s := by
  have hgates := schema.fills_blank.some "gates" rfl
    (fun g (_ : g ∈ s.gates) => ⟨g.reads_encode, by simp [ChannelGate.encode]⟩) rfl
  have hspaces := hgates.some "source_namespaces" rfl
    (fun names (_ : names ∈ s.sourceSpaces) =>
      ⟨reads_listOf fun s _ => reads_string s, by simp⟩) rfl
  exact reads_of_fills hspaces (by simp [schema]) (by simp [schema]) rfl

theorem Channel.reads_encode (c : Channel) : Channel.schema.decode.Reads c.encode c := by
  have hversion := schema.fills_blank.default "api_version" rfl (reads_string c.apiVersion)
  have hkind := hversion.default "kind" rfl (reads_string c.kind)
  have hmetadata := hkind.need "metadata" rfl c.metadata.reads_encode
  have hspec := hmetadata.default "spec" rfl c.spec.reads_encode
  exact reads_of_fills hspec (by simp [schema]) (by simp [schema]) rfl

end Ferry
