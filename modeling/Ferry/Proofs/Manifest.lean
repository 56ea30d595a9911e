import Ferry.Proofs.Payloads
import Ferry.Proofs.Resource
import Ferry.Proofs.Toml.Writable

/-!
# Manifests read back

A manifest that is valid is read back from its text if its payloads have a TOML
form and do not nest too deep, and if the channels that its deployables declare are
keys that their texts give again.
-/
namespace Ferry

open Json
open Toml (maxKeyParts)

/-! ### Fields of an encoding -/

theorem StringMap.writableAt {keys : Nat} (m : StringMap) (hkeys : keys ≤ maxKeyParts) :
    m.encode.WritableAt keys := by
  have hnames : ((m.entries.map fun e => (e.1, Json.str e.2)).map Prod.fst).Nodup := by
    rw [List.map_map]
    exact m.nodup_keys
  refine WritableTable.writableAt hkeys (.intro hnames ?_)
  clear hnames
  induction m.entries with
  | nil => exact .nil
  | cons e entries ih => exact .cons (writableAt_str _ _) ih

theorem ObjectKey.writableAt (keys : Nat) (channels : List ObjectKey) :
    (arr (channels.map ObjectKey.encode)).WritableAt keys := by
  have h := writableAt_strs keys (channels.map ObjectKey.text)
  rwa [List.map_map] at h

/-- Fields whose names are some out of a list, in its order, and whose values have a property. -/
structure FieldsAmong (P : Json → Prop) (names : List String) (fields : List (String × Json)) :
    Prop where
  names : (fields.map Prod.fst).Sublist names
  values : ∀ f ∈ fields, P f.2

namespace FieldsAmong

variable {α : Type} {P : Json → Prop} {names : List String} {fields : List (String × Json)}
  {encode : α → Json}

theorem nil (P : Json → Prop) : FieldsAmong P [] [] := ⟨.slnil, by simp⟩

theorem without (h : FieldsAmong P names fields) (name : String) :
    FieldsAmong P (names ++ [name]) (fields ++ []) := by
  rw [List.append_nil]
  exact ⟨h.names.trans (List.sublist_append_left _ _), h.values⟩

theorem field (h : FieldsAmong P names fields) (name : String) {v : Json} (hv : P v) :
    FieldsAmong P (names ++ [name]) (fields ++ [(name, v)]) := by
  constructor
  · rw [List.map_append]
    exact h.names.append (.refl _)
  · exact List.forall_mem_append.mpr ⟨h.values, List.forall_mem_singleton.mpr hv⟩

theorem some (h : FieldsAmong P names fields) (name : String) {o : Option α}
    (ho : ∀ a ∈ o, P (encode a)) :
    FieldsAmong P (names ++ [name]) (fields ++ fieldOfSome name encode o) := by
  cases o with
  | none => exact h.without name
  | some a => exact h.field name (ho a rfl)

theorem items (h : FieldsAmong P names fields) (name : String) {items : List α}
    (hitems : P (arr (items.map encode))) :
    FieldsAmong P (names ++ [name]) (fields ++ fieldOfItems name encode items) := by
  cases items with
  | nil => exact h.without name
  | cons a items => exact h.field name hitems

theorem entries (h : FieldsAmong P names fields) (name : String) {m : StringMap}
    (hm : P m.encode) : FieldsAmong P (names ++ [name]) (fields ++ fieldOfEntries name m) := by
  unfold fieldOfEntries
  split
  · exact h.without name
  · exact h.field name hm

theorem writableTable {keys : Nat} (h : FieldsAmong (WritableAt keys) names fields)
    (hnames : names.Nodup) : WritableTable keys (obj fields) := by
  refine .intro (hnames.sublist h.names) ?_
  have hvalues := h.values
  clear h
  induction fields with
  | nil => exact .nil
  | cons f fields ih =>
    obtain ⟨hv, hrest⟩ := List.forall_mem_cons.mp hvalues
    exact .cons hv (ih hrest)

theorem distinctNames (h : FieldsAmong (Every DistinctNames) names fields)
    (hnames : names.Nodup) : (obj fields).Every DistinctNames :=
  ⟨hnames.sublist h.names, everyField_iff.mpr h.values⟩

end FieldsAmong

/-! ### Encodings -/

section Encodings

open FieldsAmong (nil)

variable {keys : Nat}

theorem OwnerReference.writableTable (o : OwnerReference) : WritableTable keys o.encode := by
  have hversion := (nil (WritableAt keys)).field "api_version" (writableAt_str _ o.apiVersion)
  have hkind := hversion.field "kind" (writableAt_str _ o.kind)
  have hname := hkind.field "name" (writableAt_str _ o.name)
  have huid := hname.some "uid" (fun s (_ : s ∈ o.uid) => writableAt_str _ s)
  exact huid.writableTable (by decide)

theorem Metadata.writableTable (m : Metadata) (hkeys : keys ≤ maxKeyParts) :
    WritableTable keys m.encode := by
  have howner : ∀ v ∈ m.owners.map OwnerReference.encode, WritableTable (keys + 1) v :=
    List.forall_mem_map.mpr fun o _ => o.writableTable
  have hname := (nil (WritableAt keys)).field "name" (writableAt_str _ m.name)
  have hspace := hname.field "namespace" (writableAt_str _ m.space)
  have hstart := hspace.some "generate_name" (fun s (_ : s ∈ m.generateName) => writableAt_str _ s)
  have huid := hstart.some "uid" (fun s (_ : s ∈ m.uid) => writableAt_str _ s)
  have htime := huid.some "creation_timestamp"
    (fun t (_ : t ∈ m.createdAt) => writableAt_str _ t.toText)
  have hlabels := htime.entries "labels" (m.labels.writableAt hkeys)
  have hannotations := hlabels.some "annotations"
    (fun a (_ : a ∈ m.annotations) => StringMap.writableAt a hkeys)
  have howners := hannotations.items "owner_references" (writableAt_tables hkeys howner)
  exact howners.writableTable (by decide)

theorem Placement.writableTable (p : Placement) (hkeys : keys ≤ maxKeyParts) :
    WritableTable keys p.encode := by
  have hclusters := (nil (WritableAt keys)).items "clusters" (writableAt_strs _ p.clusters)
  have hselector := hclusters.entries "cluster_selector" (p.clusterSelector.writableAt hkeys)
  exact hselector.writableTable (by decide)

theorem Override.writableTable {o : Override}
    (hpatches : (arr (o.patches.map Payload.value)).WritableAt keys) :
    WritableTable keys o.encode := by
  have hcluster := (nil (WritableAt keys)).field "cluster_name" (writableAt_str _ o.clusterName)
  exact (hcluster.field "patches" hpatches).writableTable (by decide)

theorem Dependency.writableTable (d : Dependency) : WritableTable keys d.encode := by
  have hkind := (nil (WritableAt keys)).field "kind" (writableAt_str _ d.kind)
  have hname := hkind.field "name" (writableAt_str _ d.name)
  have hspace := hname.some "namespace" (fun s (_ : s ∈ d.space) => writableAt_str _ s)
  exact hspace.writableTable (by decide)

theorem DeployableSpec.writableTable {s : DeployableSpec} (hkeys : keys + 1 ≤ maxKeyParts)
    (htemplate : ∀ p ∈ s.template, p.value.WritableAt keys)
    (hpatches : ∀ o ∈ s.overrides, (arr (o.patches.map Payload.value)).WritableAt (keys + 1)) :
    WritableTable keys s.encode := by
  have hkeys' : keys ≤ maxKeyParts := Nat.le_of_succ_le hkeys
  have hoverride : ∀ v ∈ s.overrides.map Override.encode, WritableTable (keys + 1) v :=
    List.forall_mem_map.mpr fun o ho => Override.writableTable (hpatches o ho)
  have hdependency : ∀ v ∈ s.dependencies.map Dependency.encode, WritableTable (keys + 1) v :=
    List.forall_mem_map.mpr fun d _ => d.writableTable
  have htemplates := (nil (WritableAt keys)).some "template" htemplate
  have hchannels := htemplates.items "channels" (ObjectKey.writableAt _ s.channels)
  have hplacement := hchannels.some "placement"
    (fun p (_ : p ∈ s.placement) => (p.writableTable hkeys).writableAt hkeys')
  have hoverrides := hplacement.items "overrides" (writableAt_tables hkeys' hoverride)
  have hdependencies := hoverrides.items "dependencies" (writableAt_tables hkeys' hdependency)
  exact hdependencies.writableTable (by decide)

theorem ChannelGate.writableTable (g : ChannelGate) (hkeys : keys ≤ maxKeyParts) :
    WritableTable keys g.encode := by
  have hannotations := (nil (WritableAt keys)).some "annotations"
    (fun a (_ : a ∈ g.annotations) => StringMap.writableAt a hkeys)
  exact hannotations.writableTable (by decide)

theorem ChannelSpec.writableTable (s : ChannelSpec) (hkeys : keys + 1 ≤ maxKeyParts) :
    WritableTable keys s.encode := by
  have hgates := (nil (WritableAt keys)).some "gates"
    (fun g (_ : g ∈ s.gates) => (g.writableTable hkeys).writableAt (Nat.le_of_succ_le hkeys))
  have hspaces := hgates.some "source_namespaces"
    (fun names (_ : names ∈ s.sourceSpaces) => writableAt_strs _ names)
  exact hspaces.writableTable (by decide)

theorem Channel.writableTable (c : Channel) (hkeys : keys + 2 ≤ maxKeyParts) :
    WritableTable keys c.encode := by
  have hversion := (nil (WritableAt keys)).field "api_version" (writableAt_str _ c.apiVersion)
  have hkind := hversion.field "kind" (writableAt_str _ c.kind)
  have hmetadata := hkind.field "metadata"
    ((c.metadata.writableTable (by omega)).writableAt (by omega))
  have hspec := hmetadata.field "spec" ((c.spec.writableTable (by omega)).writableAt (by omega))
  exact hspec.writableTable (by decide)

end Encodings

namespace Deployable

/-- No payload nests so deep that its text would be refused. The template has a path of three keys
in a manifest, and the patches have one of four. -/
structure Fits (d : Deployable) : Prop where
  template : ∀ p ∈ d.spec.template, p.value.fits 3 = true
  patches : ∀ o ∈ d.spec.overrides, (arr (o.patches.map Payload.value)).fits 4 = true

/-- All payloads have a TOML form: there is no null in them, and all integers have 64 bits. -/
def HasToml (d : Deployable) : Prop := ∀ p ∈ d.payloads, p.value.Storable

/-- The channels that a deployable declares are keys that their texts give again. -/
def NamesChannels (d : Deployable) : Prop := ∀ k ∈ d.spec.channels, k.WellFormed

instance (d : Deployable) : Decidable d.Fits :=
  decidable_of_iff ((∀ p ∈ d.spec.template, p.value.fits 3 = true) ∧
      ∀ o ∈ d.spec.overrides, (arr (o.patches.map Payload.value)).fits 4 = true)
    ⟨fun ⟨htemplate, hpatches⟩ => ⟨htemplate, hpatches⟩, fun h => ⟨h.template, h.patches⟩⟩

instance (d : Deployable) : Decidable d.HasToml :=
  inferInstanceAs (Decidable (∀ p ∈ d.payloads, p.value.Storable))

instance (d : Deployable) : Decidable d.NamesChannels :=
  inferInstanceAs (Decidable (∀ k ∈ d.spec.channels, k.WellFormed))

theorem writableTable {d : Deployable} (hfits : d.Fits) : WritableTable 2 d.encode := by
  have htemplate : ∀ p ∈ d.spec.template, p.value.WritableAt 3 := fun p hp =>
    ⟨p.normal.distinctNames, hfits.template p hp⟩
  have hpatches : ∀ o ∈ d.spec.overrides, (arr (o.patches.map Payload.value)).WritableAt 4 :=
    fun o ho => ⟨⟨trivial, everyItem_iff.mpr (List.forall_mem_map.mpr fun p _ =>
      p.normal.distinctNames)⟩, hfits.patches o ho⟩
  have hversion :=
    (FieldsAmong.nil (WritableAt 2)).field "api_version" (writableAt_str _ d.apiVersion)
  have hkind := hversion.field "kind" (writableAt_str _ d.kind)
  have hmetadata := hkind.field "metadata"
    ((d.metadata.writableTable (by decide)).writableAt (by decide))
  have hspec := hmetadata.field "spec"
    ((DeployableSpec.writableTable (by decide) htemplate hpatches).writableAt (by decide))
  exact hspec.writableTable (by decide)

end Deployable

theorem Decoder.Reads.decodeText {α : Type} {decode : Decoder α} {v : Json} {a : α}
    (h : decode.Reads v a) {text : String} {node : Toml.Node}
    (hread : Toml.readDocument text.toList = .ok node) (hshows : v.Shows (.ofNode node)) :
    Toml.decodeText decode text = .ok a := by
  rw [Toml.decodeText, hread]
  dsimp only
  rw [h .toml _ hshows]

namespace Manifest

theorem reads_encode {m : Manifest}
    (htemplate : ∀ d ∈ m.deployables, ∀ p ∈ d.spec.template, p.value ≠ .null)
    (hkeys : ∀ d ∈ m.deployables, d.NamesChannels) : Manifest.schema.decode.Reads m.encode m := by
  have hdeployables := schema.fills_blank.default "deployables" rfl
    (Decoder.reads_listOf fun d hd => d.reads_encode (htemplate d hd) (hkeys d hd))
  have hchannels := hdeployables.default "channels" rfl
    (Decoder.reads_listOf fun c (_ : c ∈ m.channels) => c.reads_encode)
  exact Schema.reads_of_fills hchannels (by simp [schema]) (by simp [schema]) rfl

theorem writableFields {m : Manifest} (hfits : ∀ d ∈ m.deployables, d.Fits) :
    WritableFields 1 m.fields := by
  have hdeployable : ∀ v ∈ m.deployables.map Deployable.encode, WritableTable 2 v :=
    List.forall_mem_map.mpr fun d hd => d.writableTable (hfits d hd)
  have hchannel : ∀ v ∈ m.channels.map Channel.encode, WritableTable 2 v :=
    List.forall_mem_map.mpr fun c _ => c.writableTable (by decide)
  exact .cons (writableAt_tables (by decide) hdeployable)
    (.cons (writableAt_tables (by decide) hchannel) .nil)

/-- A manifest can be written if everything in its payloads can. -/
theorem toToml_eq_ok_iff {m : Manifest} {text : String} :
    m.toToml = .ok text ↔ (∀ d ∈ m.deployables, ∀ p ∈ d.payloads, p.value.Every HasText) ∧
      String.ofList (Toml.writeDocument m.fields) = text := by
  rw [← everyField_fields structural_hasText m, ← writeErrorFields?_eq_none_iff, toToml,
    Toml.render]
  cases Toml.writeErrorFields? m.fields <;> simp [Except.mapError]

/-- A manifest whose integers have 64 bits has at most a null that cannot be written. -/
theorem toToml_of_intsFit {m : Manifest}
    (h : ∀ d ∈ m.deployables, ∀ p ∈ d.payloads, p.value.IntsFit) :
    (∃ text, m.toToml = .ok text) ∨
      m.toToml = .error (.serialize Toml.WriteError.null.message) := by
  have hints := writeErrorFields?_ne_tooLarge ((everyField_fields structural_fitsInt64 m).mpr h)
  unfold toToml Toml.render
  cases herror : Toml.writeErrorFields? m.fields with
  | none => exact .inl ⟨_, rfl⟩
  | some e =>
    cases e with
    | null => exact .inr rfl
    | tooLarge => exact absurd herror hints

theorem toToml_of_hasToml {m : Manifest} (hform : ∀ d ∈ m.deployables, d.HasToml) :
    m.toToml = .ok (String.ofList (Toml.writeDocument m.fields)) :=
  toToml_eq_ok_iff.mpr ⟨fun d hd p hp => (storable_iff_above.mp (hform d hd p hp)).1, rfl⟩

theorem parse_of_shows {m : Manifest} (hvalid : m.validate = .ok ())
    (hkeys : ∀ d ∈ m.deployables, d.NamesChannels)
    (hnull : ∀ d ∈ m.deployables, ∀ p ∈ d.spec.template, p.value ≠ .null) {text : String}
    {node : Toml.Node} (hread : Toml.readDocument text.toList = .ok node)
    (hshows : (obj m.fields).Shows (.ofNode node)) : parse text = .ok m := by
  rw [parse, (reads_encode hnull hkeys).decodeText hread hshows]
  dsimp only
  rw [hvalid]
  rfl

/-- The text of a manifest that can be written is read as the manifest. -/
theorem parse_writeDocument {m : Manifest} (hvalid : m.validate = .ok ())
    (hkeys : ∀ d ∈ m.deployables, d.NamesChannels) (hform : ∀ d ∈ m.deployables, d.HasToml)
    (hfits : ∀ d ∈ m.deployables, d.Fits) :
    parse (String.ofList (Toml.writeDocument m.fields)) = .ok m := by
  have hwritable := writableFields hfits
  have hnull : ∀ d ∈ m.deployables, ∀ p ∈ d.spec.template, p.value ≠ .null :=
    fun d hd => Deployable.template_ne_null id (hform d hd)
  obtain ⟨node, hread, hshows⟩ := Toml.readDocument_writeDocument
    ((everyField_fields structural_hasToml m).mpr hform) hwritable.names (by simp [fields])
    hwritable.fits
  exact parse_of_shows hvalid hkeys hnull (by rwa [String.toList_ofList]) hshows

/-- A valid manifest can be written, and it is read from its text as it was: with the order of
deployables and channels, and with what is absent kept apart from what is empty. -/
theorem parse_toToml {m : Manifest} (hvalid : m.validate = .ok ())
    (hkeys : ∀ d ∈ m.deployables, d.NamesChannels) (hform : ∀ d ∈ m.deployables, d.HasToml)
    (hfits : ∀ d ∈ m.deployables, d.Fits) : ∃ text, m.toToml = .ok text ∧ parse text = .ok m :=
  ⟨_, toToml_of_hasToml hform, parse_writeDocument hvalid hkeys hform hfits⟩

def mixed : Manifest where
  deployables :=
    [((Deployable.new "ns" "app").withChannel ⟨"ns", "stable"⟩).withTemplate (.ofJson (.obj
      [("", .arr [.int (-1), .obj [("a.b", .bool true)], .arr []]), ("text", .str "\u00e9\n'\"")]))]
  channels := [(Channel.new "ns" "stable").withGate]

theorem mixed_reads_back : mixed.validate = .ok () ∧ (∀ d ∈ mixed.deployables, d.NamesChannels) ∧
    (∀ d ∈ mixed.deployables, d.HasToml) ∧ (∀ d ∈ mixed.deployables, d.Fits) ∧
      ∃ text, mixed.toToml = .ok text ∧ parse text = .ok mixed := by
  have hvalid : mixed.validate = .ok () := rfl
  have hkeys : ∀ d ∈ mixed.deployables, d.NamesChannels :=
    List.forall_mem_singleton.mpr (List.forall_mem_singleton.mpr
      ⟨by decide, by decide, by decide, by decide⟩)
  have hform : ∀ d ∈ mixed.deployables, d.HasToml :=
    List.forall_mem_singleton.mpr (List.forall_mem_singleton.mpr
      ⟨trivial,
        ⟨trivial, ⟨by decide, by decide⟩, ⟨trivial, trivial, trivial⟩, ⟨trivial, trivial⟩, trivial⟩,
        trivial, trivial⟩)
  have hfits : ∀ d ∈ mixed.deployables, d.Fits :=
    List.forall_mem_singleton.mpr ⟨fun p hp => by cases hp; rfl, nofun⟩
  exact ⟨hvalid, hkeys, hform, hfits, parse_toToml hvalid hkeys hform hfits⟩

end Manifest

end Ferry
