import Ferry.Proofs.Decoded

/-!
# Records and untyped values

Deployables and channels are encoded as untyped values and decoded from them again.
What is decoded from any untyped value, with fields missing, unknown or given by
position, is decoded from its own encoding as well: the first decoding has settled
all defaults.
-/
namespace Ferry

open Json Decoder

/-! ### Values without places -/

namespace Json

mutual

/-- A value presents itself, if the names of fields differ. -/
theorem shows_ofJson : ∀ {v : Json}, v.Every DistinctNames → v.Shows (.ofJson v)
  | null, _ | bool _, _ | int _, _ | float _, _ | str _, _ => by
    rw [Datum.ofJson, Shows]
    rfl
  | arr items, h => by
    rw [Datum.ofJson, Shows]
    exact ⟨_, .inl rfl, showsItems_ofJsonItems h.2⟩
  | obj fields, h => by
    have hfields := showsFields_ofJsonFields h.2
    rw [Datum.ofJson, Shows]
    refine ⟨_, _, rfl, .refl _, ?_, hfields⟩
    rw [hfields.map_fst]
    exact h.1

theorem showsItems_ofJsonItems : ∀ {items : List Json}, EveryItem DistinctNames items →
    ShowsItems items (Datum.ofJsonItems items)
  | [], _ => by rw [Datum.ofJsonItems, ShowsItems]
  | v :: items, h => by
    rw [Datum.ofJsonItems, ShowsItems]
    exact ⟨_, _, rfl, shows_ofJson h.1, showsItems_ofJsonItems h.2⟩

theorem showsFields_ofJsonFields : ∀ {fields : List (String × Json)},
    EveryField DistinctNames fields → ShowsFields fields (Datum.ofJsonFields fields)
  | [], _ => by rw [Datum.ofJsonFields, ShowsFields]
  | (name, v) :: fields, h => by
    rw [Datum.ofJsonFields, ShowsFields]
    exact ⟨_, _, rfl, shows_ofJson h.1, showsFields_ofJsonFields h.2⟩

end

theorem normalize_ne_null {v : Json} (h : v ≠ null) : v.normalize ≠ null := by
  cases v with
  | null => exact absurd rfl h
  | _ => simp [normalize]

end Json

namespace Datum

/-- A datum that is an untyped value, without places. -/
def IsJson (d : Datum) : Prop := ∃ v, d = ofJson v

theorem isJson_of_mem_items {items : List Json} {d : Datum} (h : d ∈ ofJsonItems items) :
    d.IsJson := by
  induction items with
  | nil => cases h
  | cons v items ih =>
    rw [ofJsonItems] at h
    rcases List.mem_cons.mp h with rfl | h
    · exact ⟨v, rfl⟩
    · exact ih h

theorem isJson_of_mem_fields {fields : List (String × Json)} {f : String × Datum}
    (h : f ∈ ofJsonFields fields) : f.2.IsJson := by
  induction fields with
  | nil => cases h
  | cons g fields ih =>
    obtain ⟨name, v⟩ := g
    rw [ofJsonFields] at h
    rcases List.mem_cons.mp h with rfl | h
    · exact ⟨v, rfl⟩
    · exact ih h

theorem hereditary_isJson : Hereditary IsJson where
  core := by
    rintro _ ⟨v, rfl⟩
    refine ⟨v, ?_⟩
    cases v <;> rfl
  seq := by
    rintro items ⟨v, hv⟩ d hd
    cases v with
    | arr values =>
      cases hv
      exact isJson_of_mem_items hd
    | _ => cases hv
  tables := by
    rintro items ⟨v, hv⟩
    cases v <;> cases hv
  fields := by
    rintro _ fields ⟨v, rfl⟩ hseen f hf
    cases v with
    | obj values =>
      cases hseen
      exact isJson_of_mem_fields hf
    | _ => cases hseen

theorem toJson_ne_null {d : Datum} (hd : d.IsJson) (hnull : d ≠ .null) : d.toJson ≠ .null := by
  obtain ⟨v, rfl⟩ := hd
  cases v with
  | null => exact absurd rfl hnull
  | _ => simp [ofJson, toJson]

end Datum

/-! ### Encodings -/

theorem Override.distinctNames (o : Override) : o.encode.Every DistinctNames :=
  ⟨by simp [DistinctNames], trivial,
    (every_arr fun _ => trivial).mpr (List.forall_mem_map.mpr fun p _ => p.normal.distinctNames),
    trivial⟩

theorem DeployableSpec.distinctNames (s : DeployableSpec) : s.encode.Every DistinctNames := by
  have harr {α : Type} {encode : α → Json} {items : List α}
      (h : ∀ a ∈ items, (encode a).Every DistinctNames) :
      (arr (items.map encode)).Every DistinctNames :=
    (every_arr fun _ => trivial).mpr (List.forall_mem_map.mpr h)
  have htemplate := (FieldsAmong.nil (Every DistinctNames)).some "template"
    (fun p (_ : p ∈ s.template) => p.normal.distinctNames)
  have hchannels := htemplate.items "channels" (harr fun (k : ObjectKey) (_ : k ∈ s.channels) =>
    show k.encode.Every DistinctNames from trivial)
  have hplacement := hchannels.some "placement"
    (fun p (_ : p ∈ s.placement) => (p.writableTable (Nat.zero_le _)).distinctNames)
  have hoverrides := hplacement.items "overrides"
    (harr fun o (_ : o ∈ s.overrides) => o.distinctNames)
  have hdependencies := hoverrides.items "dependencies"
    (harr fun d (_ : d ∈ s.dependencies) => (@Dependency.writableTable 0 d).distinctNames)
  exact hdependencies.distinctNames (by decide)

theorem Deployable.distinctNames (d : Deployable) : d.encode.Every DistinctNames :=
  ⟨by simp [DistinctNames, fields], trivial, trivial,
    (d.metadata.writableTable (Nat.zero_le _)).distinctNames, d.spec.distinctNames, trivial⟩

theorem Channel.distinctNames (c : Channel) : c.encode.Every DistinctNames :=
  (@Channel.writableTable 0 c (by decide)).distinctNames

/-! ### Round trips -/

namespace Deployable

theorem decode_encode {d : Deployable} (htemplate : ∀ p ∈ d.spec.template, p.value ≠ .null)
    (hkeys : d.NamesChannels) (format : Format) :
    schema.decode format (.ofJson d.encode) = .ok d :=
  reads_encode htemplate hkeys format _ (shows_ofJson d.distinctNames)

/-- Null for a template is taken for no template, and channels are read from their texts. -/
theorem sound_of_decode {format : Format} {v : Json} {d : Deployable}
    (h : schema.decode format (.ofJson v) = .ok d) : d.spec.Sound (· ≠ .null) fun _ => True := by
  have htemplate : payload.Yields (fun d => d.IsJson ∧ d ≠ .null) fun p => p.value ≠ .null := by
    intro _ d p hd hdecode
    cases hdecode
    exact normalize_ne_null (Datum.toJson_ne_null hd.1 hd.2)
  have hpatch : payload.Yields Datum.IsJson fun _ => True := yields_true _
  exact yields_decode (T := (· ≠ .null)) (P := fun _ => True) Datum.hereditary_isJson htemplate
    hpatch format _ d ⟨v, rfl⟩ h

end Deployable

theorem Channel.decode_encode (c : Channel) (format : Format) :
    schema.decode format (.ofJson c.encode) = .ok c :=
  c.reads_encode format _ (shows_ofJson c.distinctNames)

/-- Deployables and channels are found again in their encodings, with what is absent kept apart
from what is empty. Whatever value one was decoded from, its encoding is decoded to the same record
and encoded as the same value again. -/
theorem json_round_trip :
    (∀ d : Deployable, d.NamesChannels → (∀ p ∈ d.spec.template, p.value ≠ .null) →
      Deployable.schema.decode .json (.ofJson d.encode) = .ok d) ∧
    (∀ c : Channel, Channel.schema.decode .json (.ofJson c.encode) = .ok c) ∧
    (∀ v d, Deployable.schema.decode .json (.ofJson v) = .ok d →
      ∃ d', Deployable.schema.decode .json (.ofJson d.encode) = .ok d' ∧ d' = d ∧
        d'.encode = d.encode) ∧
    ∀ v c, Channel.schema.decode .json (.ofJson v) = .ok c →
      ∃ c', Channel.schema.decode .json (.ofJson c.encode) = .ok c' ∧ c' = c ∧
        c'.encode = c.encode := by
  and_intros
  · intro d hkeys htemplate
    exact d.decode_encode htemplate hkeys .json
  · intro c
    exact c.decode_encode .json
  · intro v d h
    have hsound := Deployable.sound_of_decode h
    exact ⟨d, d.decode_encode hsound.template hsound.channels .json, rfl, rfl⟩
  · intro v c _
    exact ⟨c, c.decode_encode .json, rfl, rfl⟩

/-- Metadata and an override by position, a field that no record has, and null for a template. -/
def looseDeployable : Json :=
  .obj [("metadata", .arr [.str "app", .str "ns", .null]), ("extra", .arr []),
    ("spec", .obj [("template", .null), ("channels", .arr [.str "ns/stable"]),
      ("overrides", .arr [.arr [.str "west", .arr [.null]]])])]

/-- A channel by position, whose gate asks for no annotation by name and which has an empty list
of source namespaces. -/
def looseChannel : Json :=
  .arr [.str "v2", .str "Channel", .obj [("name", .str "stable")],
    .arr [.obj [("annotations", .obj [])], .arr []]]

def settledDeployable : Deployable where
  apiVersion := apiVersion
  kind := Deployable.defaultKind
  metadata := .new "ns" "app"
  spec :=
    { (default : DeployableSpec) with
      channels := [⟨"ns", "stable"⟩]
      overrides := [⟨"west", [.ofJson .null]⟩] }

def settledChannel : Channel where
  apiVersion := "v2"
  kind := Channel.defaultKind
  metadata := .new "" "stable"
  spec := ⟨some ⟨some .empty⟩, some []⟩

theorem loose_round_trip :
    Deployable.schema.decode .json (.ofJson looseDeployable) = .ok settledDeployable ∧
    (∃ d', Deployable.schema.decode .json (.ofJson settledDeployable.encode) = .ok d' ∧
      d' = settledDeployable ∧ d'.encode = settledDeployable.encode) ∧
    settledDeployable.NamesChannels ∧
    Deployable.schema.decode .json (.ofJson settledDeployable.encode) = .ok settledDeployable ∧
    Channel.schema.decode .json (.ofJson looseChannel) = .ok settledChannel ∧
    ∃ c', Channel.schema.decode .json (.ofJson settledChannel.encode) = .ok c' ∧
      c' = settledChannel ∧ c'.encode = settledChannel.encode := by
  obtain ⟨hdeployable, -, hdeployables, hchannels⟩ := json_round_trip
  have hd : Deployable.schema.decode .json (.ofJson looseDeployable) = .ok settledDeployable := rfl
  have hc : Channel.schema.decode .json (.ofJson looseChannel) = .ok settledChannel := rfl
  have hkeys : settledDeployable.NamesChannels := by decide
  exact ⟨hd, hdeployables _ _ hd, hkeys, hdeployable _ hkeys nofun, hc, hchannels _ _ hc⟩

end Ferry
