import Ferry.Proofs.Loaded
import Ferry.Proofs.Store.ManifestFile
import Ferry.Proofs.Validation

/-!
# Manifests that are saved and loaded again

What a create or a delete leaves of a valid manifest is valid. It is written and
read back if all objects in it can be. So whatever was loaded can be saved again,
unless a payload has a null in it, which no text can, or nests too deep. What was
created can be loaded, if it declares keys that their texts give again.
-/
namespace Ferry

namespace Manifest

/-! ### Valid manifests -/

theorem isTaken_eq_false_iff {m : Manifest} {key : ObjectKey} :
    m.isTaken key = false ↔ ∀ d ∈ m.deployables, d.key ≠ key := by
  simp [isTaken, deployable?]

theorem isTaken_mk_iff {m : Manifest} {space name : String} :
    m.isTaken ⟨space, name⟩ = true ↔ ∃ e ∈ m.deployables, e.space = space ∧ e.name = name := by
  simp [isTaken, deployable?, Deployable.key, Deployable.space, Deployable.name, Metadata.key]

theorem validate_extend {m : Manifest} (h : m.validate = .ok ()) {p : Deployable}
    (hnamed : isNamed p.key = true) (hfree : m.isTaken p.key = false) :
    (m.extend [p]).validate = .ok () := by
  obtain ⟨⟨hobjects, hnodup⟩, hchannels⟩ := validate_eq_ok_iff.mp h
  refine validate_eq_ok_iff.mpr ⟨⟨?_, ?_⟩, hchannels⟩
  · exact List.forall_mem_append.mpr ⟨hobjects, List.forall_mem_singleton.mpr hnamed⟩
  · change ((m.deployables ++ [p]).map Deployable.key).Nodup
    rw [List.map_append, List.map_singleton, List.nodup_append]
    refine ⟨hnodup, List.nodup_singleton _, fun key hkey key' hkey' => ?_⟩
    obtain ⟨d, hd, rfl⟩ := List.mem_map.mp hkey
    rw [List.mem_singleton.mp hkey']
    exact isTaken_eq_false_iff.mp hfree d hd

theorem validate_without {m : Manifest} (h : m.validate = .ok ()) (key : ObjectKey) :
    (m.without key).validate = .ok () := by
  obtain ⟨⟨hobjects, hnodup⟩, hchannels⟩ := validate_eq_ok_iff.mp h
  refine validate_eq_ok_iff.mpr
    ⟨⟨fun d hd => hobjects d (List.mem_of_mem_filter hd), ?_⟩, hchannels⟩
  exact hnodup.sublist (List.filter_sublist.map _)

end Manifest

structure Deployable.Representable (d : Deployable) : Prop where
  channels : d.NamesChannels
  form : d.HasToml
  fits : d.Fits

instance (d : Deployable) : Decidable d.Representable :=
  decidable_of_iff (d.NamesChannels ∧ d.HasToml ∧ d.Fits)
    ⟨fun ⟨hchannels, hform, hfits⟩ => ⟨hchannels, hform, hfits⟩,
      fun h => ⟨h.channels, h.form, h.fits⟩⟩

namespace Manifest

def NoNull (m : Manifest) : Prop := ∀ d ∈ m.deployables, ∀ p ∈ d.payloads, p.value.NoNull

/-- A manifest can be saved, and it is loaded again as it was. -/
def Saves (m : Manifest) : Prop := ∃ text, m.toToml = .ok text ∧ parse text = .ok m

theorem saves_of_representable {m : Manifest} (hvalid : m.validate = .ok ())
    (h : ∀ d ∈ m.deployables, d.Representable) : m.Saves :=
  have hform : ∀ d ∈ m.deployables, d.HasToml := fun d hd => (h d hd).form
  ⟨_, toToml_of_hasToml hform, parse_writeDocument hvalid (fun d hd => (h d hd).channels) hform
    fun d hd => (h d hd).fits⟩

namespace Loaded

variable {m : Manifest}

theorem hasToml (h : m.Loaded) (hnull : m.NoNull) : ∀ d ∈ m.deployables, d.HasToml :=
  fun d hd p hp => Json.storable_iff_fits.mpr ⟨hnull d hd p hp, h.ints d hd p hp⟩

/-- A manifest that was loaded can be written exactly if there is no null in it. -/
theorem toToml_iff (h : m.Loaded) : (∃ text, m.toToml = .ok text) ↔ m.NoNull := by
  constructor
  · rintro ⟨text, htext⟩ d hd p hp
    exact Json.noNull_of_hasText ((toToml_eq_ok_iff.mp htext).1 d hd p hp)
  · exact fun hnull => ⟨_, toToml_of_hasToml (h.hasToml hnull)⟩

theorem representable (h : m.Loaded) (hnull : m.NoNull) (hfits : ∀ d ∈ m.deployables, d.Fits) :
    ∀ d ∈ m.deployables, d.Representable :=
  fun d hd => ⟨h.channels d hd, h.hasToml hnull d hd, hfits d hd⟩

end Loaded

/-- What was loaded can be written unless a null came into a payload. If nothing nests too deep, it
is loaded again as it was, also after an object was deleted or one that can be written and read back
was created. -/
theorem saved_again {text : String} {m : Manifest} (h : parse text = .ok m) :
    ((∃ text', m.toToml = .ok text') ↔ m.NoNull) ∧
      (¬ m.NoNull → m.toToml = .error (.serialize Toml.WriteError.null.message)) ∧
      (m.NoNull → (∀ d ∈ m.deployables, d.Fits) →
        m.Saves ∧ (∀ key, (m.without key).Saves) ∧
          ∀ p : Deployable, p.Representable → isNamed p.key = true → m.isTaken p.key = false →
            (m.extend [p]).Saves) := by
  have hloaded := loaded_of_parse h
  refine ⟨hloaded.toToml_iff, fun hnull => ?_, fun hnull hfits => ?_⟩
  · rcases toToml_of_intsFit hloaded.ints with htext | herror
    · exact absurd (hloaded.toToml_iff.mp htext) hnull
    · exact herror
  · have hobjects := hloaded.representable hnull hfits
    refine ⟨saves_of_representable hloaded.valid hobjects, fun key => ?_,
      fun p hp hnamed hfree => ?_⟩
    · exact saves_of_representable (validate_without hloaded.valid key) fun d hd =>
        hobjects d (List.mem_of_mem_filter hd)
    · exact saves_of_representable (validate_extend hloaded.valid hnamed hfree)
        (List.forall_mem_append.mpr ⟨hobjects, List.forall_mem_singleton.mpr hp⟩)

def dated : String :=
  "[[deployables]]\nmetadata = \x7b namespace = \"ns\", name = \"app\" \x7d\n" ++
    "spec.template = \x7b at = 1979-05-27T07:32:00Z, of = [1, 2.5, \"x\"] \x7d\n"

theorem dated_saved_again : ∃ m, parse dated = .ok m ∧ m.deployables.length = 1 ∧ m.Saves := by
  have hsome : (parse dated).toOption.isSome = true := by decide +kernel
  obtain ⟨m, hm⟩ := Option.isSome_iff_exists.mp hsome
  have hparse := eq_ok_of_toOption hm
  have hobjects : (parse dated).toOption.all (fun m => decide (m.deployables.length = 1 ∧
      ∀ d ∈ m.deployables, d.Representable)) = true := by decide +kernel
  rw [hm, Option.all_some, decide_eq_true_eq] at hobjects
  have hnull : m.NoNull := fun d hd p hp =>
    (Json.storable_iff_fits.mp ((hobjects.2 d hd).form p hp)).1
  exact ⟨m, hparse, hobjects.1,
    ((saved_again hparse).2.2 hnull fun d hd => (hobjects.2 d hd).fits).1⟩

/-- It is enough that the characters which are written cannot be read or decoded. -/
theorem parse_error_of_undecoded {m : Manifest}
    (h : ((Toml.readDocument (Toml.writeDocument m.fields)).toOption.bind fun node =>
      (schema.decode .toml (.ofNode node)).toOption) = none) :
    ∃ e, parse (String.ofList (Toml.writeDocument m.fields)) = .error e := by
  unfold parse Toml.decodeText
  rw [String.toList_ofList]
  cases hread : Toml.readDocument (Toml.writeDocument m.fields) with
  | error e => exact ⟨_, rfl⟩
  | ok node =>
    rw [hread, Except.toOption, Option.bind_some] at h
    obtain ⟨e, he⟩ := exists_eq_error_of_toOption h
    dsimp only
    rw [he]
    exact ⟨_, rfl⟩

def ofTemplate (template : Json) : Manifest :=
  ⟨[(Deployable.new "ns" "app").withTemplate (.ofJson template)], []⟩

/-- A text with a number in a template that JSON lacks. -/
def endless : String :=
  "[[deployables]]\nmetadata = \x7b namespace = \"ns\", name = \"app\" \x7d\n" ++
    "spec.template.limit = inf\n"

def nested : Nat → Json
  | 0 => .int 1
  | n + 1 => .obj [("a", nested n)]

/-- A text with as many tables in each other: some by a header and the others by the key below. -/
def deep : String :=
  "[[deployables]]\nmetadata = \x7b namespace = \"ns\", name = \"app\" \x7d\n" ++
    "[deployables.spec.template" ++ String.join (List.replicate 60 ".a") ++ "]\n" ++
      "a" ++ String.join (List.replicate 17 ".a") ++ " = 1\n"

/-- The number becomes a null, with which nothing can be saved any more. The tables get a header
that has too many keys to be read. -/
theorem loaded_not_saved :
    (∃ m, parse endless = .ok m ∧ ∀ text, m.toToml ≠ .ok text) ∧
      ∃ m, parse deep = .ok m ∧ ∃ text, m.toToml = .ok text ∧ ∃ e, parse text = .error e := by
  have hendless : (parse endless).toOption = some (ofTemplate (.obj [("limit", .null)])) := by
    decide +kernel
  have hdeep : (parse deep).toOption = some (ofTemplate (nested 78)) := by decide +kernel
  refine ⟨⟨_, eq_ok_of_toOption hendless, fun text htext => ?_⟩, _, eq_ok_of_toOption hdeep, _,
    toToml_of_hasToml (by decide +kernel), ?_⟩
  · have herror : (ofTemplate (.obj [("limit", .null)])).toToml.toOption = none := by decide +kernel
    rw [htext] at herror
    cases herror
  · exact parse_error_of_undecoded (by decide +kernel)

end Manifest

end Ferry
