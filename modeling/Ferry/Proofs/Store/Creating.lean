import Ferry.Proofs.Store.Saving

/-!
# What is created can be loaded

A create writes the manifest that it loaded with the new object at its end, and
does not look at it again. The next load gives just that manifest, if and only if
the new object declares keys that their texts give again.
-/
namespace Ferry

open Json (AboveInt64)

theorem isNamed_of_prepareForCreate {allocation : Allocation} {taken : ObjectKey → Bool}
    {d p : Deployable} (h : prepareForCreate allocation taken d = .ok p) :
    Manifest.isNamed p.key = true := by
  obtain ⟨name, hname, rfl⟩ := exists_of_map_eq_ok h
  obtain ⟨hspace, hname⟩ := allocateName_named hname
  rw [Manifest.isNamed, Bool.and_eq_true, decide_eq_true_eq, decide_eq_true_eq]
  exact ⟨hname, hspace⟩

namespace World

theorem loaded_of_manifest {w : World} {path : String} {m : Manifest}
    (h : w.manifest path = .ok m) : m.Loaded := by
  have hempty : Manifest.empty.Loaded :=
    ⟨rfl, fun _ hd => absurd hd List.not_mem_nil, fun _ hd => absurd hd List.not_mem_nil⟩
  unfold manifest at h
  split at h
  · cases h
    exact hempty
  · split at h
    · split at h
      · cases h
      · exact Manifest.loaded_of_parse h
    · cases h
      exact hempty

end World

/-- Whether an object can be written and read back does not depend on what a store gives it. -/
theorem Deployable.StoredAs.representable_iff {d p : Deployable} (h : d.StoredAs p) :
    p.Representable ↔ d.Representable := by
  obtain ⟨name, uid, createdAt, rfl⟩ := h
  exact ⟨fun h => ⟨h.channels, h.form, ⟨h.fits.template, h.fits.patches⟩⟩,
    fun h => ⟨h.channels, h.form, ⟨h.fits.template, h.fits.patches⟩⟩⟩

theorem Manifest.saves_extend {m : Manifest} (hm : m.Loaded) {p : Deployable} {text : String}
    (htext : (m.extend [p]).toToml = .ok text) (hnamed : isNamed p.key = true)
    (hfree : m.isTaken p.key = false) (hints : ∀ q ∈ p.payloads, q.value.Every AboveInt64)
    (hkeys : p.NamesChannels) (hfits : ∀ d ∈ (m.extend [p]).deployables, d.Fits) :
    parse text = .ok (m.extend [p]) := by
  obtain ⟨hwritten, rfl⟩ := toToml_eq_ok_iff.mp htext
  have habove : ∀ d ∈ (m.extend [p]).deployables, ∀ q ∈ d.payloads, q.value.Every AboveInt64 :=
    List.forall_mem_append.mpr ⟨fun d hd q hq => (hm.ints d hd q hq).above,
      List.forall_mem_singleton.mpr hints⟩
  exact parse_writeDocument (validate_extend hm.valid hnamed hfree)
    (List.forall_mem_append.mpr ⟨hm.channels, List.forall_mem_singleton.mpr hkeys⟩)
    (fun d hd q hq => Json.storable_iff_above.mpr ⟨hwritten d hd q hq, habove d hd q hq⟩) hfits

namespace ManifestFile

/-- After a create that succeeded, the manifest is loaded with the new object at its end, and with
nothing else changed, exactly if the object declares keys that their texts give again. -/
theorem create_then_load {path : String} {d c : Deployable} {w w' : World}
    (h : runFrom ((store path).create d) w = (.ok c, w'))
    (hints : ∀ p ∈ d.payloads, p.value.Every AboveInt64) (hfits : d.Fits) :
    ∃ m, runFrom (load path) w = (.ok m, w) ∧ ((∀ e ∈ m.deployables, e.Fits) →
      (runFrom (load path) w' = (.ok (m.extend [c]), w') ↔ d.NamesChannels)) := by
  obtain ⟨m, text, hload, hprepare, htext, hread, -, -⟩ := create_ok h
  obtain ⟨⟨name, uid, createdAt, rfl⟩, hfree⟩ := prepareForCreate_ok hprepare
  have hloaded := World.loaded_of_manifest hload
  refine ⟨m, by rw [runFrom_load, hload], fun hall => ?_⟩
  rw [runFrom_load, hread, Prod.mk.injEq, and_iff_left rfl]
  constructor
  · intro hparse
    have hc : (d.completed name uid createdAt).NamesChannels :=
      (Manifest.loaded_of_parse hparse).channels _ (List.mem_append_right _ List.mem_cons_self)
    exact hc
  · intro hkeys
    refine Manifest.saves_extend hloaded htext (isNamed_of_prepareForCreate hprepare) hfree hints
      hkeys ?_
    exact List.forall_mem_append.mpr
      ⟨hall, List.forall_mem_singleton.mpr ⟨hfits.template, hfits.patches⟩⟩

def emptyWorld : World := ⟨.empty, "/", none, fun _ => ⟨["00000"], "uid", .year2000⟩, 0⟩

theorem manifest_emptyWorld : emptyWorld.manifest "m" = .ok .empty := rfl

def declaring : Deployable :=
  ((Deployable.new "ns" "").withGenerateName "app-").withChannel ⟨"ns", "stable"⟩

theorem declaring_loaded : ∃ c w',
    runFrom ((store "m").create declaring) emptyWorld = (.ok c, w') ∧
      runFrom (load "m") w' = (.ok (Manifest.empty.extend [c]), w') := by
  have hsome : (runFrom ((store "m").create declaring) emptyWorld).1.toOption.isSome = true := by
    decide +kernel
  obtain ⟨c, hc⟩ := Option.isSome_iff_exists.mp hsome
  have hcreate : runFrom ((store "m").create declaring) emptyWorld = (.ok c, _) :=
    Prod.ext (eq_ok_of_toOption hc) rfl
  obtain ⟨m, hload, hiff⟩ := create_then_load hcreate (by decide +kernel) (by decide +kernel)
  rw [runFrom_load, manifest_emptyWorld] at hload
  cases hload
  exact ⟨c, _, hcreate, (hiff fun _ hd => absurd hd List.not_mem_nil).mpr (by decide +kernel)⟩

def slashed : Deployable := (Deployable.new "ns" "app").withChannel ⟨"ns", "a/b"⟩

def towering : Deployable := (Deployable.new "ns" "app").withTemplate (.ofJson (Manifest.nested 78))

/-- A create that succeeded is not loaded if the characters it wrote cannot be read or decoded. -/
theorem not_loaded_of_undecoded {d c : Deployable}
    (hc : (runFrom ((store "m").create d) emptyWorld).1.toOption = some c)
    (hnone : ((Toml.readDocument (Toml.writeDocument (Manifest.empty.extend [c]).fields)).toOption
      |>.bind fun node => (Manifest.schema.decode .toml (.ofNode node)).toOption) = none) :
    ∃ w', runFrom ((store "m").create d) emptyWorld = (.ok c, w') ∧
      ∃ e, runFrom (load "m") w' = (.error e, w') := by
  have hcreate : runFrom ((store "m").create d) emptyWorld = (.ok c, _) :=
    Prod.ext (eq_ok_of_toOption hc) rfl
  obtain ⟨m, text, hload, -, htext, hread, -, -⟩ := create_ok hcreate
  rw [manifest_emptyWorld] at hload
  cases hload
  obtain ⟨-, rfl⟩ := Manifest.toToml_eq_ok_iff.mp htext
  obtain ⟨e, he⟩ := Manifest.parse_error_of_undecoded hnone
  refine ⟨_, hcreate, e, ?_⟩
  rw [runFrom_load, hread, he]

/-- The key and the header are written, but they are not read. -/
theorem created_not_loaded :
    (∃ c w', runFrom ((store "m").create slashed) emptyWorld = (.ok c, w') ∧
      ∃ e, runFrom (load "m") w' = (.error e, w')) ∧
    ∃ c w', runFrom ((store "m").create towering) emptyWorld = (.ok c, w') ∧
      ∃ e, runFrom (load "m") w' = (.error e, w') := by
  constructor
  · have hcreated :
        (runFrom ((store "m").create slashed) emptyWorld).1.toOption =
          some (slashed.completed "app" "uid" .year2000) := by decide +kernel
    exact ⟨_, not_loaded_of_undecoded hcreated (by decide +kernel)⟩
  · have hcreated :
        (runFrom ((store "m").create towering) emptyWorld).1.toOption =
          some (towering.completed "app" "uid" .year2000) := by decide +kernel
    exact ⟨_, not_loaded_of_undecoded hcreated (by decide +kernel)⟩

end ManifestFile

end Ferry
