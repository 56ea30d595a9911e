import Ferry.Proofs.Promotion.Written
import Ferry.Proofs.Store.Creating

/-!
# Promotions that stop

A promotion in a manifest file stops at the first create that fails. Whatever can be
wrong with the content of the manifest or with a projection is wrong for the first
create already, before anything is written: later creates carry the same template,
and a projection into a channel with a namespace always has a name to ask for. So a
later create fails only for reasons that lie outside, and else the disk is left as it
was. What is written has to be read back between two creates.
-/
namespace Ferry

open Json (HasText)

/-- Whether a failure lies outside of what is stored: a file cannot be accessed, or no name that was
drawn is free. -/
def StoreError.isOutside : StoreError → Bool
  | file _ _ | unavailable _ => true
  | notFound _ | alreadyExists _ | invalid _ | parse _ | serialize _ | poisoned => false

/-! ### What is written and read back -/

def Toml.ReadsBack (fields : List (String × Json)) : Prop :=
  ∀ text, render fields = .ok text →
    ∃ node, readDocument text.toList = .ok node ∧ (Json.obj fields).Shows (.ofNode node)

namespace Manifest

variable {m : Manifest}

theorem render_of_toToml {text : String} (h : m.toToml = .ok text) :
    Toml.render m.fields = .ok text := by
  unfold toToml at h
  cases hrender : Toml.render m.fields with
  | ok text' =>
    rw [hrender] at h
    cases h
    rfl
  | error e =>
    rw [hrender] at h
    cases h

/-- A valid manifest is read back if its document is, and if the channels that it declares are keys
that their texts give again. -/
theorem readsBack_of_toml (hvalid : m.validate = .ok ())
    (hkeys : ∀ d ∈ m.deployables, d.NamesChannels) (h : Toml.ReadsBack m.fields) : m.ReadsBack := by
  intro text htext
  obtain ⟨node, hread, hshows⟩ := h text (render_of_toToml htext)
  have hnull : ∀ d ∈ m.deployables, ∀ p ∈ d.spec.template, p.value ≠ .null :=
    fun d hd => Deployable.template_ne_null id ((toToml_eq_ok_iff.mp htext).1 d hd)
  exact parse_of_shows hvalid hkeys hnull hread hshows

/-- The document of a manifest is read back if its payloads do not nest too deep and have no
integers below those of 64 bits. -/
theorem toml_readsBack_of_fits
    (habove : ∀ d ∈ m.deployables, ∀ p ∈ d.payloads, p.value.Every Json.AboveInt64)
    (hfits : ∀ d ∈ m.deployables, d.Fits) : Toml.ReadsBack m.fields := by
  intro text htext
  have htoml : m.toToml = .ok text := by
    unfold toToml
    rw [htext]
    rfl
  obtain ⟨hwritten, rfl⟩ := toToml_eq_ok_iff.mp htoml
  have hform : ∀ d ∈ m.deployables, d.HasToml := fun d hd p hp =>
    Json.storable_iff_above.mpr ⟨hwritten d hd p hp, habove d hd p hp⟩
  have hwritable := writableFields hfits
  rw [String.toList_ofList]
  exact Toml.readDocument_writeDocument
    ((everyField_fields Json.structural_hasToml m).mpr hform) hwritable.names (by simp [fields])
    hwritable.fits

end Manifest

/-! ### What a projection asks of a store -/

section Projections

variable {d p : Deployable} {key : ObjectKey}

theorem payloads_of_storedAs (h : (project d key).StoredAs p) :
    p.payloads = d.spec.template.toList := by
  obtain ⟨name, uid, createdAt, rfl⟩ := h
  simp [Deployable.payloads, Deployable.completed, project]

theorem namesChannels_of_storedAs (h : (project d key).StoredAs p) (hd : d.NamesChannels) :
    p.NamesChannels := by
  obtain ⟨name, uid, createdAt, rfl⟩ := h
  exact hd

theorem fits_of_storedAs (h : (project d key).StoredAs p) (hd : d.Fits) : p.Fits := by
  obtain ⟨name, uid, createdAt, rfl⟩ := h
  exact ⟨hd.template, nofun⟩

theorem isOutside_of_prepareForCreate {allocation : Allocation} {taken : ObjectKey → Bool}
    (hspace : key.space ≠ "") {e : StoreError}
    (h : prepareForCreate allocation taken (project d key) = .error e) : e.isOutside = true := by
  have herror := eq_error_of_map_eq_error h
  rcases allocateName_project d hspace allocation taken with ⟨_, -, -, hname⟩ | ⟨-, hnone⟩
  · rw [hname] at herror
    cases herror
  · rw [hnone] at herror
    cases herror
    rfl

end Projections

namespace Manifest

variable {m : Manifest} {d : Deployable}

theorem toToml_extend {key : ObjectKey} {p : Deployable} (hp : (project d key).StoredAs p)
    {text : String} (htext : (m.extend [p]).toToml = .ok text) {ps : List Deployable}
    (hps : ∀ q ∈ ps, ∃ key, (project d key).StoredAs q) :
    ∃ text, (m.extend ps).toToml = .ok text := by
  have hwritten := (toToml_eq_ok_iff.mp htext).1
  obtain ⟨hobjects, htemplate⟩ := List.forall_mem_append.mp hwritten
  refine ⟨_, toToml_eq_ok_iff.mpr ⟨List.forall_mem_append.mpr ⟨hobjects, ?_⟩, rfl⟩⟩
  intro q hq
  obtain ⟨_, hq⟩ := hps q hq
  rw [payloads_of_storedAs hq, ← payloads_of_storedAs hp]
  exact htemplate p (List.mem_singleton.mpr rfl)

/-- What is written of a manifest with projections of its deployables into its channels is read
back. -/
def ReadsProjectionsBack (m : Manifest) : Prop :=
  ∀ ps, (∀ p ∈ ps, ∃ d ∈ m.deployables, ∃ c ∈ m.channels, (project d c.key).StoredAs p) →
    Toml.ReadsBack (m.extend ps).fields

theorem readsProjectionsBack_of_fits (hm : m.Loaded) (hfits : ∀ d ∈ m.deployables, d.Fits) :
    m.ReadsProjectionsBack := by
  intro ps hps
  have habove : ∀ p ∈ ps, ∀ q ∈ p.payloads, q.value.Every Json.AboveInt64 := by
    intro p hp q hq
    obtain ⟨d, hd, c, -, hp⟩ := hps p hp
    rw [payloads_of_storedAs hp] at hq
    exact (hm.ints d hd q (List.mem_append_left _ hq)).above
  have hfits' : ∀ p ∈ ps, p.Fits := by
    intro p hp
    obtain ⟨d, hd, c, -, hp⟩ := hps p hp
    exact fits_of_storedAs hp (hfits d hd)
  apply toml_readsBack_of_fits
  · exact List.forall_mem_append.mpr ⟨fun d hd q hq => (hm.ints d hd q hq).above, habove⟩
  · exact List.forall_mem_append.mpr ⟨hfits, hfits'⟩

end Manifest

namespace Promotion

variable {path : String} {d : Deployable} {w w' : World} {m : Manifest}
  {made : List (ObjectKey × Deployable)}

theorem readsBack_of_mem_written {supply : Nat → Allocation} {keys : List ObjectKey}
    (hd : d.NamesChannels) {drawn : Nat} (hvalid : m.validate = .ok ())
    (hkeys : ∀ e ∈ m.deployables, e.NamesChannels)
    (hback : ∀ ps, (∀ p ∈ ps, ∃ key ∈ keys, (project d key).StoredAs p) →
      Toml.ReadsBack (m.extend ps).fields) :
    ∀ m' ∈ written supply d drawn m keys, m'.ReadsBack := by
  induction keys generalizing m drawn with
  | nil => exact nofun
  | cons key keys ih =>
    unfold written
    split
    next p hprepare =>
      obtain ⟨hp, hfree⟩ := prepareForCreate_ok hprepare
      have hvalid' := Manifest.validate_extend hvalid (isNamed_of_prepareForCreate hprepare) hfree
      have hkeys' : ∀ e ∈ (m.extend [p]).deployables, e.NamesChannels :=
        List.forall_mem_append.mpr
          ⟨hkeys, List.forall_mem_singleton.mpr (namesChannels_of_storedAs hp hd)⟩
      rw [List.forall_mem_cons]
      constructor
      · apply Manifest.readsBack_of_toml hvalid' hkeys'
        apply hback
        exact List.forall_mem_singleton.mpr ⟨key, List.mem_cons_self, hp⟩
      · apply ih hvalid' hkeys'
        intro ps hps
        rw [Manifest.extend_extend]
        apply hback
        rw [List.singleton_append, List.forall_mem_cons]
        refine ⟨⟨key, List.mem_cons_self, hp⟩, ?_⟩
        intro q hq
        obtain ⟨key', hkey', hq⟩ := hps q hq
        exact ⟨key', List.mem_cons_of_mem _ hkey', hq⟩
    next => exact nofun

theorem Placed.exists_first {found? : ObjectKey → Option Deployable} {keys : List ObjectKey}
    {entries : List (ObjectKey × Outcome)}
    (h : Placed (ManifestFile.store path) d found? w keys entries made w')
    (hm : w.manifest path = .ok m) :
    (made = [] ∧ w' = w) ∨
      ∃ key p text, (project d key).StoredAs p ∧ (m.extend [p]).toToml = .ok text := by
  induction h with
  | nil => exact .inl ⟨rfl, rfl⟩
  | present _ _ ih => exact ih hm
  | created _ hcreate _ _ =>
    obtain ⟨m₀, text, hm₀, hprepare, htext, -⟩ := ManifestFile.create_ok hcreate
    rw [hm] at hm₀
    cases hm₀
    exact .inr ⟨_, _, text, (prepareForCreate_ok hprepare).1, htext⟩

/-- Where one projection was written, another one fails only for reasons that lie outside. -/
theorem isOutside_of_create {key : ObjectKey} (hspace : key.space ≠ "")
    (hm : w.manifest path = .ok m)
    (htext : ∀ p, (project d key).StoredAs p → ∃ text, (m.extend [p]).toToml = .ok text)
    {e : StoreError}
    (h : runFrom ((ManifestFile.store path).create (project d key)) w = (.error e, w')) :
    e.isOutside = true := by
  rw [ManifestFile.runFrom_create hm] at h
  split at h
  next hprepare =>
    cases h
    exact isOutside_of_prepareForCreate hspace hprepare
  next p hprepare =>
    obtain ⟨text, htext⟩ := htext p (prepareForCreate_ok hprepare).1
    cases hsave : runFrom (ManifestFile.save path (m.extend [p])) w.afterDraw with
    | mk answer t =>
      rw [hsave] at h
      cases answer with
      | ok _ => cases h
      | error e' =>
        cases h
        obtain ⟨file, cause, rfl⟩ := ManifestFile.save_error htext hsave
        rfl

/-- A promotion that fails, but not for a reason that lies outside, leaves the disk as it was: it
has stopped at its first create. -/
theorem Course.disk_eq {channels : List Channel} {context : String} {e : StoreError}
    (h : Course (ManifestFile.store path) d channels w (.error (.store context e)) made w')
    (hm : w.manifest path = .ok m) (hd : d.NamesChannels)
    (hspaces : ∀ c ∈ channels, c.key.space ≠ "")
    (hback : ∀ ps, (∀ p ∈ ps, ∃ c ∈ channels, (project d c.key).StoredAs p) →
      Toml.ReadsBack (m.extend ps).fields)
    (he : e.isOutside = false) : w'.disk = w.disk := by
  have hloaded := World.loaded_of_manifest hm
  cases h with
  | unlisted _ hlist =>
    rw [ManifestFile.runFrom_list, Prod.mk.injEq] at hlist
    rw [hlist.2]
  | @stopped snapshot t done key rest entries _ t' _ _ hsplit hlist hplaced hmissing hfail =>
    rw [ManifestFile.runFrom_list, hm, Prod.mk.injEq] at hlist
    obtain ⟨hshown, rfl⟩ := hlist
    cases hshown
    have hchannel : ∀ k ∈ done ++ key :: rest, ∃ c ∈ channels, c.key = k := by
      intro k hk
      rw [← hsplit] at hk
      obtain ⟨c, hc, rfl⟩ := List.mem_map.mp hk
      exact ⟨c, List.mem_of_mem_filter hc, rfl⟩
    rcases hplaced.exists_first hm with ⟨rfl, rfl⟩ | ⟨_, p, text, hp, htext⟩
    · apply ManifestFile.disk_of_create_error hfail
      rintro file cause rfl
      cases he
    · have hspace : key.space ≠ "" := by
        obtain ⟨c, hc, rfl⟩ := hchannel key (by simp)
        exact hspaces c hc
      have hread : ∀ m' ∈ written w.supply d w.drawn m (done.filter fun k =>
          (found? m.deployables d channels k).isNone), m'.ReadsBack := by
        apply readsBack_of_mem_written hd hloaded.valid hloaded.channels
        intro ps hps
        apply hback
        intro p hp
        obtain ⟨k, hk, hp⟩ := hps p hp
        obtain ⟨c, hc, rfl⟩ := hchannel k (List.mem_append_left _ (List.mem_of_mem_filter hk))
        exact ⟨c, hc, hp⟩
      obtain ⟨hlast, hkept⟩ := hplaced.kept_of_readsBack hm hread
      have hwrite : ∀ q, (project d key).StoredAs q →
          ∃ text, ((m.extend (made.map Prod.snd)).extend [q]).toToml = .ok text := by
        intro q hq
        rw [Manifest.extend_extend]
        apply Manifest.toToml_extend hp htext
        rw [List.forall_mem_append, List.forall_mem_map, List.forall_mem_singleton]
        exact ⟨fun made' hmade' => ⟨made'.1, hkept.stored made' hmade'⟩, key, hq⟩
      have houtside := isOutside_of_create hspace hlast hwrite hfail
      rw [he] at houtside
      cases houtside

end Promotion

end Ferry
