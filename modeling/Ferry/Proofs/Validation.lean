import Mathlib.Data.List.Nodup
import Ferry.Manifest

/-!
# Valid manifests

A manifest is valid if every object and every channel has a name and a namespace,
no two objects share their key, and no two channels do. What is said of one that is
not valid is settled by its first fault: the keys before it have none, and those
after it are not looked at. In a valid manifest a key stands for one entry at most,
so the first entry that a lookup finds is the only one.
-/
namespace Ferry

/-! ### Entries under different keys -/

section Entries

variable {α : Type} {key : α → ObjectKey} {items : List α}

theorem filter_key_eq (h : (items.map key).Nodup) (k : ObjectKey) :
    (items.filter fun a => key a = k) = (items.find? fun a => key a = k).toList := by
  induction items with
  | nil => rfl
  | cons a items ih =>
    obtain ⟨hfresh, hnodup⟩ := List.nodup_cons.mp h
    by_cases hkey : key a = k
    · have hnone : (items.filter fun b => key b = k) = [] := by
        rw [List.filter_eq_nil_iff]
        intro b hb hsame
        rw [decide_eq_true_eq, ← hkey] at hsame
        exact hfresh (List.mem_map.mpr ⟨b, hb, hsame⟩)
      rw [List.filter_cons_of_pos (by simpa using hkey), hnone,
        List.find?_cons_of_pos (by simpa using hkey), Option.toList_some]
    · rw [List.filter_cons_of_neg (by simpa using hkey),
        List.find?_cons_of_neg (by simpa using hkey), ih hnodup]

theorem find?_key_eq_some_iff (h : (items.map key).Nodup) {k : ObjectKey} {a : α} :
    (items.find? fun b => key b = k) = some a ↔ a ∈ items ∧ key a = k := by
  rw [← Option.mem_toList, ← filter_key_eq h, List.mem_filter, decide_eq_true_eq]

end Entries

namespace Manifest

theorem isNamed_iff {key : ObjectKey} : isNamed key = true ↔ key.space ≠ "" ∧ key.name ≠ "" := by
  simp [isNamed, and_comm]

/-! ### Keys -/

structure Faultless (keys : List ObjectKey) : Prop where
  named : ∀ key ∈ keys, key.space ≠ "" ∧ key.name ≠ ""
  nodup : keys.Nodup

/-- What is said of keys by the first fault among them: that a key lacks its name or its namespace,
or that a key was there before. -/
inductive FirstFault (unnamed : StoreError) (repeated : ObjectKey → StoreError)
    (keys : List ObjectKey) : StoreError → Prop
  | unnamed {before key after} : keys = before ++ key :: after → Faultless before →
      key.space = "" ∨ key.name = "" → FirstFault unnamed repeated keys unnamed
  | repeated {before key after} : keys = before ++ key :: after → Faultless before →
      key ∈ before → FirstFault unnamed repeated keys (repeated key)

theorem faultless_iff {keys : List ObjectKey} :
    Faultless keys ↔ (∀ key ∈ keys, isNamed key = true) ∧ keys.Nodup := by
  simp only [isNamed_iff]
  exact ⟨fun h => ⟨h.named, h.nodup⟩, fun ⟨hnamed, hnodup⟩ => ⟨hnamed, hnodup⟩⟩

theorem Faultless.concat {keys : List ObjectKey} {key : ObjectKey} (h : Faultless keys)
    (hnamed : key.space ≠ "" ∧ key.name ≠ "") (hfresh : key ∉ keys) :
    Faultless (keys ++ [key]) := by
  constructor
  · exact List.forall_mem_append.mpr ⟨h.named, List.forall_mem_singleton.mpr hnamed⟩
  · exact List.nodup_append_comm.mp (List.nodup_cons.mpr ⟨hfresh, h.nodup⟩)

section Checks

variable {unnamed : StoreError} {repeated : ObjectKey → StoreError} {seen keys : List ObjectKey}
  {key : ObjectKey}

theorem checkKeys_unnamed (h : key.space = "" ∨ key.name = "") :
    checkKeys unnamed repeated seen (key :: keys) = .error unnamed := by
  have hnot : isNamed key = false := by
    rw [← Bool.not_eq_true, isNamed_iff, ← not_or, not_not]
    exact h
  simp [checkKeys, hnot]

theorem checkKeys_repeated (hnamed : key.space ≠ "" ∧ key.name ≠ "") (hseen : key ∈ seen) :
    checkKeys unnamed repeated seen (key :: keys) = .error (repeated key) := by
  simp [checkKeys, isNamed_iff.mpr hnamed, hseen]

theorem checkKeys_fresh (hnamed : key.space ≠ "" ∧ key.name ≠ "") (hfresh : key ∉ seen) :
    checkKeys unnamed repeated seen (key :: keys) =
      checkKeys unnamed repeated (key :: seen) keys := by
  simp [checkKeys, isNamed_iff.mpr hnamed, hfresh]

theorem checkKeys_append (h : Faultless keys) (hfresh : ∀ key ∈ keys, key ∉ seen)
    (rest : List ObjectKey) :
    checkKeys unnamed repeated seen (keys ++ rest) =
      checkKeys unnamed repeated (keys.reverse ++ seen) rest := by
  induction keys generalizing seen with
  | nil => rfl
  | cons key keys ih =>
    obtain ⟨hnamed, hothers⟩ := List.forall_mem_cons.mp h.named
    obtain ⟨hkey, hkeys⟩ := List.forall_mem_cons.mp hfresh
    obtain ⟨hnot, hnodup⟩ := List.nodup_cons.mp h.nodup
    rw [List.cons_append, checkKeys_fresh hnamed hkey, ih ⟨hothers, hnodup⟩]
    · simp
    · intro other hother hmem
      rcases List.mem_cons.mp hmem with rfl | hseen
      · exact hnot hother
      · exact hkeys other hother hseen

/-- A check of further keys after some without a fault passes all of them, or stops at the first
fault. -/
theorem checkKeys_reverse (h : Faultless seen) :
    (Faultless (seen ++ keys) ∧ checkKeys unnamed repeated seen.reverse keys = .ok ()) ∨
      ∃ e, FirstFault unnamed repeated (seen ++ keys) e ∧
        checkKeys unnamed repeated seen.reverse keys = .error e := by
  induction keys generalizing seen with
  | nil =>
    left
    rw [List.append_nil]
    exact ⟨h, rfl⟩
  | cons key keys ih =>
    by_cases hnamed : key.space ≠ "" ∧ key.name ≠ ""
    · by_cases hmem : key ∈ seen
      · right
        exact ⟨_, .repeated rfl h hmem, checkKeys_repeated hnamed (List.mem_reverse.mpr hmem)⟩
      · have hrest := ih (h.concat hnamed hmem)
        rw [checkKeys_fresh hnamed (mt List.mem_reverse.mp hmem)]
        simpa using hrest
    · right
      rw [← not_or, not_not] at hnamed
      exact ⟨_, .unnamed rfl h hnamed, checkKeys_unnamed hnamed⟩

theorem faultless_nil : Faultless [] := ⟨nofun, List.nodup_nil⟩

theorem checkKeys_eq_ok_iff : checkKeys unnamed repeated [] keys = .ok () ↔ Faultless keys := by
  constructor
  · intro hok
    rcases checkKeys_reverse faultless_nil with ⟨hfaultless, -⟩ | ⟨e, -, herror⟩
    · exact hfaultless
    · cases hok.symm.trans herror
  · intro h
    rw [← List.append_nil keys, checkKeys_append h fun _ _ => List.not_mem_nil]
    rfl

theorem checkKeys_eq_error_iff {e : StoreError} :
    checkKeys unnamed repeated [] keys = .error e ↔ FirstFault unnamed repeated keys e := by
  constructor
  · intro herror
    rcases checkKeys_reverse faultless_nil with ⟨-, hok⟩ | ⟨e', hfault, herror'⟩
    · cases herror.symm.trans hok
    · cases herror.symm.trans herror'
      exact hfault
  · intro hfault
    cases hfault with
    | unnamed hkeys hbefore hunnamed =>
      rw [hkeys, checkKeys_append hbefore fun _ _ => List.not_mem_nil]
      exact checkKeys_unnamed hunnamed
    | @repeated before key after hkeys hbefore hmem =>
      rw [hkeys, checkKeys_append hbefore fun _ _ => List.not_mem_nil]
      exact checkKeys_repeated (hbefore.named key hmem) (by simpa using hmem)

end Checks

/-! ### Manifests -/

def DeployableFault : List ObjectKey → StoreError → Prop :=
  FirstFault (.invalid "manifest deployables need both name and namespace") .alreadyExists

def ChannelFault : List ObjectKey → StoreError → Prop :=
  FirstFault (.invalid "manifest channels need both name and namespace") fun key =>
    .invalid ("duplicate channel in manifest: " ++ key.text)

variable {m : Manifest}

theorem validate_eq_error_iff {e : StoreError} :
    m.validate = .error e ↔ DeployableFault (m.deployables.map Deployable.key) e ∨
      Faultless (m.deployables.map Deployable.key) ∧
        ChannelFault (m.channels.map Channel.key) e := by
  rw [DeployableFault, ChannelFault, ← checkKeys_eq_error_iff, ← checkKeys_eq_error_iff,
    ← checkKeys_eq_ok_iff]
  change (checkDeployables [] _ >>= fun _ => checkChannels [] _) = _ ↔
    checkDeployables [] _ = _ ∨ checkDeployables [] _ = _ ∧ checkChannels [] _ = _
  cases checkDeployables [] (m.deployables.map Deployable.key) <;> simp [bind, Except.bind]

theorem validate_eq_ok_iff_faultless :
    m.validate = .ok () ↔ Faultless (m.deployables.map Deployable.key) ∧
      Faultless (m.channels.map Channel.key) := by
  rw [← checkKeys_eq_ok_iff, ← checkKeys_eq_ok_iff]
  change (checkDeployables [] _ >>= fun _ => checkChannels [] _) = _ ↔
    checkDeployables [] _ = _ ∧ checkChannels [] _ = _
  cases checkDeployables [] (m.deployables.map Deployable.key) <;> simp [bind, Except.bind]

theorem validate_eq_ok_iff :
    m.validate = .ok () ↔
      ((∀ d ∈ m.deployables, isNamed d.key = true) ∧ (m.deployables.map Deployable.key).Nodup) ∧
        checkChannels [] (m.channels.map Channel.key) = .ok () := by
  have hkeys : Faultless (m.deployables.map Deployable.key) ↔
      (∀ d ∈ m.deployables, isNamed d.key = true) ∧ (m.deployables.map Deployable.key).Nodup := by
    rw [faultless_iff, List.forall_mem_map]
  rw [validate_eq_ok_iff_faultless, hkeys, ← checkKeys_eq_ok_iff]
  rfl

theorem channels_of_validate (h : m.validate = .ok ()) :
    (∀ c ∈ m.channels, isNamed c.key = true) ∧ (m.channels.map Channel.key).Nodup := by
  obtain ⟨-, hchannels⟩ := validate_eq_ok_iff_faultless.mp h
  exact ⟨fun c hc => isNamed_iff.mpr (hchannels.named c.key (List.mem_map_of_mem hc)),
    hchannels.nodup⟩

theorem deployable?_of_mem (h : m.validate = .ok ()) {d : Deployable} (hd : d ∈ m.deployables) :
    m.deployable? d.key = some d :=
  (find?_key_eq_some_iff (validate_eq_ok_iff_faultless.mp h).1.nodup).mpr ⟨hd, rfl⟩

theorem channel?_of_mem (h : m.validate = .ok ()) {c : Channel} (hc : c ∈ m.channels) :
    m.channel? c.key = some c :=
  (find?_key_eq_some_iff (validate_eq_ok_iff_faultless.mp h).2.nodup).mpr ⟨hc, rfl⟩

/-- A manifest is accepted exactly if there is no fault among the keys of its deployables and none
among those of its channels; a deployable and a channel may share a key. Otherwise the first fault
tells why, and deployables come before channels. What is found under a key in a manifest that is
accepted are all entries with the key. -/
theorem validate_tells_first_fault (m : Manifest) :
    (m.validate = .ok () ↔ Faultless (m.deployables.map Deployable.key) ∧
      Faultless (m.channels.map Channel.key)) ∧
    (∀ e, m.validate = .error e ↔ DeployableFault (m.deployables.map Deployable.key) e ∨
      Faultless (m.deployables.map Deployable.key) ∧ ChannelFault (m.channels.map Channel.key) e) ∧
    (m.validate = .ok () → ∀ key,
      (m.deployables.filter fun d => d.key = key) = (m.deployable? key).toList ∧
        (m.channels.filter fun c => c.key = key) = (m.channel? key).toList) := by
  and_intros
  · exact validate_eq_ok_iff_faultless
  · exact fun e => validate_eq_error_iff
  · intro h key
    obtain ⟨hdeployables, hchannels⟩ := validate_eq_ok_iff_faultless.mp h
    exact ⟨filter_key_eq hdeployables.nodup key, filter_key_eq hchannels.nodup key⟩

/-- A manifest with a repeated deployable, and with faults after it that are not told of. -/
def faulty : Manifest where
  deployables := [.new "a" "x", .new "a" "y", .new "a" "x", .new "" "z"]
  channels := [.new "a" "", .new "b" "c", .new "b" "c"]

def mended : Manifest where
  deployables := [.new "a" "x", .new "a" "y"]
  channels := [.new "a" "x", .new "b" "c"]

theorem faulty_told :
    faulty.validate = .error (.alreadyExists ⟨"a", "x"⟩) ∧
      DeployableFault (faulty.deployables.map Deployable.key) (.alreadyExists ⟨"a", "x"⟩) ∧
      mended.validate = .ok () ∧
      (mended.channels.filter fun c => c.key = ⟨"a", "x"⟩) = [.new "a" "x"] := by
  have hkeys : faulty.deployables.map Deployable.key =
      [⟨"a", "x"⟩, ⟨"a", "y"⟩] ++ ⟨"a", "x"⟩ :: [⟨"", "z"⟩] := rfl
  have hfault : DeployableFault (faulty.deployables.map Deployable.key)
      (.alreadyExists ⟨"a", "x"⟩) :=
    .repeated hkeys ⟨by decide, by decide⟩ List.mem_cons_self
  obtain ⟨-, hfaulty, -⟩ := validate_tells_first_fault faulty
  obtain ⟨hmended, -, hfound⟩ := validate_tells_first_fault mended
  have hvalid : mended.validate = .ok () :=
    hmended.mpr ⟨⟨by decide, by decide⟩, ⟨by decide, by decide⟩⟩
  exact ⟨(hfaulty _).mpr (.inl hfault), hfault, hvalid, (hfound hvalid ⟨"a", "x"⟩).2⟩

end Manifest

end Ferry
