import Mathlib.Data.List.Forall2
import Ferry.Proofs.Store.Calls
import Ferry.Proofs.Store.Creating
import Ferry.Proofs.Store.Memory

/-!
# The store in a file refines the store in memory

Seeded with the objects of a manifest, the store in memory answers every sequence
of calls as the store in the file does, apart from the order of lists. A call that
fails changes neither of them, and the channels of the manifest stay as they are.
-/
namespace Ferry

/-! ### Contents made of objects with different keys -/

namespace Memory

variable {objects : List Deployable}

theorem get?_ofDeployables (hnodup : (objects.map Deployable.key).Nodup) {key : ObjectKey}
    {d : Deployable} :
    (ofDeployables objects).get? key = some d ↔ d ∈ objects ∧ d.key = key := by
  have hreverse : (objects.reverse.map Deployable.key).Nodup := by
    rwa [List.map_reverse, List.nodup_reverse]
  rw [← List.mem_reverse, ← find?_key_eq_some_iff hreverse, ofDeployables, SortedMap.get?_ofList,
    ← List.map_reverse, List.find?_map, Option.map_map]
  exact iff_of_eq (congrArg (· = some d) (congrFun Option.map_id _))

theorem ofDeployables_append (p : Deployable) :
    ofDeployables (objects ++ [p]) = (ofDeployables objects).insert p.key p := by
  simp [ofDeployables, SortedMap.ofList]

theorem ofDeployables_filter (hnodup : (objects.map Deployable.key).Nodup) (key : ObjectKey) :
    ofDeployables (objects.filter (·.key ≠ key)) = (ofDeployables objects).erase key := by
  have hkept : ((objects.filter (·.key ≠ key)).map Deployable.key).Nodup :=
    hnodup.sublist (List.filter_sublist.map _)
  refine SortedMap.ext_get? fun key' => Option.ext fun d => ?_
  rw [get?_ofDeployables hkept, List.mem_filter, decide_eq_true_eq]
  by_cases hkey : key' = key
  · rw [hkey, SortedMap.get?_erase_self]
    simp
  · rw [SortedMap.get?_erase_of_ne _ hkey, get?_ofDeployables hnodup]
    constructor
    · rintro ⟨⟨hmem, -⟩, hkey'⟩
      exact ⟨hmem, hkey'⟩
    · rintro ⟨hmem, rfl⟩
      exact ⟨⟨hmem, hkey⟩, rfl⟩

theorem values_perm (hnodup : (objects.map Deployable.key).Nodup) :
    (ofDeployables objects).values.Perm objects := by
  have hkeyed := keyed_ofDeployables objects
  refine (List.perm_ext_iff_of_nodup hkeyed.nodup_keys.of_map hnodup.of_map).mpr fun d => ?_
  rw [← and_iff_left (a := d ∈ (ofDeployables objects).values) (rfl : d.key = d.key),
    ← hkeyed.get?_iff, get?_ofDeployables hnodup, and_iff_left rfl]

end Memory

/-! ### One call -/

def Manifest.after (m : Manifest) : Store.Call → Store.Answer → Manifest
  | .create _, .created (.ok c) => m.extend [c]
  | .delete key, .deleted (.ok ()) => m.without key
  | _, _ => m

theorem Manifest.channels_after (m : Manifest) (call : Store.Call) (answer : Store.Answer) :
    (m.after call answer).channels = m.channels := by
  unfold Manifest.after
  split <;> rfl

namespace ManifestFile

open Store (Call Answer Step)

/-- A call went alike in a file and in memory. -/
structure Agrees (path : String) (channels : List Channel) (x : Step World) (y : Step Shelf) :
    Prop where
  call : x.call = y.call
  answer : x.answer.Alike y.answer
  /-- The file holds what the call makes of the manifest that it held. -/
  content : ∃ m, x.before.manifest path = .ok m ∧
    x.after.manifest path = .ok (m.after x.call x.answer) ∧
      (m.after x.call x.answer).channels = channels ∧
        ∀ space, x.call = .list space → x.answer = .listed (.ok (inSpace space m.deployables))
  /-- The objects in memory are in key order. -/
  ordered : ∀ objects, y.answer = .listed (.ok objects) →
    (objects.map Deployable.key).Pairwise (compare · · = .lt)
  unchanged : ∀ e, x.answer.failure? = some e →
    x.after.disk = x.before.disk ∧ y.after.memory = y.before.memory

/-- A file holds the objects that are in memory, and both stores will draw the same. -/
structure Mirrors (path : String) (w : World) (s : Shelf) (m : Manifest) : Prop where
  manifest : w.manifest path = .ok m
  memory : s.memory = .ofDeployables m.deployables
  supply : s.supply = w.supply
  drawn : s.drawn = w.drawn

variable {path : String} {w : World} {s : Shelf} {m : Manifest}

namespace Mirrors

theorem loaded (h : Mirrors path w s m) : m.Loaded := World.loaded_of_manifest h.manifest

theorem nodup (h : Mirrors path w s m) : (m.deployables.map Deployable.key).Nodup :=
  (Manifest.validate_eq_ok_iff.mp h.loaded.valid).1.2

theorem get? (h : Mirrors path w s m) (key : ObjectKey) :
    s.memory.get? key = m.deployable? key := by
  refine Option.ext fun d => ?_
  rw [h.memory, Memory.get?_ofDeployables h.nodup, Manifest.deployable?,
    find?_key_eq_some_iff h.nodup]

theorem contains (h : Mirrors path w s m) : s.memory.contains = m.isTaken := by
  funext key
  rw [SortedMap.contains, h.get?, Manifest.isTaken]

theorem afterDraw (h : Mirrors path w s m) : Mirrors path w.afterDraw s.afterDraw m :=
  ⟨h.manifest, h.memory, h.supply, by rw [Shelf.afterDraw, World.afterDraw, h.drawn]⟩

theorem objects_perm (h : Mirrors path w s m) : s.objects.Perm m.deployables := by
  rw [Shelf.objects, h.memory]
  exact Memory.values_perm h.nodup

theorem objects_ordered (h : Mirrors path w s m) (space : Option String) :
    ((inSpace space s.objects).map Deployable.key).Pairwise (compare · · = .lt) := by
  have hkeyed : s.memory.Keyed := by
    rw [h.memory]
    exact Memory.keyed_ofDeployables _
  cases space with
  | none => exact hkeyed.ordered
  | some space => exact hkeyed.ordered.sublist (List.filter_sublist.map _)

end Mirrors

theorem perm_inSpace {objects objects' : List Deployable} (h : objects.Perm objects')
    (space : Option String) : (inSpace space objects).Perm (inSpace space objects') := by
  cases space with
  | none => exact h
  | some space => exact h.filter _

/-- A call with these answers went alike in a file and in memory, and calls go on so. -/
structure GoesAlike (path : String) (w : World) (s : Shelf) (m : Manifest) (call : Call)
    (x : Answer × World) (y : Answer × Shelf) : Prop where
  agrees : Agrees path m.channels ⟨call, w, x.1, x.2⟩ ⟨call, s, y.1, y.2⟩
  mirrors : Mirrors path x.2 y.2 (m.after call x.1)

theorem list_goesAlike (h : Mirrors path w s m) (space : Option String) :
    GoesAlike path w s m (.list space) ((store path).call w (.list space))
      (Shelf.store.call s (.list space)) := by
  rw [Store.call, Store.call, runFrom_list, Shelf.runFrom_list, h.manifest]
  refine ⟨⟨rfl, .listed (perm_inSpace h.objects_perm.symm space),
    ⟨m, h.manifest, h.manifest, rfl, ?_⟩, ?_, nofun⟩, h⟩
  · rintro _ ⟨⟩
    rfl
  · rintro _ ⟨⟩
    exact h.objects_ordered space

theorem get_goesAlike (h : Mirrors path w s m) (key : ObjectKey) :
    GoesAlike path w s m (.get key) ((store path).call w (.get key))
      (Shelf.store.call s (.get key)) := by
  have hmemory : runFrom (Shelf.store.get key) s = (.ok (s.memory.get? key), s) := rfl
  rw [Store.call, Store.call, runFrom_get, hmemory, h.manifest, h.get?]
  exact ⟨⟨rfl, .got _, ⟨m, h.manifest, h.manifest, rfl, nofun⟩, nofun, nofun⟩, h⟩

/-- A call that fails in both stores with the same error changes nothing but the draws. -/
theorem failed_goesAlike {call : Call} {answer : Answer} {e : StoreError} {w' : World} {s' : Shelf}
    (h : Mirrors path w s m) (h' : Mirrors path w' s' m) (hdisk : w'.disk = w.disk)
    (hmemory : s'.memory = s.memory) (hanswer : answer.Alike answer)
    (hfailed : answer.failure? = some e) (hcall : ∀ space, call ≠ .list space) :
    GoesAlike path w s m call (answer, w') (answer, s') := by
  have hsame : m.after call answer = m ∧ ∀ objects, answer ≠ .listed (.ok objects) := by
    cases hanswer with
    | listed => cases hfailed
    | got => cases hfailed
    | created r =>
      cases r with
      | error => exact ⟨by cases call <;> rfl, nofun⟩
      | ok => cases hfailed
    | deleted r =>
      cases r with
      | error => exact ⟨by cases call <;> rfl, nofun⟩
      | ok => cases hfailed
  obtain ⟨hafter, hlisted⟩ := hsame
  refine ⟨⟨rfl, hanswer, ⟨m, h.manifest, ?_, ?_, fun space hlist => absurd hlist (hcall space)⟩,
    fun objects hobjects => absurd hobjects (hlisted objects), fun _ _ => ⟨hdisk, hmemory⟩⟩, ?_⟩
  · rw [hafter]
    exact h'.manifest
  · rw [hafter]
  · rw [hafter]
    exact h'

theorem holds_of_save {m' : Manifest} {text : String} (htext : m'.toToml = .ok text)
    (hreads : m'.ReadsBack) {w' : World} {answer : Except StoreError Unit}
    (hsave : runFrom (save path m') w = (answer, w'))
    (hfile : ∀ file cause, answer ≠ .error (.file file cause)) :
    answer = .ok () ∧ w'.manifest path = .ok m' ∧ w'.supply = w.supply ∧ w'.drawn = w.drawn := by
  cases answer with
  | error e =>
    obtain ⟨file, cause, rfl⟩ := save_error htext hsave
    exact absurd rfl (hfile file cause)
  | ok _ =>
    obtain ⟨text', disk, htext', rfl, hread⟩ := save_ok hsave
    exact ⟨rfl, by rw [hread, hreads text' htext'], rfl, rfl⟩

theorem create_goesAlike (h : Mirrors path w s m) {d : Deployable}
    (hsaves : ∀ p, d.StoredAs p → (m.extend [p]).validate = .ok () →
      (∃ text, (m.extend [p]).toToml = .ok text) ∧ (m.extend [p]).ReadsBack)
    (hfile : ∀ file cause, ((store path).call w (.create d)).1.failure? ≠ some (.file file cause)) :
    GoesAlike path w s m (.create d) ((store path).call w (.create d))
      (Shelf.store.call s (.create d)) := by
  rw [Store.call] at hfile ⊢
  rw [Store.call, Shelf.runFrom_create, Memory.create, h.contains, h.supply, h.drawn]
  rw [runFrom_create h.manifest] at hfile ⊢
  cases hprepare : prepareForCreate (w.supply w.drawn) m.isTaken d with
  | error e => exact failed_goesAlike h h.afterDraw rfl rfl (.created _) rfl nofun
  | ok p =>
    rw [hprepare] at hfile
    obtain ⟨hstored, hfree⟩ := prepareForCreate_ok hprepare
    obtain ⟨⟨text, htext⟩, hreads⟩ := hsaves p hstored
      (Manifest.validate_extend h.loaded.valid (isNamed_of_prepareForCreate hprepare) hfree)
    rcases hsave : runFrom (save path (m.extend [p])) w.afterDraw with ⟨answer, w'⟩
    dsimp only at hfile ⊢
    rw [hsave] at hfile ⊢
    obtain ⟨rfl, hholds, hsupply, hdrawn⟩ := holds_of_save htext hreads hsave (by
      rintro file cause rfl
      exact hfile file cause rfl)
    refine ⟨⟨rfl, .created (.ok p), ⟨m, h.manifest, hholds, rfl, nofun⟩, nofun, nofun⟩,
      ⟨hholds, ?_, h.supply.trans hsupply.symm, ?_⟩⟩
    · change s.memory.insert p.key p = Memory.ofDeployables (m.deployables ++ [p])
      rw [h.memory, Memory.ofDeployables_append]
    · change s.drawn + 1 = w'.drawn
      rw [h.drawn, hdrawn]
      rfl

theorem delete_goesAlike (h : Mirrors path w s m) {key : ObjectKey}
    (hsaves : (m.without key).validate = .ok () →
      (∃ text, (m.without key).toToml = .ok text) ∧ (m.without key).ReadsBack)
    (hfile : ∀ file cause,
      ((store path).call w (.delete key)).1.failure? ≠ some (.file file cause)) :
    GoesAlike path w s m (.delete key) ((store path).call w (.delete key))
      (Shelf.store.call s (.delete key)) := by
  rw [Store.call] at hfile ⊢
  rw [Store.call, Shelf.runFrom_delete, h.contains]
  rw [runFrom_delete h.manifest] at hfile ⊢
  by_cases htaken : m.isTaken key = true
  · rw [if_pos htaken] at hfile
    rw [if_pos htaken, if_pos htaken]
    obtain ⟨⟨text, htext⟩, hreads⟩ := hsaves (Manifest.validate_without h.loaded.valid key)
    rcases hsave : runFrom (save path (m.without key)) w with ⟨answer, w'⟩
    rw [hsave] at hfile
    obtain ⟨rfl, hholds, hsupply, hdrawn⟩ := holds_of_save htext hreads hsave (by
      rintro file cause rfl
      exact hfile file cause rfl)
    refine ⟨⟨rfl, .deleted (.ok ()), ⟨m, h.manifest, hholds, rfl, nofun⟩, nofun, nofun⟩,
      ⟨hholds, ?_, h.supply.trans hsupply.symm, h.drawn.trans hdrawn.symm⟩⟩
    change s.memory.erase key = Memory.ofDeployables (m.without key).deployables
    rw [h.memory, Manifest.without, Memory.ofDeployables_filter h.nodup]
  · rw [if_neg htaken, if_neg htaken]
    exact failed_goesAlike h h rfl rfl (.deleted _) rfl nofun

/-! ### Sequences of calls -/

theorem mem_after {call : Call} {d : Deployable}
    (hd : d ∈ (m.after call ((store path).call w call).1).deployables) :
    d ∈ m.deployables ∨ ∃ d', call = .create d' ∧ d'.StoredAs d := by
  cases call with
  | list => exact .inl hd
  | get => exact .inl hd
  | create d' =>
    rw [Store.call] at hd
    rcases hrun : runFrom ((store path).create d') w with ⟨e | c, w'⟩
    · rw [hrun] at hd
      exact .inl hd
    · rw [hrun] at hd
      obtain ⟨_, _, _, hprepare, _⟩ := create_ok hrun
      rcases List.mem_append.mp hd with hold | hnew
      · exact .inl hold
      · rw [List.mem_singleton.mp hnew]
        exact .inr ⟨d', rfl, (prepareForCreate_ok hprepare).1⟩
  | delete key =>
    rw [Store.call] at hd
    rcases hrun : runFrom ((store path).delete key) w with ⟨e | _, w'⟩
    · rw [hrun] at hd
      exact .inl hd
    · rw [hrun] at hd
      exact .inl (List.mem_of_mem_filter hd)

section

variable {channels : List Channel} {Q : Deployable → Prop}

/-- Manifests with these channels can be saved as long as their objects have a property. -/
def SavesWith (channels : List Channel) (Q : Deployable → Prop) : Prop :=
  ∀ m : Manifest, m.validate = .ok () → m.channels = channels → (∀ d ∈ m.deployables, Q d) →
    (∃ text, m.toToml = .ok text) ∧ m.ReadsBack

theorem goesAlike (hsaves : SavesWith channels Q) (h : Mirrors path w s m)
    (hchannels : m.channels = channels) (hobjects : ∀ d ∈ m.deployables, Q d) {call : Call}
    (hcall : ∀ d, call = .create d → ∀ p, d.StoredAs p → Q p)
    (hfile : ∀ file cause, ((store path).call w call).1.failure? ≠ some (.file file cause)) :
    GoesAlike path w s m call ((store path).call w call) (Shelf.store.call s call) := by
  cases call with
  | list space => exact list_goesAlike h space
  | get key => exact get_goesAlike h key
  | create d =>
    refine create_goesAlike h (fun p hp hvalid => hsaves _ hvalid hchannels ?_) hfile
    exact List.forall_mem_append.mpr ⟨hobjects, List.forall_mem_singleton.mpr (hcall d rfl p hp)⟩
  | delete key =>
    refine delete_goesAlike h (fun hvalid => hsaves _ hvalid hchannels fun d hd => ?_) hfile
    exact hobjects d (List.mem_of_mem_filter hd)

theorem steps_agree (hsaves : SavesWith channels Q) {calls : List Call}
    (hcalls : ∀ d, .create d ∈ calls → ∀ p, d.StoredAs p → Q p) {w : World} {s : Shelf}
    {m : Manifest} (h : Mirrors path w s m) (hchannels : m.channels = channels)
    (hobjects : ∀ d ∈ m.deployables, Q d)
    (hfiles : ∀ x ∈ (store path).steps w calls, ∀ file cause,
      x.answer.failure? ≠ some (.file file cause)) :
    List.Forall₂ (Agrees path channels) ((store path).steps w calls)
      (Shelf.store.steps s calls) := by
  induction calls generalizing w s m with
  | nil => exact .nil
  | cons call calls ih =>
    obtain ⟨hfile, hfiles⟩ := List.forall_mem_cons.mp hfiles
    have hcall d (hd : call = .create d) := hcalls d (hd ▸ List.mem_cons_self)
    obtain ⟨hagrees, hmirrors⟩ := goesAlike hsaves h hchannels hobjects hcall hfile
    rw [hchannels] at hagrees
    refine .cons hagrees (ih (fun d hd => hcalls d (List.mem_cons_of_mem _ hd)) hmirrors
      ((m.channels_after _ _).trans hchannels) (fun d hd => ?_) hfiles)
    rcases mem_after hd with hold | ⟨d', rfl, hstored⟩
    · exact hobjects d hold
    · exact hcall d' rfl d hstored

end

/-- An object that a sequence of calls is about: one that was there, or one that a call creates with
what the store gives it. -/
def Involved (m : Manifest) (calls : List Call) (d : Deployable) : Prop :=
  d ∈ m.deployables ∨ ∃ d', .create d' ∈ calls ∧ d'.StoredAs d

/-- The store in a file and the store in memory that is seeded with its objects go alike through any
sequence of calls with the same draws: if every object has a TOML form, if what is written of these
objects is read back, and if no file fails. -/
theorem refines_memory {path : String} {w : World} {m : Manifest} (calls : List Call)
    (hload : w.manifest path = .ok m) (hform : ∀ d, Involved m calls d → d.HasToml)
    (hreads : ∀ m' : Manifest, m'.validate = .ok () → m'.channels = m.channels →
      (∀ d ∈ m'.deployables, Involved m calls d) → m'.ReadsBack)
    (hfiles : ∀ x ∈ (store path).steps w calls, ∀ file cause,
      x.answer.failure? ≠ some (.file file cause)) :
    List.Forall₂ (Agrees path m.channels) ((store path).steps w calls)
      (Shelf.store.steps ⟨.ofDeployables m.deployables, w.supply, w.drawn⟩ calls) := by
  refine steps_agree (Q := Involved m calls) (fun m' hvalid hchannels hobjects => ?_)
    (fun d hd p hp => .inr ⟨d, hd, hp⟩) ⟨hload, rfl, rfl, rfl⟩ rfl (fun d hd => .inl hd) hfiles
  exact ⟨⟨_, Manifest.toToml_of_hasToml fun d hd => hform d (hobjects d hd)⟩,
    hreads m' hvalid hchannels hobjects⟩

def failedAtFile (x : Step World) : Bool :=
  match x.answer.failure? with
  | some (.file _ _) => true
  | _ => false

theorem saves_involved {m : Manifest} {calls : List Call}
    (hobjects : ∀ d ∈ m.deployables, d.Representable)
    (hcalls : ∀ d, .create d ∈ calls → d.Representable) :
    (∀ d, Involved m calls d → d.HasToml) ∧
      ∀ m' : Manifest, m'.validate = .ok () → (∀ d ∈ m'.deployables, Involved m calls d) →
        m'.ReadsBack := by
  have hall : ∀ d, Involved m calls d → d.Representable := by
    rintro d (hd | ⟨d', hd', hstored⟩)
    · exact hobjects d hd
    · exact hstored.representable_iff.mpr (hcalls d' hd')
  refine ⟨fun d hd => (hall d hd).form, fun m' hvalid hm' text htext => ?_⟩
  obtain ⟨text', htext', hparse⟩ := Manifest.saves_of_representable hvalid fun d hd =>
    hall d (hm' d hd)
  rw [htext] at htext'
  cases htext'
  exact hparse

def smallWorld : World :=
  { emptyWorld with
    disk := Disk.empty.put ["m"] (.text
      ("[[deployables]]\nmetadata = \x7b namespace = \"ns\", name = \"app\" \x7d\n" ++
        "[[channels]]\nmetadata = \x7b namespace = \"ns\", name = \"stable\" \x7d\n")) }

def smallManifest : Manifest := ⟨[.new "ns" "app"], [.new "ns" "stable"]⟩

/-- Calls of all kinds, of which two fail. -/
def smallCalls : List Call :=
  [.create (.new "ns" "app"), .delete ⟨"ns", "other"⟩, .get ⟨"ns", "app"⟩, .list none,
    .create declaring]

theorem small_refines_memory :
    List.Forall₂ (Agrees "m" smallManifest.channels) ((store "m").steps smallWorld smallCalls)
      (Shelf.store.steps ⟨.ofDeployables smallManifest.deployables, smallWorld.supply, 0⟩
        smallCalls) := by
  have hload : smallWorld.manifest "m" = .ok smallManifest := eq_ok_of_toOption (by decide +kernel)
  have hfiles :
      ((store "m").steps smallWorld smallCalls).all (fun x => !failedAtFile x) = true := by
    decide +kernel
  have hcreated : ∀ d, .create d ∈ smallCalls → d.Representable := by
    intro d hd
    simp only [smallCalls, List.mem_cons, Call.create.injEq, reduceCtorEq, false_or,
      List.not_mem_nil, or_false] at hd
    rcases hd with rfl | rfl <;> decide +kernel
  obtain ⟨hform, hreads⟩ := saves_involved (m := smallManifest) (by decide +kernel) hcreated
  refine refines_memory smallCalls hload hform (fun m' hvalid _ => hreads m' hvalid)
    fun x hx file cause hfailed => ?_
  have hx := List.all_eq_true.mp hfiles x hx
  simp [failedAtFile, hfailed] at hx

end ManifestFile

end Ferry
