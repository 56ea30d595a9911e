import Ferry.Proofs.Cleanup
import Ferry.Proofs.Store.Refusal

/-!
# Cleanups in which deletes fail

A cleanup asks for every delete, whatever the answers to the earlier ones are. So the
deletes that fail leave exactly their own objects behind, and the failure that the
cleanup ends with tells of these objects and of no others. Another cleanup takes them up.
-/
namespace Ferry

namespace Store

def refusing (cause? : ObjectKey → Option StoreError) : List Call → Call → Option StoreError
  | _, .delete key => cause? key
  | _, _ => none

def deleteAnswer (cause? : ObjectKey → Option StoreError) (key : ObjectKey) :
    Except StoreError Unit :=
  match cause? key with
  | some cause => .error cause
  | none => .ok ()

end Store

open Store

/-! ### Answers -/

section Answers

variable {cause? : ObjectKey → Option StoreError} {keys : List ObjectKey}

def refusedKeys (cause? : ObjectKey → Option StoreError) (keys : List ObjectKey) :
    List (ObjectKey × StoreError) :=
  keys.filterMap fun key => (cause? key).map fun cause => (key, cause)

theorem failedKeys_deleteAnswer :
    failedKeys (keys.map fun key => (key, deleteAnswer cause? key)) = refusedKeys cause? keys := by
  rw [failedKeys, refusedKeys, List.filterMap_map]
  congr 1
  funext key
  cases h : cause? key <;> simp [deleteAnswer, h]

theorem cleanupAnswer_of_unrefused (channel : ObjectKey) (h : ∀ key ∈ keys, cause? key = none) :
    cleanupAnswer channel (keys.map fun key => (key, deleteAnswer cause? key)) = .ok ⟨keys⟩ := by
  rw [← cleanupAnswer_ok channel keys]
  congr 1
  apply List.map_congr_left
  intro key hkey
  rw [deleteAnswer, h key hkey]

theorem cleanupAnswer_of_refused (channel : ObjectKey) (h : ∃ key ∈ keys, cause? key ≠ none) :
    cleanupAnswer channel (keys.map fun key => (key, deleteAnswer cause? key)) =
      .error (.cleanup ⟨some channel, refusedKeys cause? keys⟩) := by
  obtain ⟨key, hkey, hcause⟩ := h
  obtain ⟨cause, hsome⟩ := Option.ne_none_iff_exists'.mp hcause
  have hmem : (key, cause) ∈ refusedKeys cause? keys :=
    List.mem_filterMap.mpr ⟨key, hkey, by rw [hsome, Option.map_some]⟩
  rw [cleanupAnswer, failedKeys_deleteAnswer]
  split
  next hnil =>
    rw [hnil] at hmem
    cases hmem
  next => rfl

end Answers

namespace Shelf

/-- What a cleanup does and answers when the deletes of some keys are refused. -/
structure CleanedUp (cause? : ObjectKey → Option StoreError) (channel : ObjectKey)
    (s : Guarded Shelf) (answer : Except Failure CleanupReport) (t : Guarded Shelf) : Prop where
  plan : t.refusal? = s.refusal?
  /-- It asks for one delete for each object that retires with the channel. -/
  calls : t.calls =
    s.calls ++ .list (some channel.space) :: (s.state.retiring channel).map Call.delete
  content : ∀ key, t.state.memory.get? key = (s.state.memory.get? key).filter fun d =>
    !(d.retiresWith channel && (cause? key).isNone)
  left : t.state.retiring channel =
    (s.state.retiring channel).filter fun key => (cause? key).isSome
  ok : (∀ key ∈ s.state.retiring channel, cause? key = none) →
    answer = .ok ⟨s.state.retiring channel⟩
  failed : (∃ key ∈ s.state.retiring channel, cause? key ≠ none) →
    answer = .error (.cleanup ⟨some channel, refusedKeys cause? (s.state.retiring channel)⟩)

/-- The state after deletes of keys, of which some were refused. -/
def afterDeletes (cause? : ObjectKey → Option StoreError) (keys : List ObjectKey)
    (s : Guarded Shelf) : Guarded Shelf :=
  { s with
    state.memory :=
      (keys.filter fun key => (cause? key).isNone).foldl SortedMap.erase s.state.memory
    calls := s.calls ++ keys.map Call.delete }

variable {cause? : ObjectKey → Option StoreError} {s : Guarded Shelf}

theorem afterDeletes_nil : afterDeletes cause? [] s = s := by
  simp [afterDeletes]

theorem afterDeletes_cons (key : ObjectKey) (keys : List ObjectKey) :
    afterDeletes cause? (key :: keys) s =
      afterDeletes cause? keys (afterDeletes cause? [key] s) := by
  cases h : (cause? key).isNone <;> simp [afterDeletes, h]

theorem contains_afterDeletes_of_ne {key other : ObjectKey} (h : other ≠ key) :
    (afterDeletes cause? [key] s).state.memory.contains other =
      s.state.memory.contains other := by
  cases hcause : (cause? key).isNone <;>
    simp [afterDeletes, hcause, SortedMap.contains_erase_of_ne _ h]

theorem runFrom_delete_refusing (hplan : s.refusal? = refusing cause?) {key : ObjectKey}
    (hthere : s.state.memory.contains key = true) :
    runFrom (store.guarded.delete key) s =
      (deleteAnswer cause? key, afterDeletes cause? [key] s) := by
  have hrefusal : s.refusal? s.calls (.delete key) = cause? key := by rw [hplan, refusing]
  change runFrom (attempt (.delete key) (store.delete key)) s = _
  rw [runFrom_attempt, hrefusal, runFrom_delete, if_pos hthere]
  cases hcause : cause? key <;> simp [deleteAnswer, afterDeletes, hcause]

/-- Deletes of different objects are all attempted, and each of them fails only if it is refused. -/
theorem run_deleteEach_refusing {keys : List ObjectKey} (hnodup : keys.Nodup)
    (hplan : s.refusal? = refusing cause?)
    (hthere : ∀ key ∈ keys, s.state.memory.contains key = true) :
    StateT.run (deleteEach store.guarded keys) s =
      (keys.map fun key => (key, deleteAnswer cause? key), afterDeletes cause? keys s) := by
  refine run_deleteEach_of_step store.guarded
    (fun s key => s.refusal? = refusing cause? ∧ s.state.memory.contains key = true)
    (afterDeletes cause?) (fun _ => afterDeletes_nil)
    (fun key keys _ => afterDeletes_cons key keys) ?_ ?_ hnodup
    fun key hkey => ⟨hplan, hthere key hkey⟩
  · rintro key s ⟨hs, hkey⟩
    exact runFrom_delete_refusing hs hkey
  · rintro key other s hne ⟨hs, hother⟩
    refine ⟨hs, ?_⟩
    rwa [contains_afterDeletes_of_ne hne]

theorem runFrom_list_refusing (hplan : s.refusal? = refusing cause?) (space : Option String) :
    runFrom (store.guarded.list space) s =
      (.ok (inSpace space s.state.objects), { s with calls := s.calls ++ [.list space] }) := by
  have hrefusal : s.refusal? s.calls (.list space) = none := by
    rw [hplan]
    rfl
  change runFrom (attempt (.list space) (store.list space)) s = _
  rw [runFrom_attempt, hrefusal, runFrom_list]

section Retiring

variable (hs : s.state.memory.Keyed) (channel : ObjectKey)
include hs

theorem get?_afterDeletes (key : ObjectKey) :
    (afterDeletes cause? (s.state.retiring channel) s).state.memory.get? key =
      (s.state.memory.get? key).filter fun d =>
        !(d.retiresWith channel && (cause? key).isNone) := by
  rw [afterDeletes, SortedMap.get?_foldl_erase]
  cases hget : s.state.memory.get? key with
  | none => simp
  | some d =>
    have hgone : key ∈ (s.state.retiring channel).filter (fun key => (cause? key).isNone) ↔
        (d.retiresWith channel && (cause? key).isNone) = true := by
      rw [List.mem_filter, Bool.and_eq_true, mem_retiring_iff hs channel hget]
    simp only [hgone, Option.filter_some]
    cases d.retiresWith channel && (cause? key).isNone <;> rfl

theorem retiring_afterDeletes :
    (afterDeletes cause? (s.state.retiring channel) s).state.retiring channel =
      (s.state.retiring channel).filter fun key => (cause? key).isSome := by
  let gone := (s.state.retiring channel).filter fun key => (cause? key).isNone
  have hobjects : (afterDeletes cause? (s.state.retiring channel) s).state.objects =
      s.state.objects.filter fun d => d.key ∉ gone := hs.values_foldl_erase gone
  have hleft : ∀ d ∈ s.state.objects, (d.retiresWith channel && decide (d.key ∉ gone)) =
      ((cause? d.key).isSome && d.retiresWith channel) := by
    intro d hd
    have hget := hs.get?_iff.mpr ⟨hd, rfl⟩
    have hgone : d.key ∈ gone ↔ d.retiresWith channel = true ∧ cause? d.key = none := by
      rw [List.mem_filter, Option.isNone_iff_eq_none, mem_retiring_iff hs channel hget]
    cases hretires : d.retiresWith channel <;> cases hcause : cause? d.key <;>
      simp [hgone, hretires, hcause]
  calc (afterDeletes cause? (s.state.retiring channel) s).state.retiring channel
    _ = (s.state.objects.filter fun d =>
          d.retiresWith channel && decide (d.key ∉ gone)).map Deployable.key := by
        rw [retiring, hobjects, List.filter_filter]
    _ = (s.state.objects.filter fun d =>
          (cause? d.key).isSome && d.retiresWith channel).map Deployable.key :=
        congrArg _ (List.filter_congr hleft)
    _ = (s.state.retiring channel).filter fun key => (cause? key).isSome := by
        rw [retiring, List.filter_map, List.filter_filter]
        rfl

end Retiring

/-- A cleanup of a keyed content does and answers what it should, whatever deletes are refused. -/
theorem cleanedUp_of_run (hs : s.state.memory.Keyed) (hplan : s.refusal? = refusing cause?)
    {channel : ObjectKey} {answer : Except Failure CleanupReport} {t : Guarded Shelf}
    (hrun : runFrom (cleanup store.guarded channel) s = (answer, t)) :
    CleanedUp cause? channel s answer t := by
  let listed : Guarded Shelf := { s with calls := s.calls ++ [.list (some channel.space)] }
  have hlist := runFrom_list_refusing hplan (some channel.space)
  have hdeletes := run_deleteEach_refusing (s := listed) (nodup_retiring hs channel) hplan
    fun key => contains_of_mem_retiring hs channel
  rw [retiring, ← filter_inSpace] at hdeletes
  have hcleanup := Ferry.runFrom_cleanup hlist hdeletes
  rw [hrun, filter_inSpace] at hcleanup
  obtain ⟨rfl, rfl⟩ := Prod.mk.inj hcleanup
  exact {
    plan := rfl
    calls := List.append_assoc ..
    content := get?_afterDeletes (s := listed) hs channel
    left := retiring_afterDeletes (s := listed) hs channel
    ok := cleanupAnswer_of_unrefused channel
    failed := cleanupAnswer_of_refused channel }

namespace CleanedUp

variable {channel : ObjectKey} {answer : Except Failure CleanupReport} {t : Guarded Shelf}

theorem keyed (h : CleanedUp cause? channel s answer t) (hs : s.state.memory.Keyed) :
    t.state.memory.Keyed := by
  intro key d hget
  rw [h.content, Option.filter_eq_some_iff] at hget
  exact hs key d hget.1

theorem answer_eq (h : CleanedUp (fun _ => none) channel s answer t) :
    answer = .ok ⟨s.state.retiring channel⟩ :=
  h.ok fun _ _ => rfl

theorem left_eq_nil (h : CleanedUp (fun _ => none) channel s answer t) :
    t.state.retiring channel = [] := by
  rw [h.left, List.filter_eq_nil_iff]
  exact fun _ _ => Bool.false_ne_true

theorem memory_eq (h : CleanedUp cause? channel s answer t) (hs : s.state.memory.Keyed)
    (hnone : s.state.retiring channel = []) : t.state.memory = s.state.memory := by
  apply SortedMap.ext_get?
  intro key
  rw [h.content]
  cases hget : s.state.memory.get? key with
  | none => rfl
  | some d =>
    have hstays : d.retiresWith channel = false := by
      rw [← Bool.not_eq_true, ← mem_retiring_iff hs channel hget, hnone]
      exact List.not_mem_nil
    simp [hstays]

end CleanedUp

/-- Whatever deletes are refused, a cleanup of any content deletes the rest of what retires and
tells of the refused ones; a second one, in which nothing is refused, deletes exactly these, and a
third one nothing. If the objects cannot be listed, no delete is attempted. -/
theorem cleanup_leaves_refused (seed : List Deployable) (supply : Nat → Allocation) (drawn : Nat)
    (calls : List Call) (cause? : ObjectKey → Option StoreError) (channel : ObjectKey) :
    let s : Guarded Shelf := ⟨⟨.ofDeployables seed, supply, drawn⟩, refusing cause?, calls⟩
    let left := (s.state.retiring channel).filter fun key => (cause? key).isSome
    (∀ answer t, runFrom (cleanup store.guarded channel) s = (answer, t) →
      CleanedUp cause? channel s answer t ∧
      let healed : Guarded Shelf := { t with refusal? := refusing fun _ => none }
      ∀ answer' u, runFrom (cleanup store.guarded channel) healed = (answer', u) →
        CleanedUp (fun _ => none) channel healed answer' u ∧ answer' = .ok ⟨left⟩ ∧
        ∀ answer'' v, runFrom (cleanup store.guarded channel) u = (answer'', v) →
          answer'' = .ok ⟨[]⟩ ∧ v.state.memory = u.state.memory ∧
            v.calls = u.calls ++ [.list (some channel.space)]) ∧
    ∀ refusal? e, refusal? calls (.list (some channel.space)) = some e →
      runFrom (cleanup store.guarded channel) { s with refusal? } =
        (.error (.store
            ("failed to list deployables while cleaning up channel " ++ channel.text) e),
          { s with refusal?, calls := calls ++ [.list (some channel.space)] }) := by
  intro s left
  have hs : s.state.memory.Keyed := Memory.keyed_ofDeployables seed
  constructor
  · intro answer t hrun
    have hfirst := cleanedUp_of_run hs rfl hrun
    refine ⟨hfirst, ?_⟩
    intro healed answer' u hrun'
    have hhealed : healed.state.memory.Keyed := hfirst.keyed hs
    have hsecond := cleanedUp_of_run hhealed rfl hrun'
    refine ⟨hsecond, ?_, ?_⟩
    · have hleft : healed.state.retiring channel = left := hfirst.left
      rw [hsecond.answer_eq, hleft]
    · intro answer'' v hrun''
      have hu := hsecond.keyed hhealed
      have hnone := hsecond.left_eq_nil
      have hthird := cleanedUp_of_run hu hsecond.plan hrun''
      have hanswer := hthird.answer_eq
      have hcalls := hthird.calls
      rw [hnone] at hanswer hcalls
      exact ⟨hanswer, hthird.memory_eq hu hnone, hcalls⟩
  · intro refusal? e hrefused
    apply runFrom_cleanup_unlisted
    change runFrom (attempt (.list (some channel.space)) (store.list (some channel.space))) _ = _
    rw [runFrom_attempt]
    simp only [s, hrefused]

def crowd : List Deployable :=
  let declaring (name : String) := (Deployable.new "b" name).withChannel ⟨"b", "c"⟩
  [declaring "x", .new "b" "other", declaring "y", declaring "z"]

/-- Of the objects that declare the channel two stay at first, and all of them if they cannot be
listed. -/
theorem crowd_cleaned_up :
    let channel : ObjectKey := ⟨"b", "c"⟩
    let down : StoreError := .unavailable "down"
    let cause? (key : ObjectKey) := if key.name = "z" then none else some down
    let s : Guarded Shelf :=
      ⟨⟨.ofDeployables crowd, fun _ => ⟨["1"], "u", default⟩, 0⟩, refusing cause?, []⟩
    let first := runFrom (cleanup store.guarded channel) s
    let healed : Guarded Shelf := { first.2 with refusal? := refusing fun _ => none }
    let second := runFrom (cleanup store.guarded channel) healed
    let third := runFrom (cleanup store.guarded channel) second.2
    let unlisted := runFrom (cleanup store.guarded channel) { s with refusal? := fun _ _ => down }
    CleanedUp cause? channel s first.1 first.2 ∧
      first.1 = .error (.cleanup ⟨some channel, [(⟨"b", "x"⟩, down), (⟨"b", "y"⟩, down)]⟩) ∧
      first.2.state.memory.keys = [⟨"b", "other"⟩, ⟨"b", "x"⟩, ⟨"b", "y"⟩] ∧
      CleanedUp (fun _ => none) channel healed second.1 second.2 ∧
      second.1 = .ok ⟨[⟨"b", "x"⟩, ⟨"b", "y"⟩]⟩ ∧
      second.2.state.memory.keys = [⟨"b", "other"⟩] ∧ third.1 = .ok ⟨[]⟩ ∧
      unlisted.2.calls = [.list (some "b")] := by
  intro channel down cause? s first healed second third unlisted
  have hretiring : s.state.retiring channel = [⟨"b", "x"⟩, ⟨"b", "y"⟩, ⟨"b", "z"⟩] := by
    decide +kernel
  have hkept : first.2.state.memory.keys = [⟨"b", "other"⟩, ⟨"b", "x"⟩, ⟨"b", "y"⟩] := by
    decide +kernel
  have hleft : second.2.state.memory.keys = [⟨"b", "other"⟩] := by decide +kernel
  have hrun₁ : runFrom (cleanup store.guarded channel) s = first := rfl
  have hrun₂ : runFrom (cleanup store.guarded channel) healed = second := rfl
  have hrun₃ : runFrom (cleanup store.guarded channel) second.2 = third := rfl
  -- From here on the runs are not evaluated any more.
  clear_value third second first
  obtain ⟨hruns, hunlisted⟩ := cleanup_leaves_refused crowd s.state.supply 0 [] cause? channel
  obtain ⟨hfirst, hlater⟩ := hruns first.1 first.2 hrun₁
  obtain ⟨hsecond, hanswer, hlast⟩ := hlater second.1 second.2 hrun₂
  obtain ⟨hthird, -⟩ := hlast third.1 third.2 hrun₃
  have hdown := hunlisted (fun _ _ => down) down rfl
  have hrefused := hfirst.failed
    ⟨⟨"b", "x"⟩, by rw [hretiring]; exact List.mem_cons_self, by decide⟩
  rw [hretiring] at hanswer hrefused
  exact ⟨hfirst, hrefused, hkept, hsecond, hanswer, hleft, hthird, congrArg (·.2.calls) hdown⟩

end Shelf

end Ferry
