import Ferry.Cleanup
import Ferry.Proofs.Store.Memory

/-!
# Cleanup of stores

A cleanup makes one delete after another, whatever they answer, so it keeps what
each delete keeps. In memory every delete succeeds, and what is left are exactly
the objects that do not both declare the channel and stand in its namespace.
-/
namespace Ferry

def Deployable.retiresWith (d : Deployable) (channel : ObjectKey) : Bool :=
  d.space = channel.space && d.declares channel

theorem filter_inSpace (channel : ObjectKey) (objects : List Deployable) :
    (inSpace (some channel.space) objects).filter (·.declares channel) =
      objects.filter (·.retiresWith channel) := by
  rw [inSpace, List.filter_filter]
  apply List.filter_congr
  intro d _
  rw [Deployable.retiresWith, Bool.and_comm]

section Each

variable {σ : Type} {store : Store (StateM σ)}

theorem run_deleteEach_cons (store : Store (StateM σ)) (key : ObjectKey) (keys : List ObjectKey)
    (s : σ) :
    StateT.run (deleteEach store (key :: keys)) s =
      let first := runFrom (store.delete key) s
      let later := StateT.run (deleteEach store keys) first.2
      ((key, first.1) :: later.1, later.2) := by
  unfold deleteEach
  rw [List.mapM_cons]
  rfl

theorem deleteEach_invariant {P : σ → Prop}
    (hdelete : ∀ {key s answer t}, runFrom (store.delete key) s = (answer, t) → P s → P t)
    (keys : List ObjectKey) {s : σ} (hs : P s) : P (StateT.run (deleteEach store keys) s).2 := by
  induction keys generalizing s with
  | nil => exact hs
  | cons key keys ih =>
    rw [run_deleteEach_cons]
    exact ih (hdelete rfl hs)

/-- Deletes of different objects, if a delete of one of them does not meddle with the others: `P`
says that an object can be deleted, and `after` what deletes make of the state. -/
theorem run_deleteEach_of_step (store : Store (StateM σ)) (P : σ → ObjectKey → Prop)
    (after : List ObjectKey → σ → σ) {answer : ObjectKey → Except StoreError Unit}
    (hnil : ∀ s, after [] s = s)
    (hcons : ∀ key keys s, after (key :: keys) s = after keys (after [key] s))
    (hdelete : ∀ key s, P s key → runFrom (store.delete key) s = (answer key, after [key] s))
    (hkeeps : ∀ key other s, other ≠ key → P s other → P (after [key] s) other)
    {keys : List ObjectKey} (hnodup : keys.Nodup) {s : σ} (hs : ∀ key ∈ keys, P s key) :
    StateT.run (deleteEach store keys) s =
      (keys.map fun key => (key, answer key), after keys s) := by
  induction keys generalizing s with
  | nil =>
    rw [hnil]
    rfl
  | cons key keys ih =>
    obtain ⟨hkey, hkeys⟩ := List.nodup_cons.mp hnodup
    obtain ⟨hfirst, hrest⟩ := List.forall_mem_cons.mp hs
    have hlater : ∀ other ∈ keys, P (after [key] s) other := by
      intro other hother
      have hne : other ≠ key := fun heq => hkey (heq ▸ hother)
      exact hkeeps key other s hne (hrest other hother)
    rw [run_deleteEach_cons, hdelete key s hfirst]
    simp only [ih hkeys hlater]
    rw [← hcons]
    rfl

def cleanupAnswer (channel : ObjectKey) (answers : List (ObjectKey × Except StoreError Unit)) :
    Except Failure CleanupReport :=
  match failedKeys answers with
  | [] => .ok ⟨deletedKeys answers⟩
  | failures => .error (.cleanup ⟨some channel, failures⟩)

theorem cleanupAnswer_ok (channel : ObjectKey) (keys : List ObjectKey) :
    cleanupAnswer channel (keys.map fun key => (key, .ok ())) = .ok ⟨keys⟩ := by
  have hfailed : failedKeys (keys.map fun key => (key, .ok ())) = [] := by
    simp [failedKeys]
  have hdeleted : deletedKeys (keys.map fun key => (key, .ok ())) = keys := by
    rw [deletedKeys, List.filterMap_map]
    exact List.filterMap_some
  rw [cleanupAnswer, hfailed, hdeleted]

theorem runFrom_cleanup {channel : ObjectKey} {s t t' : σ} {objects : List Deployable}
    {answers : List (ObjectKey × Except StoreError Unit)}
    (hlist : runFrom (store.list (some channel.space)) s = (.ok objects, t))
    (hdeletes : StateT.run
      (deleteEach store ((objects.filter (·.declares channel)).map Deployable.key)) t =
        (answers, t')) :
    runFrom (cleanup store channel) s = (cleanupAnswer channel answers, t') := by
  have hlift : runFrom (ExceptT.lift
      (deleteEach store ((objects.filter (·.declares channel)).map Deployable.key)) :
        ExceptT Failure (StateM σ) _) t = (.ok answers, t') := by
    rw [runFrom_lift, hdeletes]
  unfold cleanup cleanupAnswer
  rw [runFrom_bind_ok (runFrom_adapt_ok hlist), runFrom_bind_ok hlift]
  cases failedKeys answers <;> rfl

theorem runFrom_cleanup_unlisted {channel : ObjectKey} {s t : σ} {e : StoreError}
    (hlist : runFrom (store.list (some channel.space)) s = (.error e, t)) :
    runFrom (cleanup store channel) s =
      (.error (.store ("failed to list deployables while cleaning up channel " ++ channel.text) e),
        t) := by
  unfold cleanup
  exact runFrom_bind_error (runFrom_adapt_error hlist)

theorem cleanup_invariant {P : σ → Prop}
    (hlist : ∀ {space s answer t}, runFrom (store.list space) s = (answer, t) → P s → P t)
    (hdelete : ∀ {key s answer t}, runFrom (store.delete key) s = (answer, t) → P s → P t)
    (channel : ObjectKey) {s : σ} (hs : P s) : P (runFrom (cleanup store channel) s).2 := by
  rcases hlisted : runFrom (store.list (some channel.space)) s with ⟨e | objects, t⟩
  · rw [runFrom_cleanup_unlisted hlisted]
    exact hlist hlisted hs
  · rw [runFrom_cleanup hlisted rfl]
    exact deleteEach_invariant hdelete _ (hlist hlisted hs)

end Each

namespace Shelf

/-- The keys of what goes when a channel is retired, in the order of lists. -/
def retiring (s : Shelf) (channel : ObjectKey) : List ObjectKey :=
  (s.objects.filter (·.retiresWith channel)).map Deployable.key

theorem run_deleteEach {keys : List ObjectKey} (hnodup : keys.Nodup) {s : Shelf}
    (hthere : ∀ key ∈ keys, s.memory.contains key = true) :
    StateT.run (deleteEach store keys) s =
      (keys.map fun key => (key, .ok ()),
        { s with memory := keys.foldl SortedMap.erase s.memory }) := by
  refine run_deleteEach_of_step store (fun s key => s.memory.contains key = true)
    (fun keys s => { s with memory := keys.foldl SortedMap.erase s.memory })
    (fun _ => rfl) (fun _ _ _ => rfl) ?_ ?_ hnodup hthere
  · intro key s hkey
    rw [runFrom_delete, if_pos hkey]
    rfl
  · intro key other s hne hother
    change (s.memory.erase key).contains other = true
    rwa [SortedMap.contains_erase_of_ne _ hne]

section Retiring

variable {s : Shelf} (hs : s.memory.Keyed) (channel : ObjectKey) {key : ObjectKey}
include hs

theorem nodup_retiring : (s.retiring channel).Nodup :=
  hs.nodup_keys.sublist (List.filter_sublist.map _)

theorem contains_of_mem_retiring (h : key ∈ s.retiring channel) :
    s.memory.contains key = true := by
  obtain ⟨d, hd, hkey⟩ := List.mem_map.mp h
  have hget := hs.get?_iff.mpr ⟨(List.mem_filter.mp hd).1, hkey⟩
  rw [SortedMap.contains, hget, Option.isSome_some]

theorem mem_retiring_iff {d : Deployable} (hget : s.memory.get? key = some d) :
    key ∈ s.retiring channel ↔ d.retiresWith channel = true := by
  obtain ⟨hmem, hkey⟩ := hs.get?_iff.mp hget
  constructor
  · intro hretiring
    obtain ⟨d', hd', hsame⟩ := List.mem_map.mp hretiring
    obtain ⟨hmem', hretires⟩ := List.mem_filter.mp hd'
    have hget' := hs.get?_iff.mpr ⟨hmem', hsame⟩
    obtain rfl : d = d' := Option.some.inj (hget.symm.trans hget')
    exact hretires
  · intro hretires
    exact List.mem_map.mpr ⟨d, List.mem_filter.mpr ⟨hmem, hretires⟩, hkey⟩

end Retiring

theorem mem_left_iff {s t : Shelf} {channel : ObjectKey}
    (hleft : ∀ key, t.memory.get? key =
      (s.memory.get? key).filter fun d => !d.retiresWith channel) {q : Deployable} :
    q ∈ t.objects ↔ q ∈ s.objects ∧ q.retiresWith channel = false := by
  simp [objects, SortedMap.mem_values_iff, hleft, Option.filter_eq_some_iff]

/-- A cleanup in memory succeeds. It deletes in key order all that retires with the channel, and
leaves the rest. -/
theorem runFrom_cleanup {s : Shelf} (hs : s.memory.Keyed) (channel : ObjectKey) :
    ∃ t, runFrom (cleanup store channel) s = (.ok ⟨s.retiring channel⟩, t) ∧
      ∀ key, t.memory.get? key = (s.memory.get? key).filter fun d => !d.retiresWith channel := by
  have hdeletes := run_deleteEach (nodup_retiring hs channel)
    fun key => contains_of_mem_retiring hs channel
  rw [retiring, ← filter_inSpace] at hdeletes
  have hrun := Ferry.runFrom_cleanup (runFrom_list (some channel.space) s) hdeletes
  rw [cleanupAnswer_ok, filter_inSpace] at hrun
  refine ⟨_, hrun, ?_⟩
  intro key
  rw [SortedMap.get?_foldl_erase]
  cases hget : s.memory.get? key with
  | none => simp
  | some d =>
    have hmem := mem_retiring_iff hs channel hget
    rw [retiring] at hmem
    cases hretires : d.retiresWith channel <;> simp [Option.filter, hmem, hretires]

end Shelf

end Ferry
