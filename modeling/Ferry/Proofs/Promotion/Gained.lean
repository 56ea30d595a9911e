import Ferry.Proofs.Promotion.Made
import Ferry.Proofs.Store.Memory
import Ferry.Proofs.Store.Refusal

/-!
# What a promotion adds

Up to names, uids and times the new objects of a promotion are the projections
into the channels in which it found none: into all of them if it succeeds, into a
first part of them if it fails. It fails exactly if a call of the store does. The
new objects change nothing of what is found for channels of other identities.
-/
namespace Ferry.Promotion

/-- The objects after a run are those before it and one projection of `d` into each of the channels,
but for names, uids and times. -/
def Gained (d : Deployable) (keys : List ObjectKey) (before after : List Deployable) : Prop :=
  ∃ new, after.Perm (before ++ new) ∧ (new.map Deployable.unstored).Perm (keys.map (project d))

variable {d : Deployable} {channels : List Channel} {made : List (ObjectKey × Deployable)}
  {before after after' : List Deployable} {keys keys' : List ObjectKey}

theorem Gained.perm (h : Gained d keys before after) (hkeys : keys.Perm keys') :
    Gained d keys' before after := by
  obtain ⟨new, hafter, hnew⟩ := h
  exact ⟨new, hafter, hnew.trans (hkeys.map (project d))⟩

theorem Gained.append {last : List Deployable} (h : Gained d keys before after)
    (h' : Gained d keys' after last) : Gained d (keys ++ keys') before last := by
  obtain ⟨new, hafter, hnew⟩ := h
  obtain ⟨new', hlast, hnew'⟩ := h'
  refine ⟨new ++ new', ?_, ?_⟩
  · rw [← List.append_assoc]
    exact hlast.trans (hafter.append_right new')
  · rw [List.map_append, List.map_append]
    exact hnew.append hnew'

theorem Gained.alike (h : Gained d keys before after) (h' : Gained d keys before after') :
    GrownAlike before after after' := by
  obtain ⟨new, hafter, hnew⟩ := h
  obtain ⟨new', hafter', hnew'⟩ := h'
  exact ⟨new, new', hafter, hafter', hnew.trans hnew'.symm⟩

theorem Kept.gained (h : Kept d made before after) :
    Gained d (made.map Prod.fst) before after := by
  refine ⟨made.map Prod.snd, h.grown.perm, ?_⟩
  have hsame : ∀ m ∈ made, m.2.unstored = project d m.1 := by
    intro m hm
    rw [(h.stored m hm).unstored_eq, project_unstored]
  rw [List.map_map, List.map_map]
  exact .of_eq (List.map_congr_left hsame)

theorem Kept.append {made' : List (ObjectKey × Deployable)} (h : Kept d made before after)
    (h' : Kept d made' after after') : Kept d (made ++ made') before after' where
  stored m hm := (List.mem_append.mp hm).elim (h.stored m) (h'.stored m)
  grown := by
    rw [List.map_append]
    exact h.grown.append h'.grown

/-- A new object is for one channel, so it does not change what is found for another one. -/
theorem Kept.found?_of_ne (h : Kept d made before after) (hkeys : eligibleKeys d channels ≠ [])
    {key : ObjectKey} (hne : ∀ m ∈ made, m.1.text ≠ key.text) :
    found? after d channels key = found? before d channels key := by
  have hother : ∀ p ∈ made.map Prod.snd,
      isChildFor d (eligibleSpaces d channels) key p = false ∧
        isProjectionInto d.root key p = false := by
    intro p hp
    obtain ⟨m, hm, rfl⟩ := List.mem_map.mp hp
    exact eq_false_of_storedAs (h.stored m hm) (hne m hm) d _ _
  rw [found?_eq hkeys, found?_eq hkeys, h.grown.find?_reverse fun p hp => (hother p hp).1,
    h.grown.find?_reverse fun p hp => (hother p hp).2]

theorem Kept.found?_ne_none (h : Kept d made before after) (hkeys : eligibleKeys d channels ≠ [])
    {m : ObjectKey × Deployable} (hm : m ∈ made) : found? after d channels m.1 ≠ none := by
  intro hnone
  have hnot := ((found?_eq_none_iff hkeys).mp hnone m.2 (h.mem_of_made hm)).1
  rw [h.projects hm] at hnot
  cases hnot

theorem nodup_texts (h : (channels.map Channel.identity).Nodup) (d : Deployable) :
    ((eligibleKeys d channels).map ObjectKey.text).Nodup := by
  have hsub : (eligible d channels).Sublist channels := List.filter_sublist
  have hnodup := h.sublist (hsub.map Channel.identity)
  rw [eligibleKeys, List.map_map]
  exact hnodup

variable {σ : Type} {store : Store (StateM σ)} {objects : σ → List Deployable} {s s' : σ}
  {result : Except Failure PromotionReport}

theorem snapshot_eq (hstore : store.Steady objects) {snapshot : List Deployable}
    (hlist : runFrom (store.list none) s = (.ok snapshot, s')) : snapshot = objects s := by
  rw [(hstore.list hlist).1, inSpace_none]

/-- However a promotion ends, it made projections for the first of the missing channels. -/
theorem Course.made_prefix (h : Course store d channels s result made s')
    (hstore : store.Steady objects) : made.map Prod.fst <+: missing (objects s) d channels := by
  cases h with
  | idle => exact List.nil_prefix
  | unlisted => exact List.nil_prefix
  | completed _ hlist hplaced =>
    obtain rfl := snapshot_eq hstore hlist
    rw [hplaced.made_keys]
    exact List.prefix_rfl
  | stopped hsplit hlist hplaced _ _ =>
    obtain rfl := snapshot_eq hstore hlist
    rw [hplaced.made_keys, missing, hsplit, List.filter_append]
    exact List.prefix_append _ _

theorem Course.made_eq_missing {report : PromotionReport}
    (h : Course store d channels s (.ok report) made s') (hstore : store.Steady objects) :
    made.map Prod.fst = missing (objects s) d channels := by
  cases h with
  | idle hkeys => simp [missing, hkeys]
  | completed _ hlist hplaced =>
    obtain rfl := snapshot_eq hstore hlist
    exact hplaced.made_keys

theorem Placed.exists_create {found? : ObjectKey → Option Deployable}
    {entries : List (ObjectKey × Outcome)}
    (h : Placed store d found? s keys entries made s') :
    ∀ m ∈ made, ∃ t u, runFrom (store.create (project d m.1)) t = (.ok m.2, u) := by
  induction h with
  | nil => simp
  | present _ _ ih => exact ih
  | created _ hcreate _ ih => exact List.forall_mem_cons.mpr ⟨⟨_, _, hcreate⟩, ih⟩

theorem Course.exists_create (h : Course store d channels s result made s') :
    ∀ m ∈ made, ∃ t u, runFrom (store.create (project d m.1)) t = (.ok m.2, u) := by
  cases h with
  | idle => simp
  | unlisted => simp
  | completed _ _ hplaced => exact hplaced.exists_create
  | stopped _ _ hplaced _ _ => exact hplaced.exists_create

theorem Course.keyed {shelf shelf' : Shelf}
    (h : Course Shelf.store d channels shelf result made shelf') (hkeyed : shelf.memory.Keyed) :
    shelf'.memory.Keyed := by
  refine h.invariant (P := fun t => t.memory.Keyed) ?_ Shelf.keyed_of_create hkeyed
  intro t answer u hlist ht
  rwa [Shelf.memory_of_list hlist]

section Failures

variable {t t' : Watched σ}

theorem Placed.failures_eq {found? : ObjectKey → Option Deployable}
    {entries : List (ObjectKey × Outcome)}
    (h : Placed store.watched d found? t keys entries made t') : t'.failures = t.failures := by
  induction h with
  | nil => rfl
  | present _ _ ih => exact ih
  | created _ hcreate _ ih => rw [ih, (Store.watch_ok hcreate).2]

theorem Course.failures_of_ok {report : PromotionReport}
    (h : Course store.watched d channels t (.ok report) made t') : t'.failures = t.failures := by
  cases h with
  | idle => rfl
  | completed _ hlist hplaced => rw [hplaced.failures_eq, (Store.watch_ok hlist).2]

theorem Course.failures_of_error {e : Failure}
    (h : Course store.watched d channels t (.error e) made t') :
    ∃ failure, t'.failures = t.failures ++ [failure] := by
  cases h with
  | unlisted _ hlist => exact ⟨_, (Store.watch_error hlist).2⟩
  | stopped _ hlist hplaced _ hcreate =>
    have hbefore := hplaced.failures_eq.trans (Store.watch_ok hlist).2
    have hlast := (Store.watch_error hcreate).2
    rw [hbefore] at hlast
    exact ⟨_, hlast⟩

theorem failures_extend (hrun : runFrom (promote store.watched d channels) t = (result, t')) :
    t.failures <+: t'.failures := by
  obtain ⟨made, hcourse⟩ := course_of_run hrun
  cases result with
  | ok report => exact ⟨[], by rw [hcourse.failures_of_ok, List.append_nil]⟩
  | error e =>
    obtain ⟨failure, hfailure⟩ := hcourse.failures_of_error
    exact ⟨[failure], hfailure.symm⟩

theorem course_of_unfailing (hrun : runFrom (promote store.watched d channels) t = (result, t'))
    (hnone : t'.failures = t.failures) :
    ∃ report made, result = .ok report ∧
      Course store.watched d channels t (.ok report) made t' := by
  obtain ⟨made, hcourse⟩ := course_of_run hrun
  cases result with
  | ok report => exact ⟨report, made, rfl, hcourse⟩
  | error e =>
    obtain ⟨failure, hfailure⟩ := hcourse.failures_of_error
    rw [hnone] at hfailure
    simp at hfailure

end Failures

end Ferry.Promotion
