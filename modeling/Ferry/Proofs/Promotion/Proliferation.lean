import Mathlib.Data.Finset.Prod
import Ferry.Proofs.Promotion.Made
import Ferry.Proofs.Store.Memory
import Ferry.Proofs.Store.Refusal

/-!
# No proliferation

Over any sequence of promotions a store gets at most one new projection of each
root into each channel, whichever generation was promoted and however the single
promotions ended. An object that was made stays in the store and carries the root
and the channel, so every later promotion of the same root finds it.
-/
namespace Ferry

structure Request where
  deployable : Deployable
  channels : List Channel

variable {σ : Type}

/-- Promotes one request after another, also after one that failed. -/
def promoteEach (store : Store (StateM σ)) (requests : List Request) :
    StateM σ (List (Except Failure PromotionReport)) :=
  requests.mapM fun r => (promote store r.deployable r.channels).run

def createdPairs (requests : List Request) (results : List (Except Failure PromotionReport)) :
    List (String × ObjectKey) :=
  (requests.zip results).flatMap fun (r, result) =>
    (Promotion.createdOf result).map fun (channel, _) => (r.deployable.root, channel)

theorem run_promoteEach_cons (store : Store (StateM σ)) (r : Request) (rest : List Request)
    (s : σ) :
    StateT.run (promoteEach store (r :: rest)) s =
      let first := runFrom (promote store r.deployable r.channels) s
      let later := StateT.run (promoteEach store rest) first.2
      (first.1 :: later.1, later.2) := by
  unfold promoteEach
  rw [List.mapM_cons]
  rfl

theorem createdPairs_cons (r : Request) (rest : List Request)
    (result : Except Failure PromotionReport) (results : List (Except Failure PromotionReport)) :
    createdPairs (r :: rest) (result :: results) =
      (Promotion.createdOf result).map (fun e => (r.deployable.root, e.1)) ++
        createdPairs rest results := by
  simp [createdPairs]

namespace Promotion

/-- What requests made of the objects before them: new objects, each with the root and the channel
that it is for, no two for the same ones. -/
structure MadeOnce (requests : List Request) (before after : List Deployable)
    (made : List ((String × ObjectKey) × Deployable)) : Prop where
  grown : Grown (made.map Prod.snd) before after
  once : (made.map Prod.fst).Nodup
  projects : ∀ m ∈ made, isProjectionInto m.1.1 m.1.2 m.2 = true
  fresh : ∀ m ∈ made, ∀ q ∈ before, isProjectionInto m.1.1 m.1.2 q = false
  asked : ∀ m ∈ made, ∃ r ∈ requests, r.deployable.root = m.1.1 ∧ ∃ c ∈ r.channels, c.key = m.1.2

/-- The new objects of a single promotion with the root and the channel that they are for. -/
def ofRoot (root : String) (made : List (ObjectKey × Deployable)) :
    List ((String × ObjectKey) × Deployable) :=
  made.map fun m => ((root, m.1), m.2)

variable {store : Store (StateM σ)} {objects : σ → List Deployable} {s s' : σ}

theorem Course.madeOnce (hstore : store.Steady objects) {r : Request}
    (hnodup : (r.channels.map Channel.key).Nodup) {result : Except Failure PromotionReport}
    {made : List (ObjectKey × Deployable)}
    (h : Course store r.deployable r.channels s result made s') :
    MadeOnce [r] (objects s) (objects s') (ofRoot r.deployable.root made) := by
  have hsub : (made.map Prod.fst).Sublist (r.channels.map Channel.key) :=
    h.made_sublist.trans (List.filter_sublist.map Channel.key)
  constructor
  · simpa [ofRoot, Function.comp_def] using (h.kept hstore).grown
  · have hkeys : (made.map Prod.fst).Nodup := hnodup.sublist hsub
    have hpairs :=
      hkeys.map (f := fun key => (r.deployable.root, key)) fun _ _ e => (Prod.mk.inj e).2
    simpa [ofRoot, Function.comp_def] using hpairs
  · intro m hm
    obtain ⟨n, hn, rfl⟩ := List.mem_map.mp hm
    exact (h.kept hstore).projects hn
  · intro m hm
    obtain ⟨n, hn, rfl⟩ := List.mem_map.mp hm
    exact h.fresh hstore n hn
  · intro m hm
    obtain ⟨n, hn, rfl⟩ := List.mem_map.mp hm
    have hkey := hsub.subset (List.mem_map_of_mem hn)
    obtain ⟨c, hc, hckey⟩ := List.mem_map.mp hkey
    exact ⟨r, List.mem_singleton_self r, rfl, c, hc, hckey⟩

theorem MadeOnce.nil (objects : List Deployable) : MadeOnce [] objects objects [] where
  grown := .nil
  once := List.nodup_nil
  projects := by simp
  fresh := by simp
  asked := by simp

/-- What was made first is in the store, so it is not made again. -/
theorem MadeOnce.append {requests requests' : List Request} {before middle after : List Deployable}
    {made made' : List ((String × ObjectKey) × Deployable)}
    (h : MadeOnce requests before middle made) (h' : MadeOnce requests' middle after made') :
    MadeOnce (requests ++ requests') before after (made ++ made') where
  grown := by
    rw [List.map_append]
    exact h.grown.append h'.grown
  once := by
    rw [List.map_append, List.nodup_append]
    refine ⟨h.once, h'.once, ?_⟩
    intro pair hpair pair' hpair' heq
    obtain ⟨m, hm, rfl⟩ := List.mem_map.mp hpair
    obtain ⟨m', hm', rfl⟩ := List.mem_map.mp hpair'
    have hthere : m.2 ∈ middle := h.grown.mem_iff.mpr (.inr (List.mem_map_of_mem hm))
    have hnot := h'.fresh m' hm' m.2 hthere
    rw [← heq, h.projects m hm] at hnot
    cases hnot
  projects m hm := (List.mem_append.mp hm).elim (h.projects m) (h'.projects m)
  fresh m hm q hq := by
    rcases List.mem_append.mp hm with hm | hm
    · exact h.fresh m hm q hq
    · exact h'.fresh m hm q (h.grown.mem_iff.mpr (.inl hq))
  asked m hm := by
    rcases List.mem_append.mp hm with hm | hm
    · obtain ⟨r, hr, hasked⟩ := h.asked m hm
      exact ⟨r, List.mem_append_left _ hr, hasked⟩
    · obtain ⟨r, hr, hasked⟩ := h'.asked m hm
      exact ⟨r, List.mem_append_right _ hr, hasked⟩

theorem MadeOnce.length_le {requests : List Request} {before after : List Deployable}
    {made : List ((String × ObjectKey) × Deployable)} (h : MadeOnce requests before after made) :
    made.length ≤ (requests.map fun r => r.deployable.root).toFinset.card *
      (requests.flatMap fun r => r.channels.map Channel.key).toFinset.card := by
  have hlength : (made.map Prod.fst).toFinset.card = made.length := by
    rw [List.toFinset_card_of_nodup h.once, List.length_map]
  rw [← hlength, ← Finset.card_product]
  apply Finset.card_le_card
  intro pair hpair
  obtain ⟨m, hm, rfl⟩ := List.mem_map.mp (List.mem_toFinset.mp hpair)
  obtain ⟨r, hr, hroot, c, hc, hkey⟩ := h.asked m hm
  simp only [Finset.mem_product, List.mem_toFinset, List.mem_map, List.mem_flatMap]
  exact ⟨⟨r, hr, hroot⟩, r, hr, c, hc, hkey⟩

/-- A sequence of promotions makes each projection once and reports nothing else as created. If none
of them fails, it reports all that was made. -/
theorem promoteEach_madeOnce (hstore : store.Steady objects) (requests : List Request)
    (hnodup : ∀ r ∈ requests, (r.channels.map Channel.key).Nodup) (s : σ) :
    ∃ made,
      MadeOnce requests (objects s) (objects (StateT.run (promoteEach store requests) s).2) made ∧
        (createdPairs requests (StateT.run (promoteEach store requests) s).1).Sublist
          (made.map Prod.fst) ∧
        ((∀ result ∈ (StateT.run (promoteEach store requests) s).1, ∃ report, result = .ok report) →
          createdPairs requests (StateT.run (promoteEach store requests) s).1 =
            made.map Prod.fst) := by
  induction requests generalizing s with
  | nil => exact ⟨[], .nil _, by simp [createdPairs], by simp [createdPairs]⟩
  | cons r rest ih =>
    rw [run_promoteEach_cons]
    obtain ⟨made, hcourse⟩ := promote_course store r.deployable r.channels s
    have hfirst := hcourse.madeOnce hstore (hnodup r List.mem_cons_self)
    obtain ⟨made', hrest, hpairs, hall⟩ :=
      ih (fun r' hr' => hnodup r' (List.mem_cons_of_mem _ hr'))
        (runFrom (promote store r.deployable r.channels) s).2
    refine ⟨ofRoot r.deployable.root made ++ made', hfirst.append hrest, ?_, ?_⟩
    · have hcreated := hcourse.created.map fun e => (r.deployable.root, e.1)
      rw [createdPairs_cons, List.map_append]
      refine List.Sublist.append ?_ hpairs
      simpa [ofRoot, Function.comp_def] using hcreated
    · intro hok
      obtain ⟨⟨report, hreport⟩, hrestOk⟩ := List.forall_mem_cons.mp hok
      rw [createdPairs_cons, List.map_append, hall hrestOk, hcourse.created_of_ok hreport]
      simp [ofRoot, Function.comp_def]

/-- Over any sequence of promotions in memory, with any refused calls and any draws, each root gets
one new projection into each channel at most: the new objects can be listed with a root and a
channel for each, these pairs are all different, and the answers tell of no other pair, and of all
of them if no promotion failed. -/
theorem promoteEach_created_once (requests : List Request)
    (hnodup : ∀ r ∈ requests, (r.channels.map Channel.key).Nodup) (s : Guarded Shelf) :
    let (results, s') := StateT.run (promoteEach Shelf.store.guarded requests) s
    ∃ made : List ((String × ObjectKey) × Deployable),
      s'.state.objects.Perm (s.state.objects ++ made.map Prod.snd) ∧
        (∀ m ∈ made, isProjectionInto m.1.1 m.1.2 m.2 = true) ∧
        (made.map Prod.fst).Nodup ∧
        (createdPairs requests results).Sublist (made.map Prod.fst) ∧
        ((∀ result ∈ results, ∃ report, result = .ok report) →
          createdPairs requests results = made.map Prod.fst) ∧
        made.length ≤ (requests.map fun r => r.deployable.root).toFinset.card *
          (requests.flatMap fun r => r.channels.map Channel.key).toFinset.card := by
  obtain ⟨made, hmade, hpairs, hall⟩ :=
    promoteEach_madeOnce Shelf.steady.guarded requests hnodup s
  exact ⟨made, hmade.grown.perm, hmade.projects, hmade.once, hpairs, hall, hmade.length_le⟩

/-- A root is promoted twice, since its first create is refused, then its projection is promoted
further, and then the root again. -/
def generations : List Request :=
  let root := ((Deployable.new "a" "r").withChannel ⟨"b", "c"⟩).withChannel ⟨"e", "f"⟩
  let projection := (project root ⟨"b", "c"⟩).completed "r-1" "u" default
  [⟨root, [.new "b" "c"]⟩, ⟨root, [.new "b" "c"]⟩, ⟨projection, [.new "b" "c", .new "e" "f"]⟩,
    ⟨root, [.new "b" "c", .new "e" "f"]⟩]

def secondRefused : Guarded Shelf where
  state := ⟨.empty, fun _ => ⟨["1"], "u", default⟩, 0⟩
  refusal? calls _ := if calls.length = 1 then some (.unavailable "") else none
  calls := []

theorem created_once_over_generations :
    (∀ r ∈ generations, (r.channels.map Channel.key).Nodup) ∧
    let (results, s') := StateT.run (promoteEach Shelf.store.guarded generations) secondRefused
    createdPairs generations results = [("a/r", ⟨"b", "c"⟩), ("a/r", ⟨"e", "f"⟩)] ∧
    ∃ made : List ((String × ObjectKey) × Deployable),
      s'.state.objects.Perm (secondRefused.state.objects ++ made.map Prod.snd) ∧
        (∀ m ∈ made, isProjectionInto m.1.1 m.1.2 m.2 = true) ∧
        (made.map Prod.fst).Nodup ∧
        (createdPairs generations results).Sublist (made.map Prod.fst) ∧
        ((∀ result ∈ results, ∃ report, result = .ok report) →
          createdPairs generations results = made.map Prod.fst) ∧
        made.length ≤ (generations.map fun r => r.deployable.root).toFinset.card *
          (generations.flatMap fun r => r.channels.map Channel.key).toFinset.card :=
  ⟨by decide +kernel, by decide +kernel,
    promoteEach_created_once generations (by decide +kernel) secondRefused⟩

end Promotion

end Ferry
