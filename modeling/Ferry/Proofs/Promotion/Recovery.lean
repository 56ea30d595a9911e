import Ferry.Proofs.Promotion.Gained
import Ferry.Proofs.Promotion.Proliferation
import Ferry.Proofs.Promotion.Repetition

/-!
# Recovery from failures

A promotion that fails leaves some of the missing projections made. The next one
finds exactly these, so it goes on with the rest, and after any number of failures
one promotion without them ends where it would have ended at once. The store is
all that one run leaves to the next.
-/
namespace Ferry

namespace Promotion

/-- Between two contents promotions of `d` made projections for the first of the missing channels,
and the others are the ones that are missing now. -/
structure Progress (d : Deployable) (channels : List Channel) (before after : List Deployable)
    (made : List (ObjectKey × Deployable)) : Prop where
  kept : Kept d made before after
  left : made.map Prod.fst ++ missing after d channels = missing before d channels

variable {d : Deployable} {channels : List Channel} {made made' : List (ObjectKey × Deployable)}
  {before middle after : List Deployable}

theorem Kept.missing_after (h : Kept d made before after)
    (htexts : ((eligibleKeys d channels).map ObjectKey.text).Nodup)
    (hmade : ∀ m ∈ made, m.1 ∈ eligibleKeys d channels) :
    missing after d channels =
      (missing before d channels).filter fun key => key ∉ made.map Prod.fst := by
  unfold missing
  rw [List.filter_filter]
  apply List.filter_congr
  intro key hkey
  have hkeys := List.ne_nil_of_mem hkey
  by_cases hmem : key ∈ made.map Prod.fst
  · obtain ⟨m, hm, rfl⟩ := List.mem_map.mp hmem
    have hfound := Option.isSome_iff_ne_none.mpr (h.found?_ne_none hkeys hm)
    simp [hmem, hfound]
  · have hne : ∀ m ∈ made, m.1.text ≠ key.text := by
      intro m hm htext
      have hsame := List.inj_on_of_nodup_map htexts (hmade m hm) hkey htext
      exact hmem (hsame ▸ List.mem_map_of_mem hm)
    simp [hmem, h.found?_of_ne hkeys hne]

theorem Kept.progress (h : Kept d made before after)
    (htexts : ((eligibleKeys d channels).map ObjectKey.text).Nodup)
    (hfirst : made.map Prod.fst <+: missing before d channels) :
    Progress d channels before after made := by
  refine ⟨h, ?_⟩
  obtain ⟨rest, hrest⟩ := hfirst
  have hnodup : (made.map Prod.fst ++ rest).Nodup := by
    rw [hrest]
    exact htexts.of_map.filter _
  have hmade : ∀ m ∈ made, m.1 ∈ eligibleKeys d channels := by
    intro m hm
    have hmem : m.1 ∈ missing before d channels := by
      rw [← hrest]
      exact List.mem_append_left _ (List.mem_map_of_mem hm)
    exact (List.mem_filter.mp hmem).1
  have hapart := (List.nodup_append.mp hnodup).2.2
  rw [h.missing_after htexts hmade, ← hrest, List.filter_append]
  have hnone : (made.map Prod.fst).filter (fun key => key ∉ made.map Prod.fst) = [] := by
    simp
  have hall : rest.filter (fun key => key ∉ made.map Prod.fst) = rest := by
    rw [List.filter_eq_self]
    intro key hkey
    simpa using fun hmem => hapart key hmem key hkey rfl
  rw [hnone, hall, List.nil_append]

theorem Progress.refl (d : Deployable) (channels : List Channel) (objects : List Deployable) :
    Progress d channels objects objects [] :=
  ⟨.nil d objects, rfl⟩

theorem Progress.trans (h : Progress d channels before middle made)
    (h' : Progress d channels middle after made') :
    Progress d channels before after (made ++ made') where
  kept := h.kept.append h'.kept
  left := by rw [List.map_append, List.append_assoc, h'.left, h.left]

theorem Progress.gained (h : Progress d channels before after made)
    (hnone : missing after d channels = []) :
    Gained d (missing before d channels) before after := by
  rw [← h.left, hnone, List.append_nil]
  exact h.kept.gained

variable {σ : Type} {store : Store (StateM σ)} {objects : σ → List Deployable} {s s' : σ}
  {result : Except Failure PromotionReport}

theorem Course.progress (h : Course store d channels s result made s')
    (hstore : store.Steady objects)
    (htexts : ((eligibleKeys d channels).map ObjectKey.text).Nodup) :
    Progress d channels (objects s) (objects s') made :=
  (h.kept hstore).progress htexts (h.made_prefix hstore)

theorem Course.missing_eq_nil {report : PromotionReport}
    (h : Course store d channels s (.ok report) made s') (hstore : store.Steady objects)
    (htexts : ((eligibleKeys d channels).map ObjectKey.text).Nodup) :
    missing (objects s') d channels = [] := by
  have hleft := (h.progress hstore htexts).left
  rw [h.made_eq_missing hstore] at hleft
  simpa using hleft

theorem promoteEach_progress (hstore : store.Steady objects)
    (htexts : ((eligibleKeys d channels).map ObjectKey.text).Nodup) (n : Nat) (s : σ) :
    ∃ made, Progress d channels (objects s)
      (objects (StateT.run (promoteEach store (List.replicate n ⟨d, channels⟩)) s).2) made := by
  induction n generalizing s with
  | zero => exact ⟨[], .refl d channels _⟩
  | succ n ih =>
    rw [List.replicate_succ, run_promoteEach_cons]
    obtain ⟨made, hcourse⟩ := promote_course store d channels s
    obtain ⟨made', hrest⟩ := ih (runFrom (promote store d channels) s).2
    exact ⟨made ++ made', (hcourse.progress hstore htexts).trans hrest⟩

/-- A promotion in which no call fails goes on to the end from where others stopped. -/
theorem Progress.complete {objects : Watched σ → List Deployable}
    (hstore : store.watched.Steady objects)
    (htexts : ((eligibleKeys d channels).map ObjectKey.text).Nodup) {t t' : Watched σ}
    (h : Progress d channels before (objects t) made)
    (hrun : runFrom (promote store.watched d channels) t = (result, t'))
    (hnone : t'.failures = t.failures) :
    (∃ report, result = .ok report) ∧ Gained d (missing before d channels) before (objects t') := by
  obtain ⟨report, made', rfl, hcourse⟩ := course_of_unfailing hrun hnone
  have hall := h.trans (hcourse.progress hstore htexts)
  exact ⟨⟨report, rfl⟩, hall.gained (hcourse.missing_eq_nil hstore htexts)⟩

/-- Without eligible channels the store is of no concern. -/
theorem promote_of_eligible_eq_nil {m : Type → Type} [Monad m] [LawfulMonad m] (store : Store m)
    (h : eligible d channels = []) : promote store d channels = pure ⟨settled d channels⟩ := by
  have hnone : channels.filter (isEligible d) = [] := h
  simp [promote, hnone, settled]

end Promotion

/-- A store in memory of which any call may be refused, with a note of the calls that fail. -/
abbrev Unreliable : Type := Watched (Guarded Shelf)

namespace Unreliable

def store : Store (StateM Unreliable) := Shelf.store.guarded.watched

def memory (s : Unreliable) : Memory := s.state.state.memory

def objects (s : Unreliable) : List Deployable := s.memory.values

theorem steady : store.Steady objects := Shelf.steady.guarded.watched

theorem memory_of_list {space : Option String} {s t : Unreliable}
    {answer : Except StoreError (List Deployable)}
    (h : runFrom (store.list space) s = (answer, t)) : t.memory = s.memory := by
  have hshelf : ∀ {u answer v}, runFrom (Shelf.store.list space) u = (answer, v) →
      u.memory = s.memory → v.memory = s.memory :=
    fun hlist hu => (Shelf.memory_of_list hlist).trans hu
  exact Store.watch_invariant (Store.attempt_invariant hshelf) h rfl

theorem get?_of_create {d q : Deployable} {key : ObjectKey} {s t : Unreliable}
    {answer : Except StoreError Deployable} (h : runFrom (store.create d) s = (answer, t))
    (hs : s.memory.get? key = some q) : t.memory.get? key = some q :=
  Store.watch_invariant (Store.attempt_invariant Shelf.get?_of_create) h hs

end Unreliable

namespace Promotion

/-- Promotion recovers from failures. Whatever calls are refused, what was stored stays as it is,
and a promotion that fails has made projections for the first of the missing channels. Without
eligible channels a promotion succeeds with any store. And after any number of promotions, failed or
not, one in which no call fails succeeds, and all of them together have made one projection for each
channel that was missing at first, as a single promotion from the first content does. -/
theorem promote_recovers (d : Deployable) (channels : List Channel)
    (hidentities : (channels.map Channel.identity).Nodup) :
    (∀ s s' result, runFrom (promote Unreliable.store d channels) s = (result, s') →
      (∀ key q, s.memory.get? key = some q → s'.memory.get? key = some q) ∧
        ∀ e, result = .error e → ∃ keys, keys <+: missing s.objects d channels ∧
          Gained d keys s.objects s'.objects) ∧
    (eligible d channels = [] → ∀ (m : Type → Type) [Monad m] [LawfulMonad m] (store : Store m),
      promote store d channels = pure ⟨settled d channels⟩) ∧
    ∀ (n : Nat) (s t t' : Unreliable) result,
      (StateT.run (promoteEach Unreliable.store (List.replicate n ⟨d, channels⟩)) s).2 = t →
      runFrom (promote Unreliable.store d channels) t = (result, t') →
      t'.failures = t.failures →
        (∃ report, result = .ok report) ∧ (missing s.objects d channels).Nodup ∧
          Gained d (missing s.objects d channels) s.objects t'.objects ∧
          ∀ (u u' : Unreliable) single, u.memory = s.memory →
            runFrom (promote Unreliable.store d channels) u = (single, u') →
            u'.failures = u.failures → GrownAlike s.objects t'.objects u'.objects := by
  have htexts := nodup_texts hidentities d
  refine ⟨?_, ?_, ?_⟩
  · intro s s' result hrun
    obtain ⟨made, hcourse⟩ := course_of_run hrun
    constructor
    · intro key q hq
      refine hcourse.invariant (P := fun t => t.memory.get? key = some q) ?_
        Unreliable.get?_of_create hq
      intro u answer v hlist hu
      rwa [Unreliable.memory_of_list hlist]
    · intro e _
      exact ⟨_, hcourse.made_prefix Unreliable.steady, (hcourse.kept Unreliable.steady).gained⟩
  · intro hnone m _ _ store
    exact promote_of_eligible_eq_nil store hnone
  · rintro n s t t' result rfl hrun hnone
    obtain ⟨made, hprogress⟩ := promoteEach_progress Unreliable.steady htexts n s
    obtain ⟨hreport, hgained⟩ := hprogress.complete Unreliable.steady htexts hrun hnone
    refine ⟨hreport, htexts.of_map.filter _, hgained, ?_⟩
    intro u u' single hmemory hsingle hnone'
    have hstart := Progress.refl d channels u.objects
    obtain ⟨_, hgained'⟩ := hstart.complete Unreliable.steady htexts hsingle hnone'
    have hobjects : u.objects = s.objects := by
      rw [Unreliable.objects, hmemory, Unreliable.objects]
    rw [hobjects] at hgained'
    exact hgained.alike hgained'

def twiceRefusing : Unreliable where
  state.state := stocked [declaring]
  state.refusal? calls _ :=
    if calls.length = 0 ∨ calls.length = 3 then some (.unavailable "") else none
  state.calls := []
  failures := []

/-- A store with the same content that refuses nothing and gives other names. -/
def unrefusing : Unreliable where
  state.state := ⟨.ofDeployables [declaring], fun _ => ⟨["7"], "v", default⟩, 0⟩
  state.refusal? _ _ := none
  state.calls := []
  failures := []

/-- The first promotion cannot list the objects, the second one stops at its second create, and the
third one makes what is left. -/
theorem recovered_after_two_failures :
    let channels := [Channel.new "b" "c", .new "e" "f"]
    let run := runFrom (promote Unreliable.store declaring channels)
    let first := run twiceRefusing
    let second := run first.2
    let third := run second.2
    let single := run unrefusing
    first.1.toOption = none ∧ second.1.toOption = none ∧ third.2.failures = second.2.failures ∧
      second.2.memory.keys = [⟨"a", "r"⟩, ⟨"b", "r-1"⟩] ∧
      (∃ keys, keys <+: missing first.2.objects declaring channels ∧
        Gained declaring keys first.2.objects second.2.objects) ∧
      promote Shelf.store (.new "a" "x") channels = pure ⟨settled (.new "a" "x") channels⟩ ∧
      (∃ report, third.1 = .ok report) ∧
      Gained declaring (missing twiceRefusing.objects declaring channels) twiceRefusing.objects
        third.2.objects ∧
      single.2.memory.keys = [⟨"a", "r"⟩, ⟨"b", "r-7"⟩, ⟨"e", "r-7"⟩] ∧
      GrownAlike twiceRefusing.objects third.2.objects single.2.objects := by
  intro channels run first second third single
  have hidentities : (channels.map Channel.identity).Nodup := by decide
  obtain ⟨hfailed, _, hcomplete⟩ := promote_recovers declaring channels hidentities
  have hidle := (promote_recovers (.new "a" "x") channels hidentities).2.1 (by decide +kernel)
  have hsecond : second.1.toOption = none := by decide +kernel
  have hthird : third.2.failures = second.2.failures := by decide +kernel
  obtain ⟨e, he⟩ := exists_eq_error_of_toOption hsecond
  have hruns : (StateT.run (promoteEach Unreliable.store
      (List.replicate 2 ⟨declaring, channels⟩)) twiceRefusing).2 = second.2 := by
    simp only [List.replicate_succ, run_promoteEach_cons]
    rfl
  obtain ⟨hreport, _, hgained, halike⟩ :=
    hcomplete 2 twiceRefusing second.2 third.2 third.1 hruns (Prod.mk.eta).symm hthird
  have hsingle : single.2.failures = unrefusing.failures := by decide +kernel
  exact ⟨by decide +kernel, hsecond, hthird, by decide +kernel,
    (hfailed first.2 second.2 second.1 (Prod.mk.eta).symm).2 e he, hidle _ Shelf.store, hreport,
    hgained, by decide +kernel,
    halike unrefusing single.2 single.1 rfl (Prod.mk.eta).symm hsingle⟩

end Promotion

end Ferry
