import Mathlib.Data.List.Forall2
import Ferry.Proofs.Promotion.Repetition
import Ferry.Proofs.Store.Refusal

/-!
# The report on each channel

A promotion that succeeds tells one thing of every channel in its list, the settled
channels first. What it tells follows from the deployable, the channels and the objects
that were there before: two loops, two lookups and the order in which they are asked
come down to four conditions of which exactly one holds. Whatever comes of it, the store
is asked to create nothing but projections into channels that admit the deployable.
-/
namespace Ferry

/-- What a promotion tells of a channel, but for the key of a new object, which the store draws. -/
inductive Verdict where
  | created
  | alreadyPresent (projection : ObjectKey)
  | resident
  | denied
  deriving DecidableEq

def Outcome.verdict : Outcome → Verdict
  | .created _ => .created
  | .alreadyPresent key => .alreadyPresent key
  | .resident => .resident
  | .denied => .denied

section Verdict

variable {outcome : Outcome}

theorem Outcome.verdict_eq_resident_iff : outcome.verdict = .resident ↔ outcome = .resident := by
  cases outcome <;> simp [verdict]

theorem Outcome.verdict_eq_denied_iff : outcome.verdict = .denied ↔ outcome = .denied := by
  cases outcome <;> simp [verdict]

theorem Outcome.verdict_eq_alreadyPresent_iff {key : ObjectKey} :
    outcome.verdict = .alreadyPresent key ↔ outcome = .alreadyPresent key := by
  cases outcome <;> simp [verdict]

theorem Outcome.verdict_eq_created_iff :
    outcome.verdict = .created ↔ ∃ key, outcome = .created key := by
  cases outcome <;> simp [verdict]

end Verdict

namespace Promotion

def verdicts (entries : List (ObjectKey × Outcome)) : List (ObjectKey × Verdict) :=
  entries.map fun (channel, outcome) => (channel, outcome.verdict)

end Promotion

def PromotionReport.verdicts (report : PromotionReport) : List (ObjectKey × Verdict) :=
  Promotion.verdicts report.outcomes

namespace Promotion

/-! ### Verdicts -/

def foundVerdict : Option Deployable → Verdict
  | some p => .alreadyPresent p.key
  | none => .created

def verdictAmong (snapshot : List Deployable) (d : Deployable) (channels : List Channel)
    (c : Channel) : Verdict :=
  if isEligible d c then foundVerdict (found? snapshot d channels c.key)
  else if isResident d c then .resident
  else .denied

section Verdicts

variable {d : Deployable} {channels : List Channel} {c : Channel} {snapshot : List Deployable}

theorem eligibleKeys_ne_nil (hc : c ∈ channels) (heligible : isEligible d c = true) :
    eligibleKeys d channels ≠ [] :=
  List.ne_nil_of_mem (List.mem_map_of_mem (List.mem_filter.mpr ⟨hc, heligible⟩))

theorem settled?_eq (d : Deployable) (c : Channel) :
    settled? d c =
      if isEligible d c then none
      else some (c.key, if isResident d c then .resident else .denied) := by
  unfold settled? isEligible
  cases isResident d c <;> cases Policy.admits d c <;> rfl

theorem verdicts_settled (snapshot : List Deployable) (d : Deployable)
    (among channels : List Channel) :
    verdicts (settled d channels) =
      (channels.filter fun c => !isEligible d c).map fun c =>
        (c.key, verdictAmong snapshot d among c) := by
  induction channels with
  | nil => rfl
  | cons c channels ih =>
    unfold settled at ih ⊢
    rw [List.filterMap_cons, settled?_eq]
    by_cases heligible : isEligible d c = true
    · simpa [heligible] using ih
    · cases hresident : isResident d c <;>
        simpa [heligible, hresident, verdicts, verdictAmong, Outcome.verdict] using ih

variable {σ : Type} {store : Store (StateM σ)} {s s' : σ} {made : List (ObjectKey × Deployable)}
  {report : PromotionReport}

theorem Placed.verdicts {found? : ObjectKey → Option Deployable} {keys : List ObjectKey}
    {entries : List (ObjectKey × Outcome)} (h : Placed store d found? s keys entries made s') :
    Promotion.verdicts entries = keys.map fun key => (key, foundVerdict (found? key)) := by
  induction h with
  | nil => rfl
  | present hfound _ ih =>
    rw [List.map_cons, hfound, ← ih]
    rfl
  | created hfound _ _ ih =>
    rw [List.map_cons, hfound, ← ih]
    rfl

theorem Placed.verdicts_eligible {entries : List (ObjectKey × Outcome)}
    (h : Placed store d (found? snapshot d channels) s (eligibleKeys d channels) entries made s') :
    Promotion.verdicts entries =
      (eligible d channels).map fun c => (c.key, verdictAmong snapshot d channels c) := by
  rw [h.verdicts, eligibleKeys, List.map_map]
  apply List.map_congr_left
  intro c hc
  have heligible : isEligible d c = true := (List.mem_filter.mp hc).2
  simp [verdictAmong, heligible]

/-- A report starts with the settled channels and goes on with the eligible ones, both in list
order. -/
theorem Course.exists_verdicts (h : Course store d channels s (.ok report) made s')
    (hshown : ∀ shown t, runFrom (store.list none) s = (.ok shown, t) → shown = snapshot) :
    ∃ first later, report.outcomes = first ++ later ∧
      Promotion.verdicts first = (channels.filter fun c => !isEligible d c).map
        (fun c => (c.key, verdictAmong snapshot d channels c)) ∧
      Promotion.verdicts later = (eligible d channels).map
        (fun c => (c.key, verdictAmong snapshot d channels c)) := by
  have hsettled := verdicts_settled snapshot d channels channels
  cases h with
  | idle hkeys =>
    have hnone : eligible d channels = [] := by simpa [eligibleKeys] using hkeys
    refine ⟨_, [], (List.append_nil _).symm, hsettled, ?_⟩
    rw [hnone]
    rfl
  | completed _ hlist hplaced =>
    obtain rfl := hshown _ _ hlist
    exact ⟨_, _, rfl, hsettled, hplaced.verdicts_eligible⟩

end Verdicts

/-! ### The conditions -/

/-- A deployable lives in the channel that it was placed into, and where policy lets it reside. -/
def LivesIn (d : Deployable) (c : Channel) : Prop :=
  d.annotation? Annotation.channel = some c.identity ∨ Policy.resides d c = true

def Enters (d : Deployable) (c : Channel) : Prop := ¬ LivesIn d c ∧ Policy.admits d c = true

instance (d : Deployable) (c : Channel) : Decidable (LivesIn d c) :=
  inferInstanceAs (Decidable (_ ∨ _))

instance (d : Deployable) (c : Channel) : Decidable (Enters d c) :=
  inferInstanceAs (Decidable (_ ∧ _))

/-- A projection of the deployable itself, in the namespace of any channel of the list that it
enters. -/
structure IsOwnProjection (d : Deployable) (channels : List Channel) (c : Channel)
    (q : Deployable) : Prop where
  source : q.annotation? Annotation.channelSource = some d.identity
  generateName : q.metadata.generateName = some d.projectionNameStart
  channel : q.annotation? Annotation.channel = some c.identity
  space : ∃ c' ∈ channels, Enters d c' ∧ q.space = c'.space

structure IsRootProjection (d : Deployable) (c : Channel) (q : Deployable) : Prop where
  source : q.annotation? Annotation.channelSource = some d.root
  channel : q.annotation? Annotation.channel = some c.identity
  space : q.space = c.space

/-- The object that keeps a promotion from creating one: the last projection of the deployable
itself, or else the last one of its root. -/
def Holds (d : Deployable) (channels : List Channel) (before : List Deployable) (c : Channel)
    (p : Deployable) : Prop :=
  IsLast (IsOwnProjection d channels c) before p ∨
    (∀ q ∈ before, ¬ IsOwnProjection d channels c q) ∧ IsLast (IsRootProjection d c) before p

/-- An entry tells of the channel what is so, with these objects before the promotion. -/
structure TellsOf (d : Deployable) (channels : List Channel) (before : List Deployable)
    (c : Channel) (entry : ObjectKey × Outcome) : Prop where
  key : entry.1 = c.key
  resident : entry.2 = .resident ↔ LivesIn d c
  denied : entry.2 = .denied ↔ ¬ LivesIn d c ∧ Policy.admits d c = false
  present : ∀ key, entry.2 = .alreadyPresent key ↔
    Enters d c ∧ ∃ p, Holds d channels before c p ∧ p.key = key
  created : (∃ key, entry.2 = .created key) ↔
    Enters d c ∧ ∀ q ∈ before, ¬ IsOwnProjection d channels c q ∧ ¬ IsRootProjection d c q

section Conditions

variable {d : Deployable} {channels : List Channel} {c : Channel} {before : List Deployable}

theorem isResident_iff : isResident d c = true ↔ LivesIn d c := by
  simp [isResident, LivesIn]

theorem isEligible_iff : isEligible d c = true ↔ Enters d c := by
  rw [isEligible, Bool.and_eq_true, Bool.not_eq_true', Enters, ← isResident_iff,
    Bool.not_eq_true]

theorem isChildFor_iff_isOwnProjection {q : Deployable} :
    isChildFor d (eligibleSpaces d channels) c.key q = true ↔ IsOwnProjection d channels c q := by
  have hspaces : q.space ∈ eligibleSpaces d channels ↔
      ∃ c' ∈ channels, Enters d c' ∧ q.space = c'.space := by
    rw [eligibleSpaces, List.mem_map]
    constructor
    · rintro ⟨c', hc', hspace⟩
      obtain ⟨hmem, heligible⟩ := List.mem_filter.mp hc'
      exact ⟨c', hmem, isEligible_iff.mp heligible, hspace.symm⟩
    · rintro ⟨c', hmem, henters, hspace⟩
      exact ⟨c', List.mem_filter.mpr ⟨hmem, isEligible_iff.mpr henters⟩, hspace.symm⟩
  rw [isChildFor_iff, hspaces]
  constructor
  · rintro ⟨hsource, hstart, hspace, hchannel⟩
    exact ⟨hsource, hstart, hchannel, hspace⟩
  · rintro ⟨hsource, hstart, hchannel, hspace⟩
    exact ⟨hsource, hstart, hspace, hchannel⟩

theorem isProjectionInto_iff_isRootProjection {q : Deployable} :
    isProjectionInto d.root c.key q = true ↔ IsRootProjection d c q := by
  rw [isProjectionInto_iff]
  constructor
  · rintro ⟨hsource, hspace, hchannel⟩
    exact ⟨hsource, hchannel, hspace⟩
  · rintro ⟨hsource, hchannel, hspace⟩
    exact ⟨hsource, hspace, hchannel⟩

theorem found?_eq_some_iff (hkeys : eligibleKeys d channels ≠ []) {p : Deployable} :
    found? before d channels c.key = some p ↔ Holds d channels before c p := by
  rw [found?_eq hkeys, Option.or_eq_some_iff, Holds,
    find?_reverse_eq_some_iff fun _ _ => isChildFor_iff_isOwnProjection,
    find?_reverse_eq_none_iff fun _ _ => isChildFor_iff_isOwnProjection,
    find?_reverse_eq_some_iff fun _ _ => isProjectionInto_iff_isRootProjection]

theorem found?_eq_none_iff_forall (hkeys : eligibleKeys d channels ≠ []) :
    found? before d channels c.key = none ↔
      ∀ q ∈ before, ¬ IsOwnProjection d channels c q ∧ ¬ IsRootProjection d c q := by
  rw [found?_eq_none_iff hkeys]
  apply forall₂_congr
  intro q _
  rw [← isChildFor_iff_isOwnProjection, ← isProjectionInto_iff_isRootProjection,
    Bool.not_eq_true, Bool.not_eq_true, and_comm]

theorem verdictAmong_of_enters (h : Enters d c) :
    verdictAmong before d channels c = foundVerdict (found? before d channels c.key) := by
  rw [verdictAmong, if_pos (isEligible_iff.mpr h)]

theorem verdictAmong_of_not_enters (h : ¬ Enters d c) :
    verdictAmong before d channels c = if LivesIn d c then .resident else .denied := by
  rw [verdictAmong, if_neg fun heligible => h (isEligible_iff.mp heligible)]
  exact if_congr isResident_iff rfl rfl

theorem verdictAmong_eq_resident_iff :
    verdictAmong before d channels c = .resident ↔ LivesIn d c := by
  by_cases henters : Enters d c
  · rw [verdictAmong_of_enters henters]
    cases found? before d channels c.key <;> simp [foundVerdict, henters.1]
  · rw [verdictAmong_of_not_enters henters]
    simp

theorem verdictAmong_eq_denied_iff :
    verdictAmong before d channels c = .denied ↔ ¬ LivesIn d c ∧ Policy.admits d c = false := by
  by_cases henters : Enters d c
  · rw [verdictAmong_of_enters henters]
    cases found? before d channels c.key <;> simp [foundVerdict, henters.2]
  · rw [verdictAmong_of_not_enters henters]
    have hdenied : ¬ LivesIn d c → Policy.admits d c = false := fun hlives =>
      Bool.eq_false_iff.mpr fun hadmits => henters ⟨hlives, hadmits⟩
    simpa using hdenied

theorem verdictAmong_eq_alreadyPresent_iff (hc : c ∈ channels) {key : ObjectKey} :
    verdictAmong before d channels c = .alreadyPresent key ↔
      Enters d c ∧ ∃ p, Holds d channels before c p ∧ p.key = key := by
  by_cases henters : Enters d c
  · have hkeys := eligibleKeys_ne_nil hc (isEligible_iff.mpr henters)
    simp only [← found?_eq_some_iff hkeys, verdictAmong_of_enters henters, henters, true_and]
    cases found? before d channels c.key <;> simp [foundVerdict]
  · rw [verdictAmong_of_not_enters henters]
    by_cases hlives : LivesIn d c <;> simp [henters, hlives]

theorem verdictAmong_eq_created_iff (hc : c ∈ channels) :
    verdictAmong before d channels c = .created ↔
      Enters d c ∧ ∀ q ∈ before, ¬ IsOwnProjection d channels c q ∧ ¬ IsRootProjection d c q := by
  by_cases henters : Enters d c
  · have hkeys := eligibleKeys_ne_nil hc (isEligible_iff.mpr henters)
    rw [← found?_eq_none_iff_forall hkeys, verdictAmong_of_enters henters]
    cases found? before d channels c.key <;> simp [foundVerdict, henters]
  · rw [verdictAmong_of_not_enters henters]
    by_cases hlives : LivesIn d c <;> simp [henters, hlives]

theorem tellsOf_of_verdict (hc : c ∈ channels) {entry : ObjectKey × Outcome}
    (hkey : entry.1 = c.key) (hverdict : entry.2.verdict = verdictAmong before d channels c) :
    TellsOf d channels before c entry where
  key := hkey
  resident := by
    rw [← Outcome.verdict_eq_resident_iff, hverdict, verdictAmong_eq_resident_iff]
  denied := by
    rw [← Outcome.verdict_eq_denied_iff, hverdict, verdictAmong_eq_denied_iff]
  present key := by
    rw [← Outcome.verdict_eq_alreadyPresent_iff, hverdict, verdictAmong_eq_alreadyPresent_iff hc]
  created := by
    rw [← Outcome.verdict_eq_created_iff, hverdict, verdictAmong_eq_created_iff hc]

theorem forall₂_tellsOf {entries : List (ObjectKey × Outcome)} {among : List Channel}
    (hsub : among ⊆ channels)
    (h : verdicts entries = among.map fun c => (c.key, verdictAmong before d channels c)) :
    List.Forall₂ (TellsOf d channels before) among entries := by
  have hentries := h.symm
  rw [verdicts, ← List.forall₂_eq_eq_eq, List.forall₂_map_left_iff,
    List.forall₂_map_right_iff] at hentries
  have htold := (List.forall₂_and_left among entries).mpr ⟨fun c hc => hsub hc, hentries⟩
  apply htold.imp
  rintro c entry ⟨hc, hsame⟩
  obtain ⟨hkey, hverdict⟩ := Prod.mk.inj hsame
  exact tellsOf_of_verdict hc hkey.symm hverdict.symm

end Conditions

/-! ### The calls -/

section Calls

variable {σ : Type} {store : Store (StateM σ)} {d : Deployable} {channels : List Channel}
  {s s' : Guarded σ} {made : List (ObjectKey × Deployable)}

theorem Placed.calls {found? : ObjectKey → Option Deployable} {keys : List ObjectKey}
    {entries : List (ObjectKey × Outcome)}
    (h : Placed store.guarded d found? s keys entries made s') :
    s'.calls = s.calls ++ made.map fun m => Store.Call.create (project d m.1) := by
  induction h with
  | nil => simp
  | present _ _ ih => exact ih
  | created _ hcreate _ ih =>
    rw [ih, Store.calls_of_attempt hcreate, List.append_assoc]
    rfl

/-- A promotion asks for nothing, or for a list and then for projections into eligible channels, in
list order. -/
theorem Course.calls {result : Except Failure PromotionReport}
    (h : Course store.guarded d channels s result made s') :
    ∃ asked : List ObjectKey, asked.Sublist (eligibleKeys d channels) ∧
      (s'.calls = s.calls ∨ s'.calls = s.calls ++ .list none ::
        asked.map fun key => Store.Call.create (project d key)) := by
  cases h with
  | idle => exact ⟨[], List.nil_sublist _, .inl rfl⟩
  | unlisted _ hlist => exact ⟨[], List.nil_sublist _, .inr (Store.calls_of_attempt hlist)⟩
  | completed hkeys hlist hplaced =>
    refine ⟨made.map Prod.fst, ?_, .inr ?_⟩
    · rw [hplaced.made_keys]
      exact List.filter_sublist
    · rw [hplaced.calls, Store.calls_of_attempt hlist]
      simp
  | @stopped _ _ done key rest _ _ _ _ _ hkeys hlist hplaced hnone hfail =>
    refine ⟨made.map Prod.fst ++ [key], ?_, .inr ?_⟩
    · rw [hplaced.made_keys, hkeys]
      exact List.filter_sublist.append (List.singleton_sublist.mpr List.mem_cons_self)
    · rw [Store.calls_of_attempt hfail, hplaced.calls, Store.calls_of_attempt hlist]
      simp

end Calls

/-- A promotion that succeeds has one entry for each item of the list, first for the channels that
it does not enter and then for the others, and each tells of its channel what is so with the objects
that were there before. However it ends, it asks the store for nothing but a list and projections
into channels that it enters, for each item of the list one at most; so whatever a store that keeps
its objects holds in addition is such a projection. -/
theorem promote_reports_exactly {σ : Type} (store : Store (StateM σ)) (d : Deployable)
    (channels : List Channel) :
    (∀ s report s', runFrom (promote store d channels) s = (.ok report, s') →
      ∃ first later, report.outcomes = first ++ later ∧
        List.Forall₂ (TellsOf d channels (store.listed s))
          (channels.filter fun c => ¬ Enters d c) first ∧
        List.Forall₂ (TellsOf d channels (store.listed s))
          (channels.filter fun c => Enters d c) later) ∧
    (∀ s result s', runFrom (promote store.guarded d channels) s = (result, s') →
      ∃ entered : List Channel, entered.Sublist (channels.filter fun c => Enters d c) ∧
        (s'.calls = s.calls ∨ s'.calls = s.calls ++ .list none ::
          entered.map fun c => .create (project d c.key))) ∧
    ∀ objects, store.Steady objects →
      ∀ s result s', runFrom (promote store d channels) s = (result, s') →
        ∀ p ∈ objects s', p ∈ objects s ∨
          ∃ c ∈ channels, Enters d c ∧ (project d c.key).StoredAs p := by
  have heligible : eligible d channels = channels.filter fun c => Enters d c := by
    apply List.filter_congr
    intro c _
    rw [Bool.eq_iff_iff, isEligible_iff, decide_eq_true_iff]
  have hsettled : (channels.filter fun c => !isEligible d c) =
      channels.filter fun c => ¬ Enters d c := by
    apply List.filter_congr
    intro c _
    rw [Bool.eq_iff_iff, Bool.not_eq_true', decide_eq_true_iff, ← isEligible_iff, Bool.not_eq_true]
  refine ⟨?_, ?_, ?_⟩
  · intro s report s' hrun
    obtain ⟨made, hcourse⟩ := course_of_run hrun
    obtain ⟨first, later, houtcomes, hfirst, hlater⟩ :=
      hcourse.exists_verdicts fun shown t hlist => (Store.listed_eq hlist).symm
    rw [hsettled] at hfirst
    rw [heligible] at hlater
    exact ⟨first, later, houtcomes, forall₂_tellsOf (List.filter_subset_self _) hfirst,
      forall₂_tellsOf (List.filter_subset_self _) hlater⟩
  · intro s result s' hrun
    obtain ⟨made, hcourse⟩ := course_of_run hrun
    obtain ⟨asked, hasked, hcalls⟩ := hcourse.calls
    obtain ⟨entered, hentered, rfl⟩ := List.sublist_map_iff.mp hasked
    rw [heligible] at hentered
    rw [List.map_map] at hcalls
    exact ⟨entered, hentered, hcalls⟩
  · intro objects hstore s result s' hrun p hp
    obtain ⟨made, hcourse⟩ := course_of_run hrun
    have hkept := hcourse.kept hstore
    rcases hkept.mem_before_or_made hp with hold | ⟨m, hm, rfl⟩
    · exact .inl hold
    · have hkey := hcourse.made_sublist.subset (List.mem_map_of_mem hm)
      obtain ⟨c, hc, hsame⟩ := List.mem_map.mp hkey
      rw [heligible, List.mem_filter, decide_eq_true_iff] at hc
      refine .inr ⟨c, hc.1, hc.2, ?_⟩
      rw [hsame]
      exact hkept.stored m hm

/-- A list with a repeat and with one channel for each of the conditions. -/
theorem six_channels_told :
    let d := declaring.withChannel ⟨"i", "j"⟩
    let own := (project d ⟨"b", "c"⟩).completed "r-9" "u" default
    let other := (project (d.withGenerateName "x") ⟨"e", "f"⟩).completed "x-9" "u" default
    let channels := [Channel.new "e" "f", .new "a" "z", .new "b" "c", .new "g" "h", .new "i" "j",
      .new "b" "c"]
    let s : Guarded Shelf := ⟨stocked [d, own, other], fun _ _ => none, []⟩
    let report : PromotionReport := ⟨[(⟨"a", "z"⟩, .resident), (⟨"g", "h"⟩, .denied),
      (⟨"e", "f"⟩, .alreadyPresent ⟨"e", "x-9"⟩), (⟨"b", "c"⟩, .alreadyPresent ⟨"b", "r-9"⟩),
      (⟨"i", "j"⟩, .created ⟨"i", "r-1"⟩), (⟨"b", "c"⟩, .alreadyPresent ⟨"b", "r-9"⟩)]⟩
    let run := runFrom (promote Shelf.store.guarded d channels) s
    run.1 = .ok report ∧
      (∃ first later, report.outcomes = first ++ later ∧
        List.Forall₂ (TellsOf d channels (Shelf.store.guarded.listed s))
          [.new "a" "z", .new "g" "h"] first ∧
        List.Forall₂ (TellsOf d channels (Shelf.store.guarded.listed s))
          [.new "e" "f", .new "b" "c", .new "i" "j", .new "b" "c"] later) ∧
      run.2.calls = [.list none, .create (project d ⟨"i", "j"⟩)] ∧
      (∃ entered : List Channel, entered.Sublist (channels.filter fun c => Enters d c) ∧
        (run.2.calls = s.calls ∨ run.2.calls = s.calls ++ .list none ::
          entered.map fun c => .create (project d c.key))) ∧
      ∀ p ∈ run.2.state.objects, p ∈ s.state.objects ∨
        ∃ c ∈ channels, Enters d c ∧ (project d c.key).StoredAs p := by
  intro d own other channels s report run
  have hreport : run.1 = .ok report := eq_ok_of_toOption (by decide +kernel)
  have hcalls : run.2.calls = [.list none, .create (project d ⟨"i", "j"⟩)] := by decide +kernel
  have hstays : (channels.filter fun c => ¬ Enters d c) = [.new "a" "z", .new "g" "h"] := by
    decide +kernel
  have henters : (channels.filter fun c => Enters d c) =
      [.new "e" "f", .new "b" "c", .new "i" "j", .new "b" "c"] := by decide +kernel
  have hrun : runFrom (promote Shelf.store.guarded d channels) s = run := rfl
  -- From here on the run is not evaluated any more.
  clear_value run
  have htold := (promote_reports_exactly Shelf.store.guarded d channels).1 s report run.2
    (hrun.trans (Prod.ext hreport rfl))
  have hasked := (promote_reports_exactly Shelf.store d channels).2.1 s _ _ hrun
  have hstored := (promote_reports_exactly Shelf.store.guarded d channels).2.2 _
    Shelf.steady.guarded s _ _ hrun
  rw [hstays, henters] at htold
  exact ⟨hreport, htold, hcalls, hasked, hstored⟩

end Promotion

end Ferry
