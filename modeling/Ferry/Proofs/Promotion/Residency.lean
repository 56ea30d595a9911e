import Ferry.Proofs.Chains
import Ferry.Proofs.Promotion.Report

/-!
# Promotion and residency

A deployable is promoted into no channel that it lives in, and into no other channel of
its own namespace either: the gate that keeps it from residing there keeps it out as
well. So a promotion leaves the deployable's own namespace as it was. But only the
deployable that is promoted is asked where it lives, and not its root. So a root that
lives in a channel may get a copy there, from a promotion of one of its projections.
As long as the copy is there, no promotion puts another one beside it.
-/
namespace Ferry

/-- The entries of a report are about the channels of a list, one for each item of the list in some
order, and each outcome fits its channel. -/
def PromotionReport.EachTells (report : PromotionReport) (channels : List Channel)
    (Fits : Channel → Outcome → Prop) : Prop :=
  ∃ told : List Channel, told.Perm channels ∧
    List.Forall₂ (fun c entry => entry.1 = c.key ∧ Fits c entry.2) told report.outcomes

theorem PromotionReport.EachTells.imp {report : PromotionReport} {channels : List Channel}
    {Fits Fits' : Channel → Outcome → Prop} (h : report.EachTells channels Fits)
    (himp : ∀ c ∈ channels, ∀ outcome, (c.key, outcome) ∈ report.outcomes →
      Fits c outcome → Fits' c outcome) : report.EachTells channels Fits' := by
  obtain ⟨told, hperm, htold⟩ := h
  rw [List.forall₂_iff_zip] at htold
  obtain ⟨hlength, htold⟩ := htold
  have hfits : ∀ {c entry}, (c, entry) ∈ told.zip report.outcomes →
      entry.1 = c.key ∧ Fits' c entry.2 := by
    rintro c ⟨key, outcome⟩ hmem
    obtain ⟨hkey, hfits⟩ := htold hmem
    obtain ⟨hc, hentry⟩ := List.of_mem_zip hmem
    dsimp only at hkey hfits
    subst hkey
    exact ⟨rfl, himp c (hperm.mem_iff.mp hc) outcome hentry hfits⟩
  exact ⟨told, hperm, List.forall₂_iff_zip.mpr ⟨hlength, hfits⟩⟩

theorem PromotionReport.EachTells.of_singleton {c : Channel} {key : ObjectKey} {outcome : Outcome}
    {Fits : Channel → Outcome → Prop} (h : EachTells ⟨[(key, outcome)]⟩ [c] Fits) :
    key = c.key ∧ Fits c outcome := by
  obtain ⟨told, hperm, htold⟩ := h
  obtain rfl := List.perm_singleton.mp hperm
  obtain ⟨htells, -⟩ := List.forall₂_cons.mp htold
  exact htells

namespace Promotion

variable {σ : Type} {store : Store (StateM σ)} {d : Deployable} {channels : List Channel}
  {c : Channel} {made : List (ObjectKey × Deployable)}

theorem Course.eachTells {s s' : σ} {report : PromotionReport}
    (h : Course store d channels s (.ok report) made s') :
    report.EachTells channels fun c outcome =>
      TellsOf d channels (store.listed s) c (c.key, outcome) := by
  obtain ⟨first, later, houtcomes, hfirst, hlater⟩ :=
    h.exists_verdicts fun shown t hlist => (Store.listed_eq hlist).symm
  let told := (channels.filter fun c => !isEligible d c) ++ eligible d channels
  have hperm : told.Perm channels :=
    List.perm_append_comm.trans (List.filter_append_perm (isEligible d) channels)
  have hverdicts : verdicts report.outcomes =
      told.map fun c => (c.key, verdictAmong (store.listed s) d channels c) := by
    rw [houtcomes, verdicts, List.map_append, ← verdicts, ← verdicts, hfirst, hlater,
      List.map_append]
  refine ⟨told, hperm, (forall₂_tellsOf hperm.subset hverdicts).imp ?_⟩
  rintro c ⟨key, outcome⟩ htells
  obtain rfl : key = c.key := htells.key
  exact ⟨rfl, htells⟩

theorem eachTells_of_run {s s' : σ} {report : PromotionReport}
    (h : runFrom (promote store d channels) s = (.ok report, s')) :
    report.EachTells channels fun c outcome =>
      TellsOf d channels (store.listed s) c (c.key, outcome) := by
  obtain ⟨made, hcourse⟩ := course_of_run h
  exact hcourse.eachTells

theorem Course.exists_asked {s s' : Guarded σ} {result : Except Failure PromotionReport}
    (h : Course store.guarded d channels s result made s') :
    ∃ asked, s'.calls = s.calls ++ asked ∧
      ∀ q, Store.Call.create q ∈ asked → ∃ c ∈ channels, Enters d c ∧ q = project d c.key := by
  obtain ⟨keys, hkeys, hcalls⟩ := h.calls
  rcases hcalls with hnone | hsome
  · exact ⟨[], by rw [hnone, List.append_nil], fun q hq => absurd hq List.not_mem_nil⟩
  · refine ⟨_, hsome, ?_⟩
    intro q hq
    have hcreate := (List.mem_cons.mp hq).resolve_left nofun
    obtain ⟨key, hkey, hsame⟩ := List.mem_map.mp hcreate
    obtain ⟨c, hc, rfl⟩ := List.mem_map.mp (hkeys.subset hkey)
    obtain ⟨hmem, heligible⟩ := List.mem_filter.mp hc
    exact ⟨c, hmem, isEligible_iff.mp heligible, (Store.Call.create.inj hsame).symm⟩

/-! ### The deployable's own namespace -/

/-- Residency and promotion ask for the same gate, so a deployable that does not pass it stays out
of the channels of its own namespace. -/
theorem not_enters_of_space_eq (h : c.space = d.space) : ¬ Enters d c := by
  rintro ⟨hlives, hadmits⟩
  have hpasses : Policy.passesGate d c = true := (Bool.and_eq_true_iff.mp hadmits).2
  have hresides : Policy.resides d c = true := by simp [Policy.resides, h, hpasses]
  exact hlives (.inr hresides)

theorem TellsOf.outcome_eq {before : List Deployable} {outcome : Outcome}
    (h : TellsOf d channels before c (c.key, outcome)) (hstays : ¬ Enters d c) :
    outcome = if LivesIn d c then .resident else .denied := by
  by_cases hlives : LivesIn d c
  · rw [if_pos hlives]
    exact h.resident.mpr hlives
  · rw [if_neg hlives]
    have hadmits : Policy.admits d c = false :=
      Bool.eq_false_iff.mpr fun hadmits => hstays ⟨hlives, hadmits⟩
    exact h.denied.mpr ⟨hlives, hadmits⟩

theorem space_ne_of_mem_eligibleKeys {key : ObjectKey} (h : key ∈ eligibleKeys d channels) :
    key.space ≠ d.space := by
  obtain ⟨c, hc, rfl⟩ := List.mem_map.mp h
  have henters : Enters d c := isEligible_iff.mp (List.mem_filter.mp hc).2
  exact fun hspace => not_enters_of_space_eq hspace henters

/-- A promotion that succeeds tells of every channel in the deployable's own namespace that the
deployable lives there or is denied. However it ends, it asks for no object in that namespace, and
a store that keeps its objects holds there just what it held before. -/
theorem promote_leaves_home {σ : Type} (store : Store (StateM σ)) (d : Deployable)
    (channels : List Channel) :
    (∀ s report s', runFrom (promote store d channels) s = (.ok report, s') →
      report.EachTells channels fun c outcome => c.space = d.space →
        outcome = if LivesIn d c then .resident else .denied) ∧
    (∀ s result s', runFrom (promote store.guarded d channels) s = (result, s') →
      ∃ asked, s'.calls = s.calls ++ asked ∧
        ∀ p, Store.Call.create p ∈ asked → p.space ≠ d.space) ∧
    ∀ objects, store.Steady objects →
      ∀ s result s', runFrom (promote store d channels) s = (result, s') →
        (objects s').filter (·.space = d.space) = (objects s).filter (·.space = d.space) := by
  refine ⟨?_, ?_, ?_⟩
  · intro s report s' hrun
    apply (eachTells_of_run hrun).imp
    intro c _ outcome _ htells hspace
    exact htells.outcome_eq (not_enters_of_space_eq hspace)
  · intro s result s' hrun
    obtain ⟨made, hcourse⟩ := course_of_run hrun
    obtain ⟨asked, hcalls, hasked⟩ := hcourse.exists_asked
    refine ⟨asked, hcalls, ?_⟩
    intro p hp hspace
    obtain ⟨c, -, henters, rfl⟩ := hasked p hp
    exact not_enters_of_space_eq hspace henters
  · intro objects hstore s result s' hrun
    obtain ⟨made, hcourse⟩ := course_of_run hrun
    have hkept := hcourse.kept hstore
    apply hkept.grown.filter_eq
    intro p hp
    obtain ⟨m, hm, rfl⟩ := List.mem_map.mp hp
    have hspace := (isProjectionInto_iff.mp (hkept.projects hm)).2.1
    have hkey := hcourse.made_sublist.subset (List.mem_map_of_mem hm)
    rw [decide_eq_false_iff_not, hspace]
    exact space_ne_of_mem_eligibleKeys hkey

def homeChannels : List Channel :=
  [.new "a" "open", Channel.withGateAnnotation (.new "a" "gated") "tier" "gold", .new "b" "c"]

/-- At home a deployable is resident or denied, and the only new object is elsewhere. -/
theorem declaring_leaves_home :
    let s : Guarded Shelf := ⟨stocked [declaring], fun _ _ => none, []⟩
    let report : PromotionReport := ⟨[(⟨"a", "open"⟩, .resident), (⟨"a", "gated"⟩, .denied),
      (⟨"b", "c"⟩, .created ⟨"b", "r-1"⟩)]⟩
    let run := runFrom (promote Shelf.store.guarded declaring homeChannels) s
    run.1 = .ok report ∧
      (report.EachTells homeChannels fun c outcome => c.space = declaring.space →
        outcome = if LivesIn declaring c then .resident else .denied) ∧
      (∃ asked, run.2.calls = s.calls ++ asked ∧
        ∀ p, Store.Call.create p ∈ asked → p.space ≠ declaring.space) ∧
      run.2.state.objects.filter (·.space = "a") = s.state.objects.filter (·.space = "a") ∧
      run.2.state.memory.keys = [⟨"a", "r"⟩, ⟨"b", "r-1"⟩] := by
  intro s report run
  have hreport : run.1 = .ok report := eq_ok_of_toOption (by decide +kernel)
  have hkeys : run.2.state.memory.keys = [⟨"a", "r"⟩, ⟨"b", "r-1"⟩] := by decide +kernel
  have hrun : runFrom (promote Shelf.store.guarded declaring homeChannels) s = run := rfl
  -- From here on the run is not evaluated any more.
  clear_value run
  have htold := (promote_leaves_home Shelf.store.guarded declaring homeChannels).1 s report run.2
    (hrun.trans (Prod.ext hreport rfl))
  have hasked := (promote_leaves_home Shelf.store declaring homeChannels).2.1 s _ _ hrun
  have hkept := (promote_leaves_home Shelf.store.guarded declaring homeChannels).2.2 _
    Shelf.steady.guarded s _ _ hrun
  exact ⟨hreport, htold, hasked, hkept, hkeys⟩

/-! ### Copies of a root -/

/-- As long as a projection is there, no promotion of anything with its root tells of a new object
in the channel. -/
theorem not_created_beside {objects : σ → List Deployable} (hstore : store.Steady objects)
    {s s' : σ} {report : PromotionReport} (h : Course store d channels s (.ok report) made s')
    {channel : ObjectKey} {q : Deployable} (hq : q ∈ objects s)
    (hprojects : isProjectionInto d.root channel q = true) (key : ObjectKey) :
    (channel, .created key) ∉ report.outcomes := by
  intro hcreated
  obtain ⟨p, hp, -⟩ := h.exists_made_of_created rfl hcreated
  have hnone := h.fresh hstore _ hp q hq
  rw [hprojects] at hnone
  cases hnone

/-- A projection that is made into a channel that the list names once is the only one of its root
there. -/
theorem Course.filter_eq_singleton {objects : σ → List Deployable} (hstore : store.Steady objects)
    {s s' : σ} {result : Except Failure PromotionReport}
    (h : Course store d channels s result made s') {channel : ObjectKey}
    (honce : (channels.map Channel.key).count channel ≤ 1) {q : Deployable}
    (hq : (channel, q) ∈ made) :
    (objects s').filter (isProjectionInto d.root channel) = [q] := by
  have hkept := h.kept hstore
  have hold : (objects s).filter (isProjectionInto d.root channel) = [] := by
    rw [List.filter_eq_nil_iff]
    intro p hp hprojects
    rw [h.fresh hstore _ hq p hp] at hprojects
    cases hprojects
  have hfor : made.filter (isProjectionInto d.root channel ∘ Prod.snd) =
      made.filter (·.1 = channel) := by
    refine List.filter_congr fun m hm => ?_
    have hprojects := hkept.projects hm
    by_cases hchannel : m.1 = channel
    · rw [Function.comp_apply, ← hchannel, hprojects, decide_eq_true rfl]
    · rw [Function.comp_apply, decide_eq_false hchannel, Bool.eq_false_iff]
      exact fun hinto => hchannel (eq_of_isProjectionInto hprojects hinto).2
  have hcount : (made.filter (·.1 = channel)).length ≤ 1 := by
    have hsub := h.made_sublist.trans (List.filter_sublist.map Channel.key)
    have hle := Nat.le_trans (hsub.count_le channel) honce
    rwa [List.count_eq_countP, List.countP_map, List.countP_eq_length_filter] at hle
  have hmem : (channel, q) ∈ made.filter (·.1 = channel) := List.mem_filter.mpr ⟨hq, by simp⟩
  obtain ⟨m, hone⟩ : ∃ m, made.filter (·.1 = channel) = [m] :=
    List.length_eq_one_iff.mp (Nat.le_antisymm hcount (List.length_pos_of_mem hmem))
  rw [hone, List.mem_singleton] at hmem
  have hperm := hkept.grown.perm.filter (isProjectionInto d.root channel)
  rw [List.filter_append, hold, List.nil_append, List.filter_map, hfor, hone, ← hmem] at hperm
  exact List.perm_singleton.mp hperm

/-- A promotion of a root tells that it is resident in every channel that it lives in. A promotion
of one of its projections creates a copy in such a channel exactly if the projection enters the
channel and none is found there. In a store that keeps its objects, this is the only one there if
the list names the channel once, and no promotion of anything that comes from the root creates
another one as long as it is there. -/
theorem root_copied_back_iff {r p : Deployable} (hroot : r.source? = none)
    (hsource : p.annotation? Annotation.channelSource = some r.identity) {σ : Type}
    (store : Store (StateM σ)) (channels : List Channel) :
    (∀ s report s', runFrom (promote store r channels) s = (.ok report, s') →
      report.EachTells channels fun c outcome => LivesIn r c → outcome = .resident) ∧
    (∀ s report s', runFrom (promote store p channels) s = (.ok report, s') →
      report.EachTells channels fun c outcome => LivesIn r c →
        ((∃ key, outcome = .created key) ↔ Enters p c ∧ ∀ q ∈ store.listed s,
          ¬ IsOwnProjection p channels c q ∧ ¬ IsRootProjection r c q)) ∧
    ∀ objects, store.Steady objects →
      ∀ s report t, runFrom (promote store p channels) s = (.ok report, t) →
        ∀ channel key, (channel, .created key) ∈ report.outcomes →
          ∃ q ∈ objects t, q.key = key ∧
            ((channels.map Channel.key).count channel ≤ 1 →
              (objects t).filter (isProjectionInto r.identity channel) = [q]) ∧
            ∀ u, q ∈ objects u → ∀ (d : Deployable) (channels' : List Channel),
              d.root = r.identity → ∀ report' u',
                runFrom (promote store d channels') u = (.ok report', u') →
                  ∀ key', (channel, .created key') ∉ report'.outcomes := by
  have hp : p.root = r.identity := Deployable.root_of_annotation? hsource r.key.text_ne_empty
  have hr : r.root = r.identity := by rw [Deployable.root, hroot, Option.getD_none]
  have hsame : ∀ c q, IsRootProjection p c q ↔ IsRootProjection r c q := by
    intro c q
    rw [← isProjectionInto_iff_isRootProjection, ← isProjectionInto_iff_isRootProjection, hp, hr]
  refine ⟨?_, ?_, ?_⟩
  · intro s report s' hrun
    exact (eachTells_of_run hrun).imp fun c _ outcome _ htells => htells.resident.mpr
  · intro s report s' hrun
    apply (eachTells_of_run hrun).imp
    intro c _ outcome _ htells _
    simpa only [hsame] using htells.created
  · intro objects hstore s report t hrun channel key hcreated
    obtain ⟨made, hcourse⟩ := course_of_run hrun
    obtain ⟨q, hq, hkey⟩ := hcourse.exists_made_of_created rfl hcreated
    have hkept := hcourse.kept hstore
    have hprojects : isProjectionInto r.identity channel q = true := hp ▸ hkept.projects hq
    refine ⟨q, hkept.mem_of_made hq, hkey, ?_, ?_⟩
    · intro honce
      rw [← hp]
      exact hcourse.filter_eq_singleton hstore honce hq
    · intro u hu d channels' hd report' u' hrun'
      obtain ⟨made', hcourse'⟩ := course_of_run hrun'
      exact not_created_beside hstore hcourse' hu (hd.symm ▸ hprojects)

def homeward : Deployable :=
  ((Deployable.new "a" "r").withChannel ⟨"a", "c"⟩).withChannel ⟨"b", "e"⟩

def away : Deployable := (project homeward ⟨"b", "e"⟩).completed "r-9" "u" default

/-- The root lives in the channel, and a promotion of its projection puts a copy beside it. -/
theorem root_copied_beside_itself :
    let c := Channel.new "a" "c"
    let s := stocked [homeward, away]
    homeward.source? = none ∧
      away.annotation? Annotation.channelSource = some homeward.identity ∧
      homeward ∈ s.objects ∧ away ∈ s.objects ∧ Policy.resides homeward c = true ∧
      (runFrom (promote Shelf.store away [c]) s).1.toOption =
        some ⟨[(c.key, .created ⟨"a", "r--1"⟩)]⟩ := by
  decide +kernel

/-- One copy of `homeward` is made in one of the two channels that it lives in and may declare, and
a second promotion finds it. -/
theorem homeward_copied_once :
    let channels := [Channel.new "a" "c", .new "a" "d", .new "b" "e"]
    let s := stocked [homeward, away]
    let report : PromotionReport := ⟨[(⟨"a", "d"⟩, .denied), (⟨"b", "e"⟩, .resident),
      (⟨"a", "c"⟩, .created ⟨"a", "r--1"⟩)]⟩
    let first := runFrom (promote Shelf.store away channels) s
    let second := runFrom (promote Shelf.store away channels) first.2
    homeward.source? = none ∧
      away.annotation? Annotation.channelSource = some homeward.identity ∧
      first.1 = .ok report ∧
      (report.EachTells channels fun c outcome => LivesIn homeward c →
        ((∃ key, outcome = .created key) ↔ Enters away c ∧ ∀ q ∈ Shelf.store.listed s,
          ¬ IsOwnProjection away channels c q ∧ ¬ IsRootProjection homeward c q)) ∧
      (∃ q, first.2.objects.filter (isProjectionInto homeward.identity ⟨"a", "c"⟩) = [q]) ∧
      ∃ report', second.1 = .ok report' ∧
        ∀ key', (⟨"a", "c"⟩, .created key') ∉ report'.outcomes := by
  intro channels s report first second
  have hroot : homeward.source? = none := by decide +kernel
  have hsource : away.annotation? Annotation.channelSource = some homeward.identity := by
    decide +kernel
  have hfirst : first.1 = .ok report := eq_ok_of_toOption (by decide +kernel)
  have hsecond : second.1.toOption.isSome = true := by decide +kernel
  obtain ⟨report', hreport'⟩ := Option.isSome_iff_exists.mp hsecond
  have hrun : runFrom (promote Shelf.store away channels) s = first := rfl
  have hrun' : runFrom (promote Shelf.store away channels) first.2 = second := rfl
  -- From here on the runs are not evaluated any more.
  clear_value second first
  obtain ⟨-, htells, honce⟩ := root_copied_back_iff hroot hsource Shelf.store channels
  have hok : runFrom (promote Shelf.store away channels) s = (.ok report, first.2) :=
    hrun.trans (Prod.ext hfirst rfl)
  obtain ⟨q, hq, -, honly, hnone⟩ := honce _ Shelf.steady _ _ _ hok ⟨"a", "c"⟩ ⟨"a", "r--1"⟩
    (by simp [report])
  have hreroot : away.root = homeward.identity :=
    Deployable.root_of_annotation? hsource homeward.key.text_ne_empty
  have hagain : runFrom (promote Shelf.store away channels) first.2 = (.ok report', second.2) :=
    hrun'.trans (Prod.ext (eq_ok_of_toOption hreport') rfl)
  exact ⟨hroot, hsource, hfirst, htells _ _ _ hok, ⟨q, honly (by decide)⟩, report',
    eq_ok_of_toOption hreport', hnone _ hq away channels hreroot report' _ hagain⟩

end Promotion

end Ferry
