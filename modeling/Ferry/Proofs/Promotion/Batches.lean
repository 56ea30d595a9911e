import Mathlib.Data.List.Find
import Ferry.Proofs.Promotion.Gained
import Ferry.Proofs.Promotion.Proliferation
import Ferry.Proofs.Promotion.Repetition
import Ferry.Proofs.Promotion.Report

/-!
# Channels in batches and in any order

What a promotion tells of a channel could depend on the others in its list: they
add namespaces in which children count, and their new projections are there when
the channel has its turn. If objects that name a channel stand in its namespace,
neither makes a difference. So the same channels end alike in one run and in many,
and in any order.
-/
namespace Ferry

namespace Promotion

def verdictAlone (snapshot : List Deployable) (d : Deployable) (c : Channel) : Verdict :=
  verdictAmong snapshot d [c] c

theorem Course.verdicts_perm {σ : Type} {store : Store (StateM σ)} {objects : σ → List Deployable}
    {s s' : σ} {d : Deployable} {channels : List Channel} {made : List (ObjectKey × Deployable)}
    {report : PromotionReport} (h : Course store d channels s (.ok report) made s')
    (hstore : store.Steady objects) :
    report.verdicts.Perm (channels.map fun c =>
      (c.key, verdictAmong (objects s) d channels c)) := by
  obtain ⟨first, later, houtcomes, hfirst, hlater⟩ :=
    h.exists_verdicts fun _ _ hlist => snapshot_eq hstore hlist
  have hverdicts : report.verdicts = verdicts first ++ verdicts later := by
    rw [PromotionReport.verdicts, houtcomes]
    exact List.map_append
  rw [hverdicts, hfirst, hlater, ← List.map_append]
  exact (List.perm_append_comm.trans (List.filter_append_perm (isEligible d) channels)).map _

/-- Objects that name a source and one of the channels stand in the channel's namespace. -/
def Housed (channels : List Channel) (objects : List Deployable) : Prop :=
  ∀ c ∈ channels, ∀ p ∈ objects, p.annotation? Annotation.channelSource ≠ none →
    p.annotation? Annotation.channel = some c.identity → p.space = c.space

instance (channels : List Channel) (objects : List Deployable) :
    Decidable (Housed channels objects) :=
  inferInstanceAs (Decidable (∀ c ∈ channels, ∀ p ∈ objects, _ → _ → _))

variable {d : Deployable} {c : Channel} {channels : List Channel} {before after : List Deployable}
  {made : List (ObjectKey × Deployable)}

theorem Housed.mono {channels' : List Channel} (h : Housed channels before)
    (hsub : channels' ⊆ channels) : Housed channels' before :=
  fun c hc => h c (hsub hc)

/-- Children that stand in the channel's namespace count in any list with the channel. -/
theorem Housed.found?_eq (h : Housed channels before) (hc : c ∈ channels)
    (heligible : isEligible d c = true) :
    found? before d channels c.key = found? before d [c] c.key := by
  have hspaces : c.space ∈ eligibleSpaces d channels :=
    List.mem_map_of_mem (List.mem_filter.mpr ⟨hc, heligible⟩)
  have halone : eligibleSpaces d [c] = [c.space] := by simp [eligibleSpaces, eligible, heligible]
  have hchild : ∀ p ∈ before, isChildFor d (eligibleSpaces d channels) c.key p =
      isChildFor d (eligibleSpaces d [c]) c.key p := by
    intro p hp
    rw [Bool.eq_iff_iff, isChildFor_iff, isChildFor_iff, halone]
    refine and_congr_right fun hsource => and_congr_right fun _ => and_congr_left fun hchannel => ?_
    have hspace := h c hc p hp (by simp [hsource]) hchannel
    simp [hspace, hspaces]
  rw [Promotion.found?_eq (eligibleKeys_ne_nil hc heligible),
    Promotion.found?_eq (eligibleKeys_ne_nil (List.mem_singleton_self c) heligible)]
  congr 1
  exact List.find?_congr fun p hp => hchild p (List.mem_reverse.mp hp)

theorem Housed.verdict_eq (h : Housed channels before) (hc : c ∈ channels) :
    verdictAmong before d channels c = verdictAlone before d c := by
  unfold verdictAlone verdictAmong
  by_cases heligible : isEligible d c = true
  · rw [if_pos heligible, if_pos heligible, h.found?_eq hc heligible]
  · rw [if_neg heligible, if_neg heligible]

theorem Kept.verdict_of_ne (h : Kept d made before after)
    (hne : ∀ m ∈ made, m.1.text ≠ c.identity) :
    verdictAlone after d c = verdictAlone before d c := by
  unfold verdictAlone verdictAmong
  by_cases heligible : isEligible d c = true
  · have hkeys := eligibleKeys_ne_nil (List.mem_singleton_self c) heligible
    rw [if_pos heligible, if_pos heligible, h.found?_of_ne hkeys hne]
  · rw [if_neg heligible, if_neg heligible]

theorem Kept.housed (h : Kept d made before after) (hhoused : Housed channels before)
    (hne : ∀ m ∈ made, ∀ c ∈ channels, m.1.text ≠ c.identity) : Housed channels after := by
  intro c hc p hp hsource hchannel
  rcases h.mem_before_or_made hp with hold | ⟨m, hm, rfl⟩
  · exact hhoused c hc p hold hsource hchannel
  · have htext := (isProjectionInto_iff.mp (h.projects hm)).2.2
    rw [htext, Option.some.injEq] at hchannel
    exact absurd hchannel (hne m hm c hc)

/-- The channels into which promotions make projections, each taken alone. -/
def vacant (objects : List Deployable) (d : Deployable) (channels : List Channel) : List Channel :=
  channels.filter fun c => verdictAlone objects d c = .created

theorem Housed.missing_eq (h : Housed channels before) (d : Deployable) :
    missing before d channels = (vacant before d channels).map Channel.key := by
  rw [missing, eligibleKeys, List.filter_map, eligible, List.filter_filter, vacant]
  congr 1
  apply List.filter_congr
  intro c hc
  rw [← h.verdict_eq hc, verdictAmong, Function.comp_apply]
  cases heligible : isEligible d c with
  | false => cases hresident : isResident d c <;> simp
  | true => cases found? before d channels c.key <;> simp [foundVerdict]

/-- Between two contents each of the channels was judged as it would be alone and at first, and
projections were made into the ones that were vacant. -/
structure Judged (d : Deployable) (channels : List Channel) (before after : List Deployable)
    (entries : List (ObjectKey × Verdict)) : Prop where
  verdicts : entries.Perm (channels.map fun c => (c.key, verdictAlone before d c))
  gained : Gained d ((vacant before d channels).map Channel.key) before after

section Judged

variable {channels' : List Channel} {after' : List Deployable}
  {entries entries' : List (ObjectKey × Verdict)}

theorem Judged.nil (d : Deployable) (objects : List Deployable) : Judged d [] objects objects [] :=
  ⟨.refl _, [], by simp, by simp [vacant]⟩

theorem Judged.append (h : Judged d channels before after entries)
    (h' : Judged d channels' after after' entries')
    (hstays : ∀ c ∈ channels', verdictAlone after d c = verdictAlone before d c) :
    Judged d (channels ++ channels') before after' (entries ++ entries') where
  verdicts := by
    rw [List.map_append]
    refine h.verdicts.append (h'.verdicts.trans (.of_eq (List.map_congr_left ?_)))
    intro c hc
    rw [hstays c hc]
  gained := by
    have hvacant : vacant after d channels' = vacant before d channels' := by
      apply List.filter_congr
      intro c hc
      rw [hstays c hc]
    have hlater := h'.gained
    rw [hvacant] at hlater
    rw [vacant, List.filter_append, List.map_append]
    exact h.gained.append hlater

theorem Judged.alike (h : Judged d channels before after entries)
    (h' : Judged d channels' before after' entries') (hperm : channels'.Perm channels) :
    entries'.Perm entries ∧ GrownAlike before after after' := by
  constructor
  · exact h'.verdicts.trans ((hperm.map _).trans h.verdicts.symm)
  · have hvacant : (vacant before d channels').Perm (vacant before d channels) := hperm.filter _
    exact h.gained.alike (h'.gained.perm (hvacant.map Channel.key))

end Judged

section Runs

variable {σ : Type} {store : Store (StateM σ)} {report : PromotionReport}

theorem Course.judged {objects : σ → List Deployable} {s s' : σ}
    (h : Course store d channels s (.ok report) made s') (hstore : store.Steady objects)
    (hhoused : Housed channels (objects s)) :
    Judged d channels (objects s) (objects s') report.verdicts where
  verdicts := by
    refine (h.verdicts_perm hstore).trans (.of_eq (List.map_congr_left ?_))
    intro c hc
    rw [hhoused.verdict_eq hc]
  gained := by
    have hgained := (h.kept hstore).gained
    rwa [h.made_eq_missing hstore, hhoused.missing_eq] at hgained

theorem Course.made_apart {s s' : σ} {result : Except Failure PromotionReport}
    (h : Course store d channels s result made s') {others : List Channel}
    (hapart : ∀ c ∈ channels, ∀ c' ∈ others, c.identity ≠ c'.identity) :
    ∀ m ∈ made, ∀ c ∈ others, m.1.text ≠ c.identity := by
  intro m hm c hc
  have hkey := h.made_sublist.subset (List.mem_map_of_mem hm)
  obtain ⟨c', hc', hsame⟩ := List.mem_map.mp hkey
  rw [← hsame]
  exact hapart c' (List.mem_filter.mp hc').1 c hc

variable {objects : Watched σ → List Deployable} {t t' : Watched σ}

theorem promoteEach_failures_extend (store : Store (StateM σ)) (requests : List Request)
    (t : Watched σ) :
    t.failures <+: (StateT.run (promoteEach store.watched requests) t).2.failures := by
  induction requests generalizing t with
  | nil => exact List.prefix_rfl
  | cons r requests ih =>
    rw [run_promoteEach_cons]
    exact (failures_extend rfl).trans (ih _)

/-- Promotions into many batches of channels, in which no call fails, judge every channel as if it
were alone and had its turn first. -/
theorem promoteEach_batches (hstore : store.watched.Steady objects) (batches : List (List Channel))
    (hidentities : (batches.flatten.map Channel.identity).Nodup)
    (hhoused : Housed batches.flatten (objects t)) {results : List (Except Failure PromotionReport)}
    (hrun : StateT.run (promoteEach store.watched (batches.map fun batch => ⟨d, batch⟩)) t =
      (results, t'))
    (hnone : t'.failures = t.failures) :
    ∃ reports : List PromotionReport, results = reports.map .ok ∧
      Judged d batches.flatten (objects t) (objects t')
        (reports.flatMap PromotionReport.verdicts) := by
  induction batches generalizing t results with
  | nil =>
    obtain ⟨rfl, rfl⟩ := Prod.mk.inj hrun
    exact ⟨[], rfl, .nil d _⟩
  | cons batch batches ih =>
    rw [List.flatten_cons, List.map_append, List.nodup_append] at hidentities
    obtain ⟨-, hrest, hapart⟩ := hidentities
    rw [List.map_cons, run_promoteEach_cons] at hrun
    rcases hfirst : runFrom (promote store.watched d batch) t with ⟨result, u⟩
    rw [hfirst] at hrun
    obtain ⟨rfl, rfl⟩ := Prod.mk.inj hrun
    -- No call fails in the first run, since the failures of the whole go on from its failures.
    have hfailures := promoteEach_failures_extend store (batches.map fun batch => ⟨d, batch⟩) u
    rw [hnone] at hfailures
    have hfirstnone : u.failures = t.failures :=
      hfailures.eq_of_length_le (failures_extend hfirst).length_le
    obtain ⟨report, made, rfl, hcourse⟩ := course_of_unfailing hfirst hfirstnone
    have hkept := hcourse.kept hstore
    have hbatch : Housed batch (objects t) := hhoused.mono (List.subset_append_left _ _)
    have hlater : Housed batches.flatten (objects t) := hhoused.mono (List.subset_append_right _ _)
    have hne := hcourse.made_apart fun c hc c' hc' =>
      hapart _ (List.mem_map_of_mem hc) _ (List.mem_map_of_mem hc')
    obtain ⟨reports, hreports, hjudged⟩ :=
      ih hrest (hkept.housed hlater hne) rfl (hnone.trans hfirstnone.symm)
    refine ⟨report :: reports, congrArg (.ok report :: ·) hreports, ?_⟩
    exact (hcourse.judged hstore hbatch).append hjudged fun c hc =>
      hkept.verdict_of_ne fun m hm => hne m hm c hc

end Runs

/-- If objects that name a channel of the list stand in its namespace and no call fails, every
channel gets the same verdict in a promotion into all of them, in one that takes them in another
order, and in single ones, one after another in any order. The memory gains the same objects, up to
what it draws for them. -/
theorem promote_in_any_order (d : Deployable) {channels : List Channel}
    (hidentities : (channels.map Channel.identity).Nodup) {s t : Watched Shelf}
    (hhoused : Housed channels s.state.objects) {result : Except Failure PromotionReport}
    (hrun : runFrom (promote Shelf.store.watched d channels) s = (result, t))
    (hnone : t.failures = s.failures) :
    ∃ report, result = .ok report ∧
      (report.verdicts.map Prod.fst).Perm (channels.map Channel.key) ∧
      ∀ order : List Channel, order.Perm channels →
        ∀ s' : Watched Shelf, s'.state.memory = s.state.memory →
          (∀ result' t', runFrom (promote Shelf.store.watched d order) s' = (result', t') →
            t'.failures = s'.failures →
            ∃ report', result' = .ok report' ∧ report'.verdicts.Perm report.verdicts ∧
              GrownAlike s.state.objects t.state.objects t'.state.objects) ∧
          ∀ results t', StateT.run (promoteEach Shelf.store.watched
              (order.map fun c => ⟨d, [c]⟩)) s' = (results, t') →
            t'.failures = s'.failures →
            ∃ reports : List PromotionReport, results = reports.map .ok ∧
              (reports.flatMap PromotionReport.verdicts).Perm report.verdicts ∧
              GrownAlike s.state.objects t.state.objects t'.state.objects := by
  have hstore := Shelf.steady.watched
  obtain ⟨report, made, rfl, hcourse⟩ := course_of_unfailing hrun hnone
  have hjudged := hcourse.judged hstore hhoused
  refine ⟨report, rfl, ?_, ?_⟩
  · have hkeys := hjudged.verdicts.map Prod.fst
    rwa [List.map_map] at hkeys
  · intro order horder s' hmemory
    have hsame : s'.state.objects = s.state.objects := by
      rw [Shelf.objects, Shelf.objects, hmemory]
    have hhoused' : Housed order s'.state.objects := by
      rw [hsame]
      exact hhoused.mono horder.subset
    refine ⟨?_, ?_⟩
    · intro result' t' hrun' hnone'
      obtain ⟨report', made', rfl, hcourse'⟩ := course_of_unfailing hrun' hnone'
      have hjudged' := hcourse'.judged hstore hhoused'
      rw [hsame] at hjudged'
      exact ⟨report', rfl, hjudged.alike hjudged' horder⟩
    · intro results t' hrun' hnone'
      have hflatten : (order.map fun c => [c]).flatten = order := by
        rw [← List.flatMap_def, List.flatMap_singleton']
      have hrequests : (order.map fun c => (⟨d, [c]⟩ : Request)) =
          (order.map fun c => [c]).map fun batch => ⟨d, batch⟩ := by
        rw [List.map_map]
        rfl
      have hidentities' : (order.map Channel.identity).Nodup :=
        (horder.map Channel.identity).nodup_iff.mpr hidentities
      rw [hrequests] at hrun'
      obtain ⟨reports, hreports, hjudged'⟩ := promoteEach_batches hstore (order.map fun c => [c])
        (by rwa [hflatten]) (by rwa [hflatten]) hrun' hnone'
      rw [hflatten, hsame] at hjudged'
      exact ⟨reports, hreports, hjudged.alike hjudged' horder⟩

/-- Of three channels one holds a projection, one is vacant and one is not declared. -/
theorem judged_in_two_orders :
    let held := (project declaring ⟨"b", "c"⟩).completed "r-9" "u" default
    let channels := [Channel.new "e" "f", .new "b" "c", .new "g" "h"]
    let order := [Channel.new "g" "h", .new "b" "c", .new "e" "f"]
    let s : Watched Shelf := ⟨stocked [declaring, held], []⟩
    let s' : Watched Shelf :=
      ⟨⟨.ofDeployables [declaring, held], fun _ => ⟨["7"], "v", default⟩, 0⟩, []⟩
    let report : PromotionReport := ⟨[(⟨"g", "h"⟩, .denied), (⟨"e", "f"⟩, .created ⟨"e", "r-1"⟩),
      (⟨"b", "c"⟩, .alreadyPresent ⟨"b", "r-9"⟩)]⟩
    let batch := runFrom (promote Shelf.store.watched declaring channels) s
    let reordered := runFrom (promote Shelf.store.watched declaring order) s'
    let each := StateT.run (promoteEach Shelf.store.watched
      (order.map fun c => ⟨declaring, [c]⟩)) s'
    batch.1 = .ok report ∧
      each.2.state.memory.keys = [⟨"a", "r"⟩, ⟨"b", "r-9"⟩, ⟨"e", "r-7"⟩] ∧
      (∃ report', reordered.1 = .ok report' ∧ report'.verdicts.Perm report.verdicts ∧
        GrownAlike s.state.objects batch.2.state.objects reordered.2.state.objects) ∧
      ∃ reports : List PromotionReport, each.1 = reports.map .ok ∧
        (reports.flatMap PromotionReport.verdicts).Perm report.verdicts ∧
        GrownAlike s.state.objects batch.2.state.objects each.2.state.objects := by
  intro held channels order s s' report batch reordered each
  have hbatch : batch.1 = .ok report := eq_ok_of_toOption (by decide +kernel)
  have hidentities : (channels.map Channel.identity).Nodup := by decide
  have hhoused : Housed channels s.state.objects := by decide +kernel
  have hnone : batch.2.failures = s.failures := by decide +kernel
  have hnone₁ : reordered.2.failures = s'.failures := by decide +kernel
  have hnone₂ : each.2.failures = s'.failures := by decide +kernel
  have horder : order.Perm channels := List.reverse_perm channels
  have hkeys : each.2.state.memory.keys = [⟨"a", "r"⟩, ⟨"b", "r-9"⟩, ⟨"e", "r-7"⟩] := by
    decide +kernel
  have hrun : runFrom (promote Shelf.store.watched declaring channels) s = batch := rfl
  have hrun₁ : runFrom (promote Shelf.store.watched declaring order) s' = reordered := rfl
  have hrun₂ : StateT.run (promoteEach Shelf.store.watched
      (order.map fun c => ⟨declaring, [c]⟩)) s' = each := rfl
  -- From here on the three runs are not evaluated any more.
  clear_value batch reordered each
  obtain ⟨report', hreport', _, halike⟩ :=
    promote_in_any_order declaring hidentities hhoused hrun hnone
  obtain rfl : report' = report := Except.ok.inj (hreport'.symm.trans hbatch)
  obtain ⟨hreordered, heach⟩ := halike order horder s' rfl
  exact ⟨hbatch, hkeys, hreordered _ _ hrun₁ hnone₁, heach _ _ hrun₂ hnone₂⟩

end Promotion

end Ferry
