import Mathlib.Data.List.Nodup
import Ferry.Proofs.Promotion.Gained
import Ferry.Proofs.Promotion.Written
import Ferry.Proofs.Store.Memory

/-!
# Promoting twice

A second promotion of the same deployable into the same channels finds all that
the first one made. If the identities of the channels differ, it finds for each
channel the very object that the first report names: the new objects are for
other channels than the ones that were found, so they come before no older match.
-/
namespace Ferry

/-- What a further promotion says where this one created. -/
def Outcome.again : Outcome → Outcome
  | .created key => .alreadyPresent key
  | outcome => outcome

def PromotionReport.again (report : PromotionReport) : PromotionReport :=
  ⟨report.outcomes.map fun e => (e.1, e.2.again)⟩

namespace Promotion

variable {σ : Type} {store : Store (StateM σ)} {d : Deployable} {channels : List Channel}
  {s s' t t' : σ} {made made' : List (ObjectKey × Deployable)} {before after : List Deployable}
  {keys : List ObjectKey} {entries entries' : List (ObjectKey × Outcome)}

theorem created_eq (report : PromotionReport) :
    report.created = (createdIn report.outcomes).map Prod.snd := by
  unfold PromotionReport.created createdIn
  rw [List.map_filterMap]
  congr 1
  funext ⟨channel, outcome⟩
  cases outcome <;> rfl

theorem again_settled (d : Deployable) (channels : List Channel) :
    (settled d channels).map (fun e => (e.1, e.2.again)) = settled d channels := by
  have hsame : ∀ e ∈ settled d channels, (e.1, e.2.again) = id e := by
    intro e he
    obtain ⟨channel, outcome⟩ := e
    rcases outcome_of_mem_settled he with h | h <;>
    · subst h
      rfl
  rw [List.map_congr_left hsame, List.map_id]

theorem Placed.unmade {found? : ObjectKey → Option Deployable}
    (h : Placed store d found? s keys entries made s')
    (hfound : ∀ key ∈ keys, found? key ≠ none) : made = [] ∧ s' = s := by
  induction h with
  | nil => exact ⟨rfl, rfl⟩
  | present _ _ ih => exact ih fun key hkey => hfound key (List.mem_cons_of_mem _ hkey)
  | created hnone _ _ _ => exact absurd hnone (hfound _ List.mem_cons_self)

/-- A second stretch over the same channels that finds what was found or made in the first one has
the same entries, with the new objects already present. -/
theorem Placed.again {found₁? found₂? : ObjectKey → Option Deployable}
    (h : Placed store d found₁? s keys entries made s')
    (hsame : ∀ key ∈ keys, ∀ q, found₁? key = some q → found₂? key = some q)
    (hmade : ∀ m ∈ made, found₂? m.1 = some m.2)
    (h' : Placed store d found₂? t keys entries' made' t') :
    entries' = entries.map fun e => (e.1, e.2.again) := by
  induction h generalizing t t' entries' made' with
  | nil =>
    cases h'
    rfl
  | @present _ _ key _ _ _ q hfound _ ih =>
    have hagain := hsame key List.mem_cons_self q hfound
    cases h' with
    | created hnone _ _ =>
      rw [hagain] at hnone
      cases hnone
    | present hfound' hrest =>
      obtain rfl : q = _ := Option.some.inj (hagain.symm.trans hfound')
      rw [ih (fun key hkey => hsame key (List.mem_cons_of_mem _ hkey)) hmade hrest]
      rfl
  | @created _ _ _ key _ _ _ p hnone _ _ ih =>
    have hagain := hmade (key, p) List.mem_cons_self
    cases h' with
    | created hnone' _ _ =>
      rw [hagain] at hnone'
      cases hnone'
    | present hfound' hrest =>
      obtain rfl : p = _ := Option.some.inj (hagain.symm.trans hfound')
      rw [ih (fun key hkey => hsame key (List.mem_cons_of_mem _ hkey))
        (fun m hm => hmade m (List.mem_cons_of_mem _ hm)) hrest]
      rfl

section Found

variable (h : Kept d made before after) (hkeys : eligibleKeys d channels ≠ [])
  (hmissing : made.map Prod.fst = missing before d channels)
include h hkeys hmissing

theorem Kept.found?_after {key : ObjectKey} (hkey : key ∈ eligibleKeys d channels) :
    found? after d channels key ≠ none := by
  intro hnone
  have hbefore : found? before d channels key = none := by
    rw [found?_eq_none_iff hkeys] at hnone ⊢
    exact fun q hq => hnone q (h.mem_of_before hq)
  obtain ⟨m, hm, rfl⟩ := exists_made hmissing hkey hbefore
  exact h.found?_ne_none hkeys hm hnone

variable (htexts : ((eligibleKeys d channels).map ObjectKey.text).Nodup)
include htexts

theorem Kept.found?_eq_some {key : ObjectKey} {q : Deployable}
    (hkey : key ∈ eligibleKeys d channels) (hfound : found? before d channels key = some q) :
    found? after d channels key = some q := by
  rw [h.found?_of_ne hkeys, hfound]
  intro m hm htext
  obtain ⟨hmem, hnone⟩ := found?_of_made hmissing hm
  rw [List.inj_on_of_nodup_map htexts hmem hkey htext, hfound] at hnone
  cases hnone

theorem Kept.found?_made {m : ObjectKey × Deployable} (hm : m ∈ made) :
    found? after d channels m.1 = some m.2 := by
  obtain ⟨hkey, hnone⟩ := found?_of_made hmissing hm
  rw [found?_eq_none_iff hkeys] at hnone
  obtain ⟨q, hq⟩ := Option.ne_none_iff_exists'.mp (h.found?_after hkeys hmissing hkey)
  obtain ⟨hafter, hfits⟩ := mem_of_found? hkeys hq
  rw [hq]
  rcases h.mem_before_or_made hafter with hold | ⟨m', hm', rfl⟩
  · simp [hnone q hold] at hfits
  · have htext : m'.1.text = m.1.text := by
      by_contra hne
      have hother := eq_false_of_storedAs (h.stored m' hm') hne d (eligibleSpaces d channels) d.root
      simp [hother] at hfits
    have hsame := List.inj_on_of_nodup_map htexts (found?_of_made hmissing hm').1 hkey htext
    have hnodup : (made.map Prod.fst).Nodup := by
      rw [hmissing]
      exact htexts.of_map.filter _
    rw [List.inj_on_of_nodup_map hnodup hm' hm hsame]

end Found

/-- A further promotion from a state answers with a report and leaves the state as it is. It creates
nothing, and if the channels have different identities it tells again what the first report told. -/
def Repeats (store : Store (StateM σ)) (d : Deployable) (channels : List Channel) (t : σ)
    (report : PromotionReport) : Prop :=
  ∃ report', runFrom (promote store d channels) t = (.ok report', t) ∧ report'.created = [] ∧
    ((channels.map Channel.identity).Nodup → report' = report.again)

theorem Course.repeats {report : PromotionReport}
    (hfirst : Course store d channels s (.ok report) made s') (hbefore : store.listed s = before)
    (hkept : Kept d made before after)
    (hlist : eligibleKeys d channels ≠ [] → runFrom (store.list none) t = (.ok after, t)) :
    Repeats store d channels t report := by
  obtain ⟨made', hsecond⟩ := promote_course store d channels t
  generalize hrun : runFrom (promote store d channels) t = run at hsecond
  obtain ⟨result, t'⟩ := run
  cases hfirst with
  | idle hkeys =>
    cases hsecond with
    | idle =>
      refine ⟨_, hrun, ?_, fun _ => ?_⟩
      · rw [created_eq, createdIn_settled]
        rfl
      · rw [PromotionReport.again, again_settled]
    | unlisted hsome => exact absurd hkeys hsome
    | completed hsome => exact absurd hkeys hsome
    | stopped hsome => simp [hkeys] at hsome
  | completed hkeys hlisted hplaced =>
    obtain rfl := (Store.listed_eq hlisted).symm.trans hbefore
    have hlist := hlist hkeys
    have hfound : ∀ key ∈ eligibleKeys d channels,
        Promotion.found? after d channels key ≠ none :=
      fun _ hkey => hkept.found?_after hkeys hplaced.made_keys hkey
    cases hsecond with
    | idle hnone => exact absurd hnone hkeys
    | unlisted _ hfail =>
      rw [hlist] at hfail
      cases hfail
    | stopped hsplit hlisted' _ hnone _ =>
      rw [hlist] at hlisted'
      cases hlisted'
      exact absurd hnone (hfound _ (by simp [hsplit]))
    | completed _ hlisted' hplaced' =>
      rw [hlist] at hlisted'
      cases hlisted'
      obtain ⟨rfl, rfl⟩ := hplaced'.unmade hfound
      refine ⟨_, hrun, ?_, fun hidentities => ?_⟩
      · rw [created_eq, createdIn_append, createdIn_settled, hplaced'.createdIn]
        rfl
      · have htexts := nodup_texts hidentities d
        have hentries := hplaced.again
          (fun key hkey q => hkept.found?_eq_some hkeys hplaced.made_keys htexts hkey)
          (fun m hm => hkept.found?_made hkeys hplaced.made_keys htexts hm) hplaced'
        rw [PromotionReport.again, List.map_append, again_settled, hentries]

/-- Promotion is idempotent: in memory, also with other draws the second time, and in a manifest
file whose texts can be read back. -/
theorem promote_idempotent (d : Deployable) (channels : List Channel) :
    (∀ (s s' : Shelf) report,
      runFrom (promote Shelf.store d channels) s = (.ok report, s') →
        ∀ t : Shelf, t.memory = s'.memory → Repeats Shelf.store d channels t report) ∧
    ∀ path (w w' : World) report,
      (∀ m, w.manifest path = .ok m →
        ∀ m' ∈ written w.supply d w.drawn m (missing m.deployables d channels), m'.ReadsBack) →
      runFrom (promote (ManifestFile.store path) d channels) w = (.ok report, w') →
        Repeats (ManifestFile.store path) d channels w' report := by
  constructor
  · intro s s' report hrun t ht
    obtain ⟨made, hcourse⟩ := promote_course Shelf.store d channels s
    rw [hrun] at hcourse
    refine hcourse.repeats rfl (hcourse.kept Shelf.steady) fun _ => ?_
    rw [Shelf.runFrom_list, Shelf.objects, ht]
    rfl
  · intro path w w' report hback hrun
    obtain ⟨made, hcourse⟩ := promote_course (ManifestFile.store path) d channels w
    rw [hrun] at hcourse
    cases hm : w.manifest path with
    | error e =>
      -- Without a manifest only a promotion that does not look at it succeeds.
      cases hcourse with
      | idle hkeys =>
        have hidle :
            Course (ManifestFile.store path) d channels w' (.ok ⟨settled d channels⟩) [] w' :=
          .idle hkeys
        exact hidle.repeats rfl (.nil d _) fun hsome => absurd hkeys hsome
      | completed _ hlist _ =>
        rw [ManifestFile.runFrom_list, hm] at hlist
        cases hlist
    | ok m =>
      obtain ⟨hlast, hkept⟩ := hcourse.kept_of_readsBack hm (hback m hm)
      refine hcourse.repeats ?_ hkept fun _ => ?_
      · refine Store.listed_eq (t := w) ?_
        rw [ManifestFile.runFrom_list, hm]
        rfl
      · rw [ManifestFile.runFrom_list, hlast]
        rfl

theorem sparse_repeats :
    (∃ s', runFrom (promote Shelf.store sparse [.new "b" "c"]) ⟨.empty, bareWorld.supply, 0⟩ =
        (.ok sparseReport, s') ∧
      Repeats Shelf.store sparse [.new "b" "c"] ⟨s'.memory, fun _ => default, 7⟩ sparseReport) ∧
    ∃ w', runFrom (promote (ManifestFile.store "m") sparse [.new "b" "c"]) bareWorld =
        (.ok sparseReport, w') ∧
      Repeats (ManifestFile.store "m") sparse [.new "b" "c"] w' sparseReport := by
  obtain ⟨hmemory, hfile⟩ := promote_idempotent sparse [.new "b" "c"]
  constructor
  · have hcreated : (runFrom (promote Shelf.store sparse [.new "b" "c"])
        ⟨.empty, bareWorld.supply, 0⟩).1 = .ok sparseReport :=
      eq_ok_of_toOption (by decide +kernel)
    have hrun := Prod.ext (y := (_, _)) hcreated rfl
    exact ⟨_, hrun, hmemory _ _ _ hrun _ rfl⟩
  · have hrun := Prod.ext (y := (_, _)) sparse_created rfl
    refine ⟨_, hrun, hfile _ _ _ _ ?_ hrun⟩
    intro m hm
    have hempty : bareWorld.manifest "m" = .ok .empty := rfl
    obtain rfl : Manifest.empty = m := by simpa [hempty] using hm
    exact sparse_readsBack

end Promotion

end Ferry
