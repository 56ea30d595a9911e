import Ferry.Proofs.Cleanup
import Ferry.Proofs.Promotion.Gained
import Ferry.Proofs.Promotion.Repetition

/-!
# Retiring a channel

A cleanup goes by the channels that objects declare, and a projection declares
what its source declares. So a cleanup removes the projections of deployables that
declare the channel. A projection of a deployable that only lives in one of the
channel's source namespaces stays where it is.
-/
namespace Ferry.Promotion

theorem retiresWith_of_storedAs {d p : Deployable} {channel : ObjectKey}
    (h : (project d channel).StoredAs p) : p.retiresWith channel = d.declares channel := by
  have hspace : p.space = channel.space :=
    (isProjectionInto_iff.mp (isProjectionInto_of_storedAs h)).2.1
  rw [Deployable.retiresWith, declares_of_storedAs h channel]
  simp [hspace]

theorem Course.created_stored {d : Deployable} {channels : List Channel} {s s' : Shelf}
    {report : PromotionReport} {made : List (ObjectKey × Deployable)}
    (h : Course Shelf.store d channels s (.ok report) made s') (hs : s.memory.Keyed)
    {channel key : ObjectKey} (hcreated : (channel, .created key) ∈ report.outcomes) :
    ∃ p, (project d channel).StoredAs p ∧ s'.memory.get? key = some p := by
  have hkept := h.kept Shelf.steady
  have hkeyed := h.keyed hs
  obtain ⟨p, hp, hkey⟩ := h.exists_made_of_created rfl hcreated
  exact ⟨p, hkept.stored _ hp, hkeyed.get?_iff.mpr ⟨hkept.mem_of_made hp, hkey⟩⟩

/-- A cleanup after a promotion into a channel succeeds. It deletes the new projection exactly if
the deployable declares the channel, and otherwise leaves it as it is. In no case does it leave a
projection into the channel of a deployable that declares it. -/
theorem cleanup_after_promote {seed : List Deployable} {supply : Nat → Allocation} {drawn : Nat}
    {d : Deployable} {c : Channel} {report : PromotionReport} {key : ObjectKey} {s : Shelf}
    (hrun : runFrom (promote Shelf.store d [c]) ⟨.ofDeployables seed, supply, drawn⟩ =
      (.ok report, s))
    (hcreated : (c.key, .created key) ∈ report.outcomes) :
    ∃ p deleted t, (project d c.key).StoredAs p ∧ s.memory.get? key = some p ∧
      runFrom (cleanup Shelf.store c.key) s = (.ok ⟨deleted⟩, t) ∧
      (key ∈ deleted ↔ d.declares c.key = true) ∧
      t.memory.get? key = (if d.declares c.key then none else some p) ∧
      ∀ d' q, d'.declares c.key = true → (project d' c.key).StoredAs q → q ∉ t.objects := by
  obtain ⟨made, hcourse⟩ := course_of_run hrun
  have hseed := Memory.keyed_ofDeployables seed
  have hkeyed : s.memory.Keyed := hcourse.keyed hseed
  obtain ⟨p, hstored, hget⟩ := hcourse.created_stored hseed hcreated
  obtain ⟨t, hcleanup, hleft⟩ := Shelf.runFrom_cleanup hkeyed c.key
  have hretires := retiresWith_of_storedAs hstored
  refine ⟨p, _, t, hstored, hget, hcleanup, ?_, ?_, ?_⟩
  · rw [Shelf.mem_retiring_iff hkeyed c.key hget, hretires]
  · rw [hleft, hget]
    cases hdeclares : d.declares c.key <;> simp [Option.filter, hretires, hdeclares]
  · intro d' q hdeclares hprojection hmem
    have hstays := ((Shelf.mem_left_iff hleft).mp hmem).2
    rw [retiresWith_of_storedAs hprojection, hdeclares] at hstays
    cases hstays

theorem declared_projection_cleaned_up :
    let channel := Channel.new "b" "c"
    ∃ s p deleted t, runFrom (promote Shelf.store declaring [channel]) (stocked [declaring]) =
        (.ok ⟨[(channel.key, .created ⟨"b", "r-1"⟩)]⟩, s) ∧
      (project declaring channel.key).StoredAs p ∧ s.memory.get? ⟨"b", "r-1"⟩ = some p ∧
      runFrom (cleanup Shelf.store channel.key) s = (.ok ⟨deleted⟩, t) ∧
      ⟨"b", "r-1"⟩ ∈ deleted ∧ t.memory.get? ⟨"b", "r-1"⟩ = none ∧
      ∀ d' q, d'.declares channel.key = true → (project d' channel.key).StoredAs q →
        q ∉ t.objects := by
  intro channel
  have hok : (runFrom (promote Shelf.store declaring [channel]) (stocked [declaring])).1 =
      .ok ⟨[(channel.key, .created ⟨"b", "r-1"⟩)]⟩ := eq_ok_of_toOption (by decide +kernel)
  have hrun := Prod.ext (y := (_, _)) hok rfl
  have hdeclares : declaring.declares channel.key = true := by decide
  obtain ⟨p, deleted, t, hstored, hget, hcleanup, hdeleted, hleft, hnone⟩ :=
    cleanup_after_promote hrun List.mem_cons_self
  rw [hdeclares] at hleft
  exact ⟨_, p, deleted, t, hrun, hstored, hget, hcleanup, hdeleted.mpr hdeclares, hleft, hnone⟩

def invited : Deployable := .new "a" "r"

def inviting : Channel := ((Channel.new "b" "c").withGate).withSourceSpace "a"

/-- The projection of a deployable that was invited stays when the channel is retired. -/
theorem invited_projection_outlives_cleanup :
    let (promoted, s) := runFrom (promote Shelf.store invited [inviting]) (stocked [invited])
    let (cleaned, t) := runFrom (cleanup Shelf.store inviting.key) s
    promoted.toOption = some ⟨[(inviting.key, .created ⟨"b", "r-1"⟩)]⟩ ∧
      cleaned.toOption = some ⟨[]⟩ ∧
      (t.memory.get? ⟨"b", "r-1"⟩).map (isProjectionInto invited.root inviting.key) =
        some true := by
  decide +kernel

end Ferry.Promotion
