import Ferry.Proofs.History
import Ferry.Proofs.Promotion.Repetition

/-!
# Provenance of projections

In every state that a store gets into from objects without a source, an object
that names a source tells the truth about it: the source is a root that was stored
at some time, and the channel is the one that the object was projected into. This
goes on through projections of projections, whose source was an object with a
provenance of its own, and outlives the deletion of what lies between.
-/
namespace Ferry

/-- What an object that names a source tells of the objects that were stored at some time. -/
structure Provenance (stored : Deployable → Prop) (p : Deployable) : Prop where
  /-- The named source is the root of the chain, and never a projection on the way. -/
  root : ∃ r, stored r ∧ r.annotation? Annotation.channelSource = none ∧
    p.annotation? Annotation.channelSource = some r.identity
  /-- The object was projected from another one into the channel that it names. -/
  origin : ∃ source channel, stored source ∧ (project source channel).StoredAs p ∧
    p.annotation? Annotation.channel = some channel.text ∧ p.space = channel.space ∧
      p.metadata.owners = [source.ownerReference]
  generated : p.annotation? Annotation.isGenerated = some "true"
  notLocal : p.annotation? Annotation.isLocal = some "false"
  named : ∃ start ending, p.metadata.generateName = some (start ++ "-") ∧
    p.name = start ++ "-" ++ ending
  unscheduled : p.spec.placement = none ∧ p.spec.overrides = [] ∧ p.spec.dependencies = []

namespace Provenance

variable {stored stored' : Deployable → Prop} {d p : Deployable}

theorem mono (h : Provenance stored p) (hstored : ∀ q, stored q → stored' q) :
    Provenance stored' p where
  root := by
    obtain ⟨r, hr, hroot⟩ := h.root
    exact ⟨r, hstored r hr, hroot⟩
  origin := by
    obtain ⟨source, channel, hsource, horigin⟩ := h.origin
    exact ⟨source, channel, hstored source hsource, horigin⟩
  generated := h.generated
  notLocal := h.notLocal
  named := h.named
  unscheduled := h.unscheduled

/-- The root that a stored object hands on to its projections was stored without a source. -/
theorem exists_root (hd : stored d)
    (htraced : d.annotation? Annotation.channelSource ≠ none → Provenance stored d) :
    ∃ r, stored r ∧ r.annotation? Annotation.channelSource = none ∧ d.root = r.identity := by
  cases hsource : d.annotation? Annotation.channelSource with
  | none =>
    refine ⟨d, hd, hsource, ?_⟩
    simp [Deployable.root, Deployable.source?, hsource]
  | some source =>
    obtain ⟨r, hr, hnone, hroot⟩ := (htraced (by simp [hsource])).root
    refine ⟨r, hr, hnone, ?_⟩
    have hidentity : r.identity ≠ "" := r.key.text_ne_empty
    simp [Deployable.root, Deployable.source?, hroot, Option.filter, hidentity]

theorem of_create {channel : ObjectKey} (hd : stored d)
    (htraced : d.annotation? Annotation.channelSource ≠ none → Provenance stored d) {s t : Shelf}
    (hcreate : runFrom (Shelf.store.create (project d channel)) s = (.ok p, t)) :
    Provenance stored p := by
  have hstored := (Shelf.create_ok hcreate).1
  obtain ⟨r, hr, hnone, hroot⟩ := exists_root hd htraced
  obtain ⟨start, ending, hstart, hname⟩ := Shelf.name_of_create hcreate rfl
  rw [project_generateName?, Option.some.injEq] at hstart
  subst hstart
  obtain ⟨name, uid, createdAt, rfl⟩ := id hstored
  exact {
    root := ⟨r, hr, hnone, by simp [hroot]⟩
    origin := ⟨d, channel, hd, hstored, by simp, by simp, rfl⟩
    generated := by simp
    notLocal := by simp
    named := ⟨_, ending, rfl, hname⟩
    unscheduled := ⟨rfl, rfl, rfl⟩ }

end Provenance

def Traced (stored : Deployable → Prop) (objects : List Deployable) : Prop :=
  ∀ p ∈ objects, p.annotation? Annotation.channelSource ≠ none → Provenance stored p

theorem Operation.traced_after {op : Operation} {s : Shelf} {stored : Deployable → Prop}
    (hop : op.Permitted s) (hstored : ∀ q ∈ s.objects, stored q) (h : Traced stored s.objects) :
    Traced stored (op.after s).objects := by
  intro p hp hsource
  rcases op.mem_after hp with hold | ⟨d, hoffers, t, u, hcreate⟩
  · exact h p hold hsource
  · cases op with
    | create d' =>
      -- An object from outside names no source, and the store adds none.
      obtain rfl : d = d' := hoffers
      obtain ⟨name, uid, createdAt, rfl⟩ := (Shelf.create_ok hcreate).1
      exact absurd hop hsource
    | promote d' channels =>
      obtain ⟨c, _, rfl⟩ := hoffers
      exact .of_create (hstored d' hop) (h d' hop) hcreate
    | project d' channel =>
      obtain rfl : d = Ferry.project d' channel := hoffers
      exact .of_create (hstored d' hop) (h d' hop) hcreate
    | cleanup channel => exact hoffers.elim
    | delete key => exact hoffers.elim

/-- Through any history of a store whose objects named no source at first, each object that names
one has a provenance among the objects that were stored at some time. -/
theorem History.provenance {first s : Shelf} {earlier : List Shelf}
    (hfirst : ∀ q ∈ first.objects, q.annotation? Annotation.channelSource = none)
    (h : History first (s :: earlier)) :
    ∀ p ∈ s.objects, p.annotation? Annotation.channelSource ≠ none →
      Provenance (fun q => ∃ t ∈ s :: earlier, q ∈ t.objects) p := by
  generalize hstates : s :: earlier = states at h
  induction h generalizing s earlier with
  | start =>
    obtain ⟨rfl, rfl⟩ := List.cons.inj hstates
    intro p hp hsource
    exact absurd (hfirst p hp) hsource
  | @step s' earlier' op hop hist ih =>
    obtain ⟨rfl, rfl⟩ := List.cons.inj hstates
    have hbefore : Traced (fun q => ∃ t ∈ s' :: earlier', q ∈ t.objects) s'.objects := ih rfl
    have hafter := op.traced_after hop (fun q hq => ⟨s', List.mem_cons_self, hq⟩) hbefore
    intro p hp hsource
    refine (hafter p hp hsource).mono ?_
    rintro q ⟨t, ht, hq⟩
    exact ⟨t, List.mem_cons_of_mem _ ht, hq⟩

/-- The projection of a projection keeps its provenance when the latter is deleted. -/
theorem provenance_outlives_parent :
    let first := Promotion.stocked [Promotion.declaring]
    let parent := (project Promotion.declaring ⟨"b", "c"⟩).completed "r-1" "u" default
    let child := (project parent ⟨"e", "f"⟩).completed "r--1" "u" default
    let promoted := (Operation.promote Promotion.declaring [.new "b" "c"]).after first
    let projected := (Operation.project parent ⟨"e", "f"⟩).after promoted
    let s := (Operation.delete parent.key).after projected
    parent ∉ s.objects ∧ child ∈ s.objects ∧
      Provenance (fun q => ∃ t ∈ [s, projected, promoted, first], q ∈ t.objects) child := by
  intro first parent child promoted projected s
  have hfirst : ∀ q ∈ first.objects, q.annotation? Annotation.channelSource = none := by
    decide +kernel
  have hpromote : Promotion.declaring ∈ first.objects := by decide +kernel
  have hproject : parent ∈ promoted.objects := by decide +kernel
  have hchild : child ∈ s.objects := by decide +kernel
  have hsource : child.annotation? Annotation.channelSource ≠ none := by decide +kernel
  have hhistory : History first [s, projected, promoted, first] :=
    .step (.delete parent.key) trivial (.step (.project parent ⟨"e", "f"⟩) hproject
      (.step (.promote Promotion.declaring [.new "b" "c"]) hpromote .start))
  exact ⟨by decide +kernel, hchild, hhistory.provenance hfirst child hchild hsource⟩

end Ferry
