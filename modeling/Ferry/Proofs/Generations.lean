import Ferry.Proofs.Chains
import Ferry.Proofs.Resolver

/-!
# Generations of projections

The projections of a root and the projections of these all name the same source. Only
the beginnings of their generated names tell them apart: every generation has one dash
more than the one before it. So the family of a root has just the projections of the
root itself, while the index finds those of every generation.
-/
namespace Ferry

open Promotion

/-! ### Descendants of a root -/

namespace Deployable

/-- An object of some generation after a root, with the channel that it was projected into. A
projection may get any name, and a uid and a time, before it is projected again. -/
inductive Descendant (r : Deployable) : (generation : Nat) → ObjectKey → Deployable → Prop
  | child {channel : ObjectKey} {p : Deployable} :
      p.unstored = project r channel → Descendant r 1 channel p
  | next {n : Nat} {channel channel' : ObjectKey} {q p : Deployable} : Descendant r n channel q →
      p.unstored = project q channel' → Descendant r (n + 1) channel' p

namespace Descendant

variable {r p : Deployable} {n : Nat} {channel : ObjectKey}

/-- A descendant is a hop on a chain from the root, as many hops away as its generation tells. -/
theorem exists_isHop (h : Descendant r n channel p) :
    ∃ hops previous, n = hops + 1 ∧ IsHop r hops previous channel p := by
  induction h with
  | child hp => exact ⟨0, r, rfl, (Relays.refl r).isHop hp⟩
  | next _ hp ih =>
    obtain ⟨hops, _, rfl, hhop⟩ := ih
    exact ⟨hops + 1, _, rfl, hhop.relays.isHop hp⟩

theorem space_eq (h : Descendant r n channel p) : p.space = channel.space := by
  obtain ⟨_, _, _, hhop⟩ := h.exists_isHop
  exact hhop.space

theorem annotation?_channel (h : Descendant r n channel p) :
    p.annotation? Annotation.channel = some channel.text := by
  obtain ⟨_, _, _, hhop⟩ := h.exists_isHop
  exact hhop.channel

theorem annotation?_channelSource (hr : r.source? = none) (h : Descendant r n channel p) :
    p.annotation? Annotation.channelSource = some r.identity := by
  obtain ⟨_, _, _, hhop⟩ := h.exists_isHop
  rw [hhop.source, root, hr, Option.getD_none]

/-- The first generation has the beginning of names that the root gives, and each later one has a
dash more than the one before. So only the first generation has the former. -/
theorem generateName_eq_iff (h : Descendant r n channel p) :
    p.metadata.generateName = some r.projectionNameStart ↔ n = 1 := by
  obtain ⟨hops, _, rfl, hhop⟩ := h.exists_isHop
  rw [hhop.generateName, Option.some.injEq, projectionNameStart_eq]
  constructor
  · intro hsame
    have hlength := congrArg String.length hsame
    have hdash : "-".length = 1 := rfl
    simp [dashes, hdash] at hlength
    omega
  · intro hone
    obtain rfl : hops = 0 := by omega
    simp [dashes]

end Descendant

/-! ### Lookups -/

section Lookups

variable {r p : Deployable} {snapshot : List Deployable}

/-- What names a root as its source, among these objects, is a descendant of it. -/
def Lineage (r : Deployable) (snapshot : List Deployable) : Prop :=
  ∀ p ∈ snapshot, (∃ n channel, Descendant r n channel p) ∨
    p.annotation? Annotation.channelSource ≠ some r.identity

theorem Lineage.exists_descendant (h : Lineage r snapshot) (hp : p ∈ snapshot)
    (hsource : p.annotation? Annotation.channelSource = some r.identity) :
    ∃ n channel, Descendant r n channel p := by
  rcases h p hp with hdescendant | hother
  · exact hdescendant
  · exact absurd hsource hother

/-- An object of the first generation in one of the namespaces, for a channel with this text. -/
def IsChildIn (r : Deployable) (spaces : List String) (text : String) (p : Deployable) : Prop :=
  ∃ channel : ObjectKey, channel.text = text ∧ channel.space ∈ spaces ∧ Descendant r 1 channel p

/-- What the family files under a text is of the first generation, and all of that is filed. -/
theorem Lineage.isChild_iff (h : Lineage r snapshot) (hr : r.source? = none) (hp : p ∈ snapshot)
    (spaces : List String) (text : String) :
    r.IsChildOf spaces p ∧ (p.annotation? Annotation.channel).getD "" = text ↔
      IsChildIn r spaces text p := by
  constructor
  · rintro ⟨⟨hsource, hstart, hspace⟩, htext⟩
    obtain ⟨n, channel, hdescendant⟩ := h.exists_descendant hp hsource
    obtain rfl := hdescendant.generateName_eq_iff.mp hstart
    rw [hdescendant.annotation?_channel, Option.getD_some] at htext
    rw [hdescendant.space_eq] at hspace
    exact ⟨channel, htext, hspace, hdescendant⟩
  · rintro ⟨channel, htext, hspace, hchild⟩
    rw [hchild.annotation?_channel, Option.getD_some]
    refine ⟨⟨hchild.annotation?_channelSource hr, hchild.generateName_eq_iff.mpr rfl, ?_⟩, htext⟩
    rwa [hchild.space_eq]

theorem Lineage.isProjectionInto_iff (h : Lineage r snapshot) (hr : r.source? = none)
    (hp : p ∈ snapshot) (channel : ObjectKey) :
    isProjectionInto r.identity channel p = true ↔ ∃ n, Descendant r n channel p := by
  rw [Promotion.isProjectionInto_iff]
  constructor
  · rintro ⟨hsource, hspace, htext⟩
    obtain ⟨n, channel', hdescendant⟩ := h.exists_descendant hp hsource
    have hspace' : channel'.space = channel.space := hdescendant.space_eq.symm.trans hspace
    rw [hdescendant.annotation?_channel, Option.some.injEq] at htext
    rw [← ObjectKey.ext_of_text hspace' htext]
    exact ⟨n, hdescendant⟩
  · rintro ⟨n, hdescendant⟩
    exact ⟨hdescendant.annotation?_channelSource hr, hdescendant.space_eq,
      hdescendant.annotation?_channel⟩

theorem Lineage.findsLast_children (h : Lineage r snapshot) (hr : r.source? = none)
    (spaces : List String) (text : String) :
    FindsLast (IsChildIn r spaces text) snapshot
      ((Family.ofSnapshot snapshot r spaces).children.get? text) :=
  (Family.children_ofIndex snapshot r spaces text).congr fun _ hq => h.isChild_iff hr hq spaces text

end Lookups

/-- The family of a root and the index agree on its generations. The family files, under the text
of a channel, the last object of the first generation in it whose namespace is among those asked
for, and no object of a later generation. The index finds the last one of all generations. -/
theorem lookups_by_generation {r : Deployable} {snapshot : List Deployable}
    (hr : r.source? = none) (h : Lineage r snapshot) :
    (∀ spaces text,
      (∀ p, (Family.ofSnapshot snapshot r spaces).children.get? text = some p ↔
        IsLast (IsChildIn r spaces text) snapshot p) ∧
      ((Family.ofSnapshot snapshot r spaces).children.get? text = none ↔
        ∀ q ∈ snapshot, ¬ IsChildIn r spaces text q) ∧
      ∀ p n channel, (Family.ofSnapshot snapshot r spaces).children.get? text = some p →
        Descendant r n channel p → n = 1) ∧
    ∀ channel,
      (∀ p, (SnapshotIndex.ofSnapshot snapshot).projectionOf? r.identity channel = some p ↔
        IsLast (fun q => ∃ n, Descendant r n channel q) snapshot p) ∧
      ((SnapshotIndex.ofSnapshot snapshot).projectionOf? r.identity channel = none ↔
        ∀ q ∈ snapshot, ∀ n, ¬ Descendant r n channel q) := by
  constructor
  · intro spaces text
    obtain ⟨hsome, hnone⟩ := h.findsLast_children hr spaces text
    refine ⟨hsome, hnone, ?_⟩
    intro p n channel hp hdescendant
    obtain ⟨_, _, _, ⟨_, _, _, hchild⟩, _⟩ := (hsome p).mp hp
    exact hdescendant.generateName_eq_iff.mp (hchild.generateName_eq_iff.mpr rfl)
  · intro channel
    have hfits := fun q hq => h.isProjectionInto_iff hr (p := q) hq channel
    rw [SnapshotIndex.projectionOf?_ofSnapshot]
    refine ⟨fun p => find?_reverse_eq_some_iff hfits, ?_⟩
    rw [find?_reverse_eq_none_iff hfits]
    simp only [not_exists]

def dashed : Deployable := .new "ns" "R-"

def generations : List Deployable :=
  let first := (project dashed ⟨"a", "C"⟩).completed "x" "u1" default
  let second := (project first ⟨"a", "C"⟩).completed "y" "u2" default
  let again := (project dashed ⟨"a", "C"⟩).completed "z" "u3" default
  [again, first, dashed, second]

theorem generations_looked_up :
    dashed.source? = none ∧ Lineage dashed generations ∧
      (∃ p, (Family.ofSnapshot generations dashed ["a"]).children.get? "a/C" = some p ∧
        p.name = "x" ∧ IsLast (IsChildIn dashed ["a"] "a/C") generations p) ∧
      ∃ p, (SnapshotIndex.ofSnapshot generations).projectionOf? "ns/R-" ⟨"a", "C"⟩ = some p ∧
        p.name = "y" ∧ IsLast (fun q => ∃ n, Descendant dashed n ⟨"a", "C"⟩ q) generations p := by
  have hr : dashed.source? = none := rfl
  have hlineage : Lineage dashed generations := by
    have hchild (name uid : String) : Descendant dashed 1 ⟨"a", "C"⟩
        ((project dashed ⟨"a", "C"⟩).completed name uid default) := .child rfl
    intro p hp
    simp only [generations, List.mem_cons, List.not_mem_nil, or_false] at hp
    rcases hp with rfl | rfl | rfl | rfl
    · exact .inl ⟨1, _, hchild "z" "u3"⟩
    · exact .inl ⟨1, _, hchild "x" "u1"⟩
    · exact .inr (by decide)
    · exact .inl ⟨2, ⟨"a", "C"⟩, .next (hchild "x" "u1") rfl⟩
  obtain ⟨hfamily, hindex⟩ := lookups_by_generation hr hlineage
  refine ⟨hr, hlineage, ?_, ?_⟩
  · have hfound : ((Family.ofSnapshot generations dashed ["a"]).children.get? "a/C").map name =
        some "x" := by decide +kernel
    obtain ⟨p, hp, hname⟩ := Option.map_eq_some_iff.mp hfound
    exact ⟨p, hp, hname, ((hfamily ["a"] "a/C").1 p).mp hp⟩
  · have hfound : ((SnapshotIndex.ofSnapshot generations).projectionOf? "ns/R-" ⟨"a", "C"⟩).map
        name = some "y" := by decide +kernel
    obtain ⟨p, hp, hname⟩ := Option.map_eq_some_iff.mp hfound
    exact ⟨p, hp, hname, ((hindex ⟨"a", "C"⟩).1 p).mp hp⟩

end Deployable

end Ferry
