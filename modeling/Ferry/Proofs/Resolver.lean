import Ferry.Proofs.Lookup

/-!
# The resolver as a scan

The tables that are built once over a snapshot answer as a scan of the snapshot from
its end would, for any objects in any order, also if several have one identity. A
family is described without the tables: its parent is the last object with the
identity that the deployable names, and under each text stands the last of the
deployable's children that names this text as its channel.
-/
namespace Ferry

def Deployable.IsProjectedFrom (d q : Deployable) : Prop :=
  ∃ source, d.annotation? Annotation.channelSource = some source ∧ source ≠ "" ∧
    q.identity = source

structure Deployable.IsChildOf (d : Deployable) (spaces : List String) (q : Deployable) :
    Prop where
  source : q.annotation? Annotation.channelSource = some d.identity
  generateName : q.metadata.generateName = some d.projectionNameStart
  space : q.space ∈ spaces

theorem Deployable.source?_eq_some_iff {d : Deployable} {source : String} :
    d.source? = some source ↔
      d.annotation? Annotation.channelSource = some source ∧ source ≠ "" := by
  simp [source?, Option.filter_eq_some_iff]

namespace Family

variable (snapshot : List Deployable) (d : Deployable) {spaces : List String}

theorem parent_ofIndex (hspaces : spaces ≠ []) :
    FindsLast d.IsProjectedFrom snapshot (ofIndex (.ofSnapshot snapshot) d spaces).parent := by
  have hempty : spaces.isEmpty = false := by simpa using hspaces
  have hparent : (ofIndex (.ofSnapshot snapshot) d spaces).parent =
      d.source?.bind (SnapshotIndex.ofSnapshot snapshot).get? := by
    simp [ofIndex, hempty]
  rw [hparent]
  cases hsource : d.source? with
  | none =>
    apply findsLast_none
    rintro q - ⟨source, hnamed, hne, -⟩
    have hsome := Deployable.source?_eq_some_iff.mpr ⟨hnamed, hne⟩
    rw [hsource] at hsome
    cases hsome
  | some source =>
    obtain ⟨hnamed, hne⟩ := Deployable.source?_eq_some_iff.mp hsource
    rw [Option.bind_some, SnapshotIndex.get?_ofSnapshot]
    apply findsLast_find?_reverse
    intro q _
    rw [decide_eq_true_iff]
    constructor
    · intro hidentity
      exact ⟨source, hnamed, hne, hidentity⟩
    · rintro ⟨source', hnamed', -, hidentity⟩
      rwa [Option.some.inj (hnamed.symm.trans hnamed')]

theorem children_ofIndex (spaces : List String) (text : String) :
    FindsLast (fun q => d.IsChildOf spaces q ∧ (q.annotation? Annotation.channel).getD "" = text)
      snapshot ((ofIndex (.ofSnapshot snapshot) d spaces).children.get? text) := by
  by_cases hspaces : spaces = []
  · subst hspaces
    apply findsLast_none
    rintro q - ⟨hchild, -⟩
    exact List.not_mem_nil hchild.space
  · rw [get?_children_ofIndex snapshot d hspaces]
    apply findsLast_find?_reverse
    intro q _
    simp only [isChild, Bool.and_eq_true, decide_eq_true_eq, List.contains_iff_mem]
    constructor
    · rintro ⟨⟨hsource, hstart, hspace⟩, htext⟩
      exact ⟨⟨hsource, hstart, hspace⟩, htext⟩
    · rintro ⟨⟨hsource, hstart, hspace⟩, htext⟩
      exact ⟨⟨hsource, hstart, hspace⟩, htext⟩

/-- A channel's own text is not empty, so a child without a channel is a child for none. -/
theorem childFor?_ofIndex_eq_none_iff (spaces : List String) (channel : ObjectKey) :
    (ofIndex (.ofSnapshot snapshot) d spaces).childFor? channel = none ↔
      ∀ q ∈ snapshot, ¬ (d.IsChildOf spaces q ∧
        q.annotation? Annotation.channel = some channel.text) := by
  rw [childFor?, (children_ofIndex snapshot d spaces channel.text).none_iff]
  have hnamed : ∀ q : Deployable, (q.annotation? Annotation.channel).getD "" = channel.text ↔
      q.annotation? Annotation.channel = some channel.text := by
    intro q
    cases q.annotation? Annotation.channel with
    | none => simpa using channel.text_ne_empty.symm
    | some text => simp
  simp only [hnamed]

/-- Every lookup in the index of a snapshot, and the family that is resolved through it, is a scan
of the snapshot, in which the last object that fits wins. -/
theorem resolved_by_scan (snapshot : List Deployable) :
    let index := SnapshotIndex.ofSnapshot snapshot
    (∀ identity, FindsLast (fun q => q.identity = identity) snapshot (index.get? identity)) ∧
    (∀ source, index.sourcedFrom source =
      snapshot.filter fun q => q.annotation? Annotation.channelSource = some source) ∧
    (∀ root channel,
      FindsLast
        (fun q => q.annotation? Annotation.channelSource = some root ∧ q.space = channel.space ∧
          q.annotation? Annotation.channel = some channel.text)
        snapshot (index.projectionOf? root channel)) ∧
    ∀ d, ofIndex index d [] = ⟨none, .empty⟩ ∧
      ∀ spaces,
        (spaces ≠ [] → FindsLast d.IsProjectedFrom snapshot (ofIndex index d spaces).parent) ∧
        (∀ text,
          FindsLast
            (fun q => d.IsChildOf spaces q ∧ (q.annotation? Annotation.channel).getD "" = text)
            snapshot ((ofIndex index d spaces).children.get? text)) ∧
        ∀ channel, (ofIndex index d spaces).childFor? channel = none ↔
          ∀ q ∈ snapshot, ¬ (d.IsChildOf spaces q ∧
            q.annotation? Annotation.channel = some channel.text) := by
  intro index
  refine ⟨?_, SnapshotIndex.sourcedFrom_ofSnapshot snapshot, ?_, ?_⟩
  · intro identity
    rw [SnapshotIndex.get?_ofSnapshot]
    exact findsLast_find?_reverse fun q _ => decide_eq_true_iff
  · intro root channel
    rw [SnapshotIndex.projectionOf?_ofSnapshot]
    exact findsLast_find?_reverse fun q _ => Promotion.isProjectionInto_iff
  · intro d
    refine ⟨rfl, fun spaces => ?_⟩
    exact ⟨parent_ofIndex snapshot d, children_ofIndex snapshot d spaces,
      childFor?_ofIndex_eq_none_iff snapshot d spaces⟩

def middle : Deployable :=
  Deployable.withAnnotation ((Deployable.new "a" "p").withGenerateName "r-")
    Annotation.channelSource "z/r"

/-- Two objects with the identity that `middle` names as its source, and three children of `middle`,
of which the last names no channel. -/
def repeating : List Deployable :=
  let child (name : String) : Deployable :=
    Deployable.withAnnotation ((Deployable.new "b" name).withGenerateName "r--")
      Annotation.channelSource "a/p"
  [.new "z" "r", { Deployable.new "z" "r" with kind := "Later" }, middle,
    Deployable.withAnnotation (child "x") Annotation.channel "b/c",
    Deployable.withAnnotation (child "y") Annotation.channel "b/c", child "w"]

theorem repeating_resolved :
    let family := ofIndex (.ofSnapshot repeating) middle ["b"]
    (∃ p, family.parent = some p ∧ p.kind = "Later" ∧
      IsLast middle.IsProjectedFrom repeating p) ∧
    (∃ p, family.children.get? "b/c" = some p ∧ p.name = "y" ∧
      IsLast
        (fun q => middle.IsChildOf ["b"] q ∧ (q.annotation? Annotation.channel).getD "" = "b/c")
        repeating p) ∧
    family.childFor? ⟨"b", "d"⟩ = none ∧
    ∀ q ∈ repeating, ¬ (middle.IsChildOf ["b"] q ∧
      q.annotation? Annotation.channel = some "b/d") := by
  intro family
  obtain ⟨-, -, -, hfamily⟩ := resolved_by_scan repeating
  obtain ⟨hparent, hchildren, hchild⟩ := (hfamily middle).2 ["b"]
  have hspaces : ["b"] ≠ [] := List.cons_ne_nil _ _
  refine ⟨?_, ?_, ?_⟩
  · have hfound : family.parent.map Deployable.kind = some "Later" := by decide +kernel
    obtain ⟨p, hp, hkind⟩ := Option.map_eq_some_iff.mp hfound
    exact ⟨p, hp, hkind, ((hparent hspaces).some_iff p).mp hp⟩
  · have hfound : (family.children.get? "b/c").map Deployable.name = some "y" := by decide +kernel
    obtain ⟨p, hp, hname⟩ := Option.map_eq_some_iff.mp hfound
    exact ⟨p, hp, hname, ((hchildren "b/c").some_iff p).mp hp⟩
  · have hnone : family.childFor? ⟨"b", "d"⟩ = none := by decide +kernel
    exact ⟨hnone, (hchild ⟨"b", "d"⟩).mp hnone⟩

end Family

end Ferry
