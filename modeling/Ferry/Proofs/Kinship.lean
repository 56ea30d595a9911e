import Mathlib.Data.List.Chain
import Ferry.Proofs.Chains
import Ferry.Proofs.SnapshotOrder

/-!
# Parents and children

Parents are looked up by identity, and children by source, name and namespace. With
distinct identities the two agree: a child has the object as its parent in whose family
it is, and an object is in the family of its parent if its generated name begins as the
parent's projections do. Sources may name each other in a circle. Children may not, as
every child has one dash more than its parent.
-/
namespace Ferry

namespace Family

variable {snapshot : List Deployable} {p c d : Deployable} {spaces others : List String}

/-! ### Parents of children -/

theorem parent_eq_some_iff (hdistinct : (snapshot.map Deployable.identity).Nodup)
    (hp : p ∈ snapshot) (hothers : others ≠ []) :
    (ofSnapshot snapshot c others).parent = some p ↔
      c.annotation? Annotation.channelSource = some p.identity := by
  have hunique : ∀ q ∈ snapshot, ∀ q' ∈ snapshot, c.IsProjectedFrom q → c.IsProjectedFrom q' →
      q = q' := fun q hq q' hq' h h' =>
    List.inj_on_of_nodup_map hdistinct hq hq' (h.identity_eq h')
  apply ((parent_ofIndex snapshot c hothers).some_iff_mem hunique p).trans
  constructor
  · rintro ⟨-, source, hnamed, -, rfl⟩
    exact hnamed
  · intro hnamed
    exact ⟨hp, p.identity, hnamed, p.key.text_ne_empty, rfl⟩

theorem ne_nil_of_parent (h : (ofSnapshot snapshot c others).parent = some p) : others ≠ [] := by
  rintro rfl
  rw [ofSnapshot_nil] at h
  cases h

/-- Whether the parent that is resolved for `c` is `p`, and the rest of `c` is as it is in children
of `p` that are filed under this text. -/
structure ResolvesUnder (snapshot : List Deployable) (p : Deployable) (spaces : List String)
    (text : String) (c : Deployable) : Prop where
  parent : ∃ others, (ofSnapshot snapshot c others).parent = some p
  generateName : c.metadata.generateName = some p.projectionNameStart
  space : c.space ∈ spaces
  filedUnder : c.filedUnder = text

theorem resolvesUnder_iff (hdistinct : (snapshot.map Deployable.identity).Nodup)
    (hp : p ∈ snapshot) {text : String} :
    ResolvesUnder snapshot p spaces text c ↔ p.IsChildOf spaces c ∧ c.filedUnder = text := by
  constructor
  · rintro ⟨⟨others, hparent⟩, hstart, hspace, htext⟩
    have hnamed := (parent_eq_some_iff hdistinct hp (ne_nil_of_parent hparent)).mp hparent
    exact ⟨⟨hnamed, hstart, hspace⟩, htext⟩
  · rintro ⟨⟨hnamed, hstart, hspace⟩, htext⟩
    have hsome : [""] ≠ [] := List.cons_ne_nil _ _
    exact ⟨⟨[""], (parent_eq_some_iff hdistinct hp hsome).mpr hnamed⟩, hstart, hspace, htext⟩

theorem findsLast_resolvesUnder (hdistinct : (snapshot.map Deployable.identity).Nodup)
    (hp : p ∈ snapshot) (spaces : List String) (text : String) :
    FindsLast (ResolvesUnder snapshot p spaces text) snapshot
      ((ofSnapshot snapshot p spaces).children.get? text) :=
  (children_ofSnapshot snapshot p spaces text).congr fun _ _ =>
    (resolvesUnder_iff hdistinct hp).symm

theorem isChildOf_of_mem_children (hc : c ∈ (ofSnapshot snapshot d spaces).children.values) :
    c ∈ snapshot ∧ d.IsChildOf spaces c := by
  obtain ⟨text, hget⟩ := SortedMap.mem_values_iff.mp hc
  have hlast := ((children_ofSnapshot snapshot d spaces text).some_iff c).mp hget
  exact ⟨hlast.mem, hlast.has.1⟩

/-- With distinct identities, every child of `p` has the parent `p`. And an object whose parent is
`p`, in one of the namespaces and with the beginning of names that `p` gives, is the child of `p`
under its text, unless a later object of that kind takes its place. -/
theorem children_inverse_parent (hdistinct : (snapshot.map Deployable.identity).Nodup)
    (hp : p ∈ snapshot) (spaces : List String) :
    (∀ c ∈ (ofSnapshot snapshot p spaces).children.values, ∀ others ≠ [],
      (ofSnapshot snapshot c others).parent = some p) ∧
    ∀ front c back, snapshot = front ++ c :: back → ∀ others,
      (ofSnapshot snapshot c others).parent = some p →
      c.metadata.generateName = some p.projectionNameStart → c.space ∈ spaces →
        ∃ entry ∈ c :: back,
          (ofSnapshot snapshot p spaces).children.get? c.filedUnder = some entry ∧
          (entry = c ↔ ∀ later ∈ back,
            ¬ ResolvesUnder snapshot p spaces c.filedUnder later) := by
  constructor
  · intro c hc others hothers
    obtain ⟨-, hchild⟩ := isChildOf_of_mem_children hc
    exact (parent_eq_some_iff hdistinct hp hothers).mpr hchild.source
  · intro front c back hsplit others hparent hstart hspace
    have hself : ResolvesUnder snapshot p spaces c.filedUnder c :=
      ⟨⟨others, hparent⟩, hstart, hspace, rfl⟩
    obtain ⟨entry, hlast⟩ := exists_isLast List.mem_cons_self hself
    have hget : (ofSnapshot snapshot p spaces).children.get? c.filedUnder = some entry := by
      apply ((findsLast_resolvesUnder hdistinct hp spaces c.filedUnder).some_iff entry).mpr
      have hwhole := hlast.append_left front
      rwa [← hsplit] at hwhole
    refine ⟨entry, hlast.mem, hget, ?_⟩
    rcases isLast_cons_iff.mp hlast with hlater | ⟨rfl, -, hnone⟩
    · constructor
      · -- An entry that stands after `c` is another object, as identities are distinct.
        rintro rfl
        rw [hsplit] at hdistinct
        have hnodup := (List.Nodup.of_map _ hdistinct).of_append_right
        exact absurd hlater.mem (List.nodup_cons.mp hnodup).1
      · intro hnone
        exact absurd hlater.has (hnone entry hlater.mem)
    · exact iff_of_true rfl hnone

def siblings : List Deployable := [bareChild "x", plainRoot, bareChild "y"]

/-- The later child takes the place of the earlier one. -/
theorem siblings_resolved :
    (siblings.map Deployable.identity).Nodup ∧ plainRoot ∈ siblings ∧
    (bareChild "y" ∈ (ofSnapshot siblings plainRoot ["b"]).children.values ∧
      (ofSnapshot siblings (bareChild "y") ["z"]).parent = some plainRoot) ∧
    (ofSnapshot siblings (bareChild "x") ["z"]).parent = some plainRoot ∧
    ∃ entry ∈ siblings, (ofSnapshot siblings plainRoot ["b"]).children.get? "" = some entry ∧
      entry ≠ bareChild "x" := by
  have hdistinct : (siblings.map Deployable.identity).Nodup := by decide +kernel
  have hroot : plainRoot ∈ siblings := by decide +kernel
  have hchild : bareChild "y" ∈ (ofSnapshot siblings plainRoot ["b"]).children.values := by
    decide +kernel
  have hparent : (ofSnapshot siblings (bareChild "x") ["z"]).parent = some plainRoot := by
    decide +kernel
  obtain ⟨hdown, hup⟩ := children_inverse_parent hdistinct hroot ["b"]
  obtain ⟨entry, hmem, hget, hentry⟩ :=
    hup [] (bareChild "x") [plainRoot, bareChild "y"] rfl ["z"] hparent rfl List.mem_cons_self
  refine ⟨hdistinct, hroot, ⟨hchild, ?_⟩, hparent, entry, hmem, hget, ?_⟩
  · exact hdown _ hchild ["z"] (List.cons_ne_nil _ _)
  · intro hfirst
    apply hentry.mp hfirst (bareChild "y") (by simp)
    apply (resolvesUnder_iff hdistinct hroot).mpr
    decide +kernel

/-! ### Children of children -/

def HasChild (snapshot : List Deployable) (d c : Deployable) : Prop :=
  ∃ spaces, c ∈ (ofSnapshot snapshot d spaces).children.values

theorem HasChild.mem (h : HasChild snapshot d c) : c ∈ snapshot := by
  obtain ⟨_, hc⟩ := h
  exact (isChildOf_of_mem_children hc).1

/-- A child's name begins as that of its parent does, with one dash more. -/
theorem HasChild.nameBase_eq (h : HasChild snapshot d c) : c.nameBase = d.nameBase ++ "-" := by
  obtain ⟨_, hc⟩ := h
  obtain ⟨-, hchild⟩ := isChildOf_of_mem_children hc
  apply Deployable.nameBase_of_generateName hchild.generateName
  rw [Deployable.projectionNameStart_eq]
  simp

theorem HasChild.length_lt (h : HasChild snapshot d c) :
    d.nameBase.length < c.nameBase.length := by
  have hdash : "-".length = 1 := rfl
  rw [h.nameBase_eq, String.length_append, hdash]
  exact Nat.lt_succ_self _

theorem nodup_of_isChain {ds : List Deployable} (h : ds.IsChain (HasChild snapshot)) :
    ds.Nodup := by
  have : Trans (fun a b : Deployable => a.nameBase.length < b.nameBase.length)
      (fun a b : Deployable => a.nameBase.length < b.nameBase.length)
      (fun a b : Deployable => a.nameBase.length < b.nameBase.length) := ⟨Nat.lt_trans⟩
  have hlonger := List.isChain_iff_pairwise.mp (h.imp fun _ _ hchild => hchild.length_lt)
  apply hlonger.imp
  rintro a b hlt rfl
  exact Nat.lt_irrefl _ hlt

theorem mem_of_isChain {ds : List Deployable} (h : (d :: ds).IsChain (HasChild snapshot)) :
    ∀ c ∈ ds, c ∈ snapshot := by
  induction ds generalizing d with
  | nil => exact fun c hc => absurd hc List.not_mem_nil
  | cons c ds ih =>
    obtain ⟨hchild, hrest⟩ := List.isChain_cons_cons.mp h
    exact List.forall_mem_cons.mpr ⟨hchild.mem, ih hrest⟩

/-- Where the ways down are not longer than some number, every way down ends. -/
theorem acc_of_isChain_bounded {n : Nat}
    (h : ∀ ds : List Deployable, (d :: ds).IsChain (HasChild snapshot) → ds.length ≤ n) :
    Acc (fun c d => HasChild snapshot d c) d := by
  induction n generalizing d with
  | zero =>
    apply Acc.intro
    intro c hchild
    have hlength := h [c] (List.isChain_cons_cons.mpr ⟨hchild, List.isChain_singleton c⟩)
    simp at hlength
  | succ n ih =>
    apply Acc.intro
    intro c hchild
    apply ih
    intro ds hchain
    exact Nat.le_of_succ_le_succ (h (c :: ds) (List.isChain_cons_cons.mpr ⟨hchild, hchain⟩))

/-- No way down from parents to children meets an object twice, in any snapshot. So it has no more
steps than the snapshot has objects, nothing is its own child, and walking down always ends. -/
theorem descent_acyclic (snapshot : List Deployable) :
    (∀ d ds, (d :: ds).IsChain (HasChild snapshot) →
      (d :: ds).Nodup ∧ ds.length ≤ snapshot.length) ∧
    (∀ d, ¬ HasChild snapshot d d) ∧
    WellFounded fun c d => HasChild snapshot d c := by
  have hbound : ∀ d ds, (d :: ds).IsChain (HasChild snapshot) →
      (d :: ds).Nodup ∧ ds.length ≤ snapshot.length := by
    intro d ds hchain
    have hnodup := nodup_of_isChain hchain
    refine ⟨hnodup, ?_⟩
    apply (List.nodup_cons.mp hnodup).2.length_le_of_subset
    exact mem_of_isChain hchain
  refine ⟨hbound, ?_, ?_⟩
  · intro d hself
    exact Nat.lt_irrefl _ hself.length_lt
  · apply WellFounded.intro
    intro d
    exact acc_of_isChain_bounded fun ds hchain => (hbound d ds hchain).2

def sourced (name start source : String) : Deployable :=
  Deployable.withAnnotation ((Deployable.new "b" name).withGenerateName start)
    Annotation.channelSource source

def circle : List Deployable := [sourced "x" "y-" "b/y", sourced "y" "y--" "b/x"]

/-- Each of the two is the parent of the other, but only one is a child of the other. The way down
begins outside of the snapshot, at an object with the identity of the one where it ends. -/
theorem circle_descended :
    let x := sourced "x" "y-" "b/y"
    let y := sourced "y" "y--" "b/x"
    let way := [.new "b" "y", x, y]
    (ofSnapshot circle x ["b"]).parent = some y ∧ (ofSnapshot circle y ["b"]).parent = some x ∧
    ¬ (way.map Deployable.identity).Nodup ∧ way.IsChain (HasChild circle) ∧
    way.Nodup ∧ 2 ≤ circle.length := by
  intro x y way
  have hfirst : HasChild circle (.new "b" "y") x := ⟨["b"], by decide +kernel⟩
  have hsecond : HasChild circle x y := ⟨["b"], by decide +kernel⟩
  have hchain : way.IsChain (HasChild circle) := by
    apply List.isChain_cons_cons.mpr
    exact ⟨hfirst, List.isChain_cons_cons.mpr ⟨hsecond, List.isChain_singleton y⟩⟩
  obtain ⟨hnodup, hlength⟩ := (descent_acyclic circle).1 _ _ hchain
  exact ⟨by decide +kernel, by decide +kernel, by decide +kernel, hchain, hnodup, hlength⟩

end Family

end Ferry
