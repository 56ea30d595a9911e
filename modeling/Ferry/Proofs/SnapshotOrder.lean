import Mathlib.Data.List.Nodup
import Ferry.Proofs.Resolver
import Ferry.Proofs.Store.ManifestFile
import Ferry.Proofs.Store.Memory

/-!
# Families in any order

A snapshot comes in the order of its store, by key or as the objects stand in a file.
If identities are distinct, a parent does not depend on that order, and the children
do only where two of them are filed under one text. Distinct channel annotations do not
rule this out: a child without one is filed where a child with an empty one is.
-/
namespace Ferry

namespace Deployable

/-- The text that families file a child under. -/
def filedUnder (q : Deployable) : String := (q.annotation? Annotation.channel).getD ""

/-- No two objects of a snapshot are children of `d` that its family files under one text. -/
def FiledApart (d : Deployable) (spaces : List String) (snapshot : List Deployable) : Prop :=
  ∀ p ∈ snapshot, ∀ q ∈ snapshot, d.IsChildOf spaces p → d.IsChildOf spaces q →
    p.filedUnder = q.filedUnder → p = q

instance (d : Deployable) (spaces : List String) (q : Deployable) :
    Decidable (d.IsChildOf spaces q) :=
  decidable_of_iff (q.annotation? Annotation.channelSource = some d.identity ∧
      q.metadata.generateName = some d.projectionNameStart ∧ q.space ∈ spaces)
    ⟨fun ⟨hsource, hstart, hspace⟩ => ⟨hsource, hstart, hspace⟩,
      fun ⟨hsource, hstart, hspace⟩ => ⟨hsource, hstart, hspace⟩⟩

instance (d : Deployable) (spaces : List String) (snapshot : List Deployable) :
    Decidable (d.FiledApart spaces snapshot) :=
  inferInstanceAs (Decidable (∀ p ∈ snapshot, ∀ q ∈ snapshot, _ → _ → _ → p = q))

theorem IsProjectedFrom.identity_eq {d p q : Deployable} (hp : d.IsProjectedFrom p)
    (hq : d.IsProjectedFrom q) : p.identity = q.identity := by
  obtain ⟨source, hnamed, -, hidentity⟩ := hp
  obtain ⟨source', hnamed', -, hidentity'⟩ := hq
  rw [hnamed, Option.some.injEq] at hnamed'
  rw [hidentity, hnamed', hidentity']

end Deployable

namespace Family

variable {snapshot snapshot' : List Deployable} {d : Deployable} {spaces : List String}

theorem children_ofSnapshot (snapshot : List Deployable) (d : Deployable) (spaces : List String)
    (text : String) :
    FindsLast (fun q => d.IsChildOf spaces q ∧ q.filedUnder = text) snapshot
      ((ofSnapshot snapshot d spaces).children.get? text) :=
  children_ofIndex snapshot d spaces text

theorem ofSnapshot_nil (snapshot : List Deployable) (d : Deployable) :
    ofSnapshot snapshot d [] = .empty := rfl

theorem eq_of_lookups {family family' : Family} (hparent : family.parent = family'.parent)
    (hchildren : ∀ text, family.children.get? text = family'.children.get? text) :
    family = family' := by
  cases family with
  | mk parent children =>
    cases family' with
    | mk parent' children' =>
      have hsame : children = children' := SortedMap.ext_get? hchildren
      subst hparent hsame
      rfl

theorem ofSnapshot_eq_of_perm (hdistinct : (snapshot.map Deployable.identity).Nodup)
    (hapart : d.FiledApart spaces snapshot) (hperm : snapshot.Perm snapshot') :
    ofSnapshot snapshot d spaces = ofSnapshot snapshot' d spaces := by
  by_cases hspaces : spaces = []
  · rw [hspaces, ofSnapshot_nil, ofSnapshot_nil]
  · apply eq_of_lookups
    · apply (parent_ofIndex snapshot d hspaces).eq_of_perm
        (parent_ofIndex snapshot' d hspaces) hperm
      intro p hp q hq hpd hqd
      exact List.inj_on_of_nodup_map hdistinct hp hq (hpd.identity_eq hqd)
    · intro text
      apply (children_ofSnapshot snapshot d spaces text).eq_of_perm
        (children_ofSnapshot snapshot' d spaces text) hperm
      rintro p hp q hq ⟨hpd, hptext⟩ ⟨hqd, hqtext⟩
      exact hapart p hp q hq hpd hqd (hptext.trans hqtext.symm)

theorem get?_children_concat {front : List Deployable} {p : Deployable}
    (hp : d.IsChildOf spaces p) :
    (ofSnapshot (front ++ [p]) d spaces).children.get? p.filedUnder = some p := by
  apply ((children_ofSnapshot _ d spaces _).some_iff p).mpr
  exact ⟨front, [], rfl, ⟨hp, rfl⟩, fun _ hb => absurd hb List.not_mem_nil⟩

/-- Each of two children under one text is found in an order in which it is the last one. -/
theorem filedApart_of_orderless
    (h : ∀ snapshot', snapshot'.Perm snapshot →
      ofSnapshot snapshot' d spaces = ofSnapshot snapshot d spaces) :
    d.FiledApart spaces snapshot := by
  have hfound : ∀ p ∈ snapshot, d.IsChildOf spaces p →
      (ofSnapshot snapshot d spaces).children.get? p.filedUnder = some p := by
    intro p hp hchild
    obtain ⟨front, back, rfl⟩ := List.append_of_mem hp
    have hperm : (front ++ back ++ [p]).Perm (front ++ p :: back) := by
      apply (List.perm_append_singleton p (front ++ back)).trans
      exact List.perm_middle.symm
    rw [← h _ hperm]
    exact get?_children_concat hchild
  intro p hp q hq hpd hqd htext
  have hpq := hfound p hp hpd
  rw [htext, hfound q hq hqd] at hpq
  exact (Option.some.inj hpq).symm

theorem runFrom_resolveFamily {σ : Type} {store : Store (StateM σ)} {s : σ}
    (hlist : runFrom (store.list none) s = (.ok snapshot, s)) (d : Deployable)
    (spaces : List String) :
    runFrom (resolveFamily store d spaces) s = (.ok (ofSnapshot snapshot d spaces), s) := by
  unfold resolveFamily
  split
  next hempty =>
    rw [List.isEmpty_iff.mp hempty, ofSnapshot_nil]
    rfl
  next =>
    apply runFrom_bind_ok
    exact runFrom_adapt_ok hlist

/-- With distinct identities, a family is the same in every order of the snapshot exactly if no two
children are filed under one text. Then a store in memory and a store in a file with the same
objects resolve the same family. -/
theorem resolved_in_any_order (d : Deployable) (spaces : List String)
    (hdistinct : (snapshot.map Deployable.identity).Nodup) :
    (d.FiledApart spaces snapshot ↔ ∀ snapshot', snapshot'.Perm snapshot →
      ofSnapshot snapshot' d spaces = ofSnapshot snapshot d spaces) ∧
    (d.FiledApart spaces snapshot →
      ∀ (shelf : Shelf) (path : String) (w : World) (m : Manifest),
        shelf.objects.Perm snapshot → w.manifest path = .ok m → m.deployables.Perm snapshot →
          runFrom (resolveFamily Shelf.store d spaces) shelf =
            (.ok (ofSnapshot snapshot d spaces), shelf) ∧
          runFrom (resolveFamily (ManifestFile.store path) d spaces) w =
            (.ok (ofSnapshot snapshot d spaces), w)) := by
  have hsame : d.FiledApart spaces snapshot → ∀ snapshot', snapshot'.Perm snapshot →
      ofSnapshot snapshot' d spaces = ofSnapshot snapshot d spaces := by
    intro hapart snapshot' hperm
    exact (ofSnapshot_eq_of_perm hdistinct hapart hperm.symm).symm
  refine ⟨⟨hsame, filedApart_of_orderless⟩, ?_⟩
  intro hapart shelf path w m hshelf hload hfile
  constructor
  · rw [runFrom_resolveFamily (Shelf.runFrom_list none shelf)]
    change (Except.ok (ofSnapshot shelf.objects d spaces), shelf) = _
    rw [hsame hapart _ hshelf]
  · have hlist : runFrom ((ManifestFile.store path).list none) w = (.ok m.deployables, w) := by
      rw [ManifestFile.runFrom_list, hload]
      rfl
    rw [runFrom_resolveFamily hlist, hsame hapart _ hfile]

def plainRoot : Deployable := .new "a" "r"

def bareChild (name : String) : Deployable :=
  Deployable.withAnnotation ((Deployable.new "b" name).withGenerateName "r-")
    Annotation.channelSource "a/r"

def labelledChild (name text : String) : Deployable :=
  Deployable.withAnnotation (bareChild name) Annotation.channel text

/-- Two children that do not stand in the order of their keys. -/
def disordered : List Deployable := [bareChild "y", labelledChild "x" "b/c"]

def disorderedWorld : World where
  disk := Disk.empty.put ["m"] (.text
    ("deployables=[\x7bmetadata=\x7bname=\"y\",namespace=\"b\",generate_name=\"r-\"," ++
      "annotations=\x7bchannel-source=\"a/r\"\x7d\x7d\x7d," ++
      "\x7bmetadata=\x7bname=\"x\",namespace=\"b\",generate_name=\"r-\"," ++
      "annotations=\x7bchannel-source=\"a/r\",channel=\"b/c\"\x7d\x7d\x7d]"))
  workingDir := "/"
  configDir := none
  supply _ := default
  drawn := 0

def disorderedShelf : Shelf := ⟨.ofDeployables disordered, fun _ => default, 0⟩

theorem disordered_resolved :
    (disordered.map Deployable.identity).Nodup ∧
    plainRoot.FiledApart ["b"] disordered ∧
    ofSnapshot disordered.reverse plainRoot ["b"] =
      ofSnapshot disordered plainRoot ["b"] ∧
    disorderedShelf.objects ≠ disordered ∧
    ∃ family, family.children.keys = ["", "b/c"] ∧
      runFrom (resolveFamily Shelf.store plainRoot ["b"]) disorderedShelf =
        (.ok family, disorderedShelf) ∧
      runFrom (resolveFamily (ManifestFile.store "m") plainRoot ["b"]) disorderedWorld =
        (.ok family, disorderedWorld) := by
  have hdistinct : (disordered.map Deployable.identity).Nodup := by decide +kernel
  have hapart : plainRoot.FiledApart ["b"] disordered := by decide +kernel
  have hload : disorderedWorld.manifest "m" = .ok ⟨disordered, []⟩ :=
    eq_ok_of_toOption (by decide +kernel)
  have hshelf : disorderedShelf.objects.Perm disordered := by decide +kernel
  obtain ⟨horder, hstores⟩ := resolved_in_any_order plainRoot ["b"] hdistinct
  refine ⟨hdistinct, hapart, ?_, by decide +kernel, ?_⟩
  · exact horder.mp hapart _ (List.reverse_perm disordered)
  · refine ⟨ofSnapshot disordered plainRoot ["b"], by decide +kernel, ?_⟩
    exact hstores hapart disorderedShelf "m" disorderedWorld _ hshelf hload (List.Perm.refl _)

/-- Children that are told apart by their channel annotations, as one of them has none and the other
an empty one, and that take each other's place. -/
theorem order_tells_blank_channel :
    let bare := bareChild "x"
    let blank := labelledChild "y" ""
    ([bare, blank].map Deployable.identity).Nodup ∧
    (∀ p ∈ [bare, blank], ∀ q ∈ [bare, blank], plainRoot.IsChildOf ["b"] p →
      plainRoot.IsChildOf ["b"] q →
        p.annotation? Annotation.channel = q.annotation? Annotation.channel → p = q) ∧
    [blank, bare].Perm [bare, blank] ∧
    ofSnapshot [blank, bare] plainRoot ["b"] ≠ ofSnapshot [bare, blank] plainRoot ["b"] := by
  decide +kernel

end Family

end Ferry
