import Ferry.Promotion
import Ferry.Proofs.SortedMap

/-!
# Lookups as scans

The index over a snapshot answers as a scan of the snapshot would: the source
table is a filter, and of several objects that fit the last one wins, in the
table of identities as well as in the map of children. Everything that promotion
finds is described here once, by two predicates on single objects.
-/
namespace Ferry

/-! ### The last item that fits -/

section

variable {α : Type} {P : α → Prop} {q : α → Bool} {l : List α}

/-- An item of a list that has a property which no later item has. -/
def IsLast (P : α → Prop) (l : List α) (a : α) : Prop :=
  ∃ front back, l = front ++ a :: back ∧ P a ∧ ∀ b ∈ back, ¬ P b

theorem IsLast.mem {a : α} (h : IsLast P l a) : a ∈ l := by
  obtain ⟨front, back, rfl, -⟩ := h
  exact List.mem_append_right _ List.mem_cons_self

theorem IsLast.has {a : α} (h : IsLast P l a) : P a := by
  obtain ⟨_, _, _, ha, _⟩ := h
  exact ha

theorem IsLast.append_left {a : α} (h : IsLast P l a) (front : List α) :
    IsLast P (front ++ l) a := by
  obtain ⟨before, back, rfl, ha, hback⟩ := h
  exact ⟨front ++ before, back, (List.append_assoc _ _ _).symm, ha, hback⟩

theorem isLast_cons_iff {a b : α} :
    IsLast P (b :: l) a ↔ IsLast P l a ∨ (a = b ∧ P b ∧ ∀ c ∈ l, ¬ P c) := by
  constructor
  · rintro ⟨front, back, hsplit, ha, hback⟩
    rw [List.cons_eq_append_iff] at hsplit
    rcases hsplit with ⟨rfl, hcons⟩ | ⟨front, rfl, rfl⟩
    · obtain ⟨rfl, rfl⟩ := List.cons.inj hcons
      exact .inr ⟨rfl, ha, hback⟩
    · exact .inl ⟨front, back, rfl, ha, hback⟩
  · rintro (hlast | ⟨rfl, ha, hnone⟩)
    · exact hlast.append_left [b]
    · exact ⟨[], l, rfl, ha, hnone⟩

theorem exists_isLast {a : α} (ha : a ∈ l) (hPa : P a) : ∃ b, IsLast P l b := by
  induction l generalizing a with
  | nil => exact absurd ha List.not_mem_nil
  | cons b l ih =>
    by_cases hlater : ∃ c ∈ l, P c
    · obtain ⟨c, hc, hPc⟩ := hlater
      obtain ⟨last, hlast⟩ := ih hc hPc
      exact ⟨last, hlast.append_left [b]⟩
    · have hnone : ∀ c ∈ l, ¬ P c := fun c hc hPc => hlater ⟨c, hc, hPc⟩
      rcases List.mem_cons.mp ha with rfl | hmem
      · exact ⟨a, isLast_cons_iff.mpr (.inr ⟨rfl, hPa, hnone⟩)⟩
      · exact absurd hPa (hnone a hmem)

/-- The first item that fits, seen from the end, is the last one. -/
theorem find?_reverse_eq_some_iff (hq : ∀ b ∈ l, q b = true ↔ P b) {a : α} :
    l.reverse.find? q = some a ↔ IsLast P l a := by
  rw [List.find?_eq_some_iff_append]
  constructor
  · rintro ⟨ha, later, earlier, hsplit, hlater⟩
    have hl : l = earlier.reverse ++ a :: later.reverse := by
      rw [← List.reverse_reverse l, hsplit]
      simp
    refine ⟨earlier.reverse, later.reverse, hl, (hq a (by simp [hl])).mp ha, ?_⟩
    intro b hb hPb
    have hmem : b ∈ l := by
      rw [hl]
      exact List.mem_append_right _ (List.mem_cons_of_mem _ hb)
    have hnot := hlater b (List.mem_reverse.mp hb)
    simp [(hq b hmem).mpr hPb] at hnot
  · rintro ⟨front, back, rfl, ha, hback⟩
    refine ⟨(hq a (by simp)).mpr ha, back.reverse, front.reverse, by simp, ?_⟩
    intro b hb
    have hb := List.mem_reverse.mp hb
    rw [Bool.not_eq_true', Bool.eq_false_iff]
    intro hqb
    exact hback b hb ((hq b (by simp [hb])).mp hqb)

theorem find?_reverse_eq_none_iff (hq : ∀ b ∈ l, q b = true ↔ P b) :
    l.reverse.find? q = none ↔ ∀ b ∈ l, ¬ P b := by
  rw [List.find?_eq_none]
  constructor
  · intro hnone b hb hPb
    exact hnone b (List.mem_reverse.mpr hb) ((hq b hb).mpr hPb)
  · intro hnone b hb hqb
    have hb := List.mem_reverse.mp hb
    exact hnone b hb ((hq b hb).mp hqb)

/-- What a lookup finds in a list: the last item that has a property, or nothing if none has it. -/
structure FindsLast (P : α → Prop) (l : List α) (found : Option α) : Prop where
  some_iff : ∀ a, found = some a ↔ IsLast P l a
  none_iff : found = none ↔ ∀ a ∈ l, ¬ P a

theorem findsLast_find?_reverse (hq : ∀ b ∈ l, q b = true ↔ P b) :
    FindsLast P l (l.reverse.find? q) :=
  ⟨fun _ => find?_reverse_eq_some_iff hq, find?_reverse_eq_none_iff hq⟩

theorem FindsLast.congr {P' : α → Prop} {found : Option α} (h : FindsLast P l found)
    (hP : ∀ a ∈ l, P a ↔ P' a) : FindsLast P' l found where
  some_iff a := by
    rw [h.some_iff]
    constructor
    · rintro ⟨front, back, rfl, ha, hback⟩
      refine ⟨front, back, rfl, (hP a (by simp)).mp ha, ?_⟩
      exact fun b hb hPb => hback b hb ((hP b (by simp [hb])).mpr hPb)
    · rintro ⟨front, back, rfl, ha, hback⟩
      refine ⟨front, back, rfl, (hP a (by simp)).mpr ha, ?_⟩
      exact fun b hb hPb => hback b hb ((hP b (by simp [hb])).mp hPb)
  none_iff := by
    rw [h.none_iff]
    exact forall₂_congr fun a ha => not_congr (hP a ha)

theorem findsLast_none (h : ∀ a ∈ l, ¬ P a) : FindsLast P l none where
  some_iff a := by
    constructor
    · exact nofun
    · rintro ⟨front, back, rfl, ha, -⟩
      exact absurd ha (h a (by simp))
  none_iff := by simpa using h

/-- Where one item at most has the property, it does not matter that the last one is found. -/
theorem FindsLast.some_iff_mem {found : Option α} (h : FindsLast P l found)
    (hunique : ∀ a ∈ l, ∀ b ∈ l, P a → P b → a = b) (a : α) :
    found = some a ↔ a ∈ l ∧ P a := by
  constructor
  · intro hfound
    have hlast := (h.some_iff a).mp hfound
    exact ⟨hlast.mem, hlast.has⟩
  · rintro ⟨ha, hPa⟩
    cases hfound : found with
    | none => exact absurd hPa (h.none_iff.mp hfound a ha)
    | some b =>
      have hlast := (h.some_iff b).mp hfound
      rw [hunique b hlast.mem a ha hlast.has hPa]

theorem FindsLast.eq_of_perm {l' : List α} {found found' : Option α} (h : FindsLast P l found)
    (h' : FindsLast P l' found') (hperm : l.Perm l')
    (hunique : ∀ a ∈ l, ∀ b ∈ l, P a → P b → a = b) : found = found' := by
  have hunique' : ∀ a ∈ l', ∀ b ∈ l', P a → P b → a = b := fun a ha b hb =>
    hunique a (hperm.mem_iff.mpr ha) b (hperm.mem_iff.mpr hb)
  apply Option.ext
  intro a
  rw [h.some_iff_mem hunique, h'.some_iff_mem hunique', hperm.mem_iff]

end

/-! ### Identity texts -/

namespace ObjectKey

theorem text_ne_empty (k : ObjectKey) : k.text ≠ "" := by
  intro h
  have hlen := congrArg String.length h
  simp [text] at hlen

theorem ext_of_text {k l : ObjectKey} (hspace : k.space = l.space) (htext : k.text = l.text) :
    k = l := by
  cases k with
  | mk space name =>
    cases l with
    | mk space' name' =>
      subst hspace
      have hname : name.toList = name'.toList := by
        have h := congrArg String.toList htext
        simpa [text] using h
      rw [String.toList_inj.mp hname]

end ObjectKey

/-! ### The index -/

namespace SnapshotIndex

theorem byIdentity_foldl_add (snapshot : List Deployable) (index : SnapshotIndex) :
    (snapshot.foldl add index).byIdentity =
      (snapshot.map fun d => (d.identity, d)).foldl (fun m e => m.insert e.1 e.2)
        index.byIdentity := by
  induction snapshot generalizing index with
  | nil => rfl
  | cons d rest ih => rw [List.foldl_cons, ih, List.map_cons, List.foldl_cons, add]

theorem get?_ofSnapshot (snapshot : List Deployable) (identity : String) :
    (ofSnapshot snapshot).get? identity =
      snapshot.reverse.find? fun d => d.identity = identity := by
  have htable : (ofSnapshot snapshot).byIdentity =
      .ofList (snapshot.map fun d => (d.identity, d)) := byIdentity_foldl_add snapshot empty
  rw [get?, htable, SortedMap.get?_ofList, ← List.map_reverse, List.find?_map, Option.map_map]
  exact Option.map_id_apply

theorem sourcedFrom_add (index : SnapshotIndex) (d : Deployable) (source : String) :
    (index.add d).sourcedFrom source =
      if d.annotation? Annotation.channelSource = some source then index.sourcedFrom source ++ [d]
      else index.sourcedFrom source := by
  cases h : d.annotation? Annotation.channelSource with
  | none => simp [sourcedFrom, add, h]
  | some root =>
    by_cases hroot : root = source
    · simp [sourcedFrom, add, h, hroot]
    · have hne : source ≠ root := fun e => hroot e.symm
      simp [sourcedFrom, add, h, hroot, SortedMap.get?_insert_of_ne _ _ hne]

theorem sourcedFrom_foldl_add (snapshot : List Deployable) (index : SnapshotIndex)
    (source : String) :
    (snapshot.foldl add index).sourcedFrom source = index.sourcedFrom source ++
      snapshot.filter fun d => d.annotation? Annotation.channelSource = some source := by
  induction snapshot generalizing index with
  | nil => simp
  | cons d rest ih =>
    rw [List.foldl_cons, ih, sourcedFrom_add, List.filter_cons]
    by_cases h : d.annotation? Annotation.channelSource = some source <;> simp [h]

theorem sourcedFrom_ofSnapshot (snapshot : List Deployable) (source : String) :
    (ofSnapshot snapshot).sourcedFrom source =
      snapshot.filter fun d => d.annotation? Annotation.channelSource = some source := by
  rw [ofSnapshot, sourcedFrom_foldl_add]
  simp [sourcedFrom, empty]

end SnapshotIndex

/-! ### What promotion looks for -/

namespace Promotion

/-- Whether an object is a projection of a root into a channel, of any generation: it stands in the
channel's namespace and names both the channel and the root. -/
def isProjectionInto (root : String) (channel : ObjectKey) (p : Deployable) : Bool :=
  p.annotation? Annotation.channelSource = some root && SnapshotIndex.isPlacedIn channel p

/-- Whether an object counts as a child of `d` for a channel: it names `d` itself and the channel,
has the beginning of names that `d` gives, and stands in one of the namespaces. -/
def isChildFor (d : Deployable) (spaces : List String) (channel : ObjectKey) (p : Deployable) :
    Bool :=
  p.annotation? Annotation.channelSource = some d.identity && Family.isChild d spaces p &&
    p.annotation? Annotation.channel = some channel.text

theorem isProjectionInto_iff {root : String} {channel : ObjectKey} {p : Deployable} :
    isProjectionInto root channel p = true ↔
      p.annotation? Annotation.channelSource = some root ∧ p.space = channel.space ∧
        p.annotation? Annotation.channel = some channel.text := by
  simp [isProjectionInto, SnapshotIndex.isPlacedIn]

theorem isChildFor_iff {d : Deployable} {spaces : List String} {channel : ObjectKey}
    {p : Deployable} :
    isChildFor d spaces channel p = true ↔
      p.annotation? Annotation.channelSource = some d.identity ∧
        p.metadata.generateName = some d.projectionNameStart ∧ p.space ∈ spaces ∧
          p.annotation? Annotation.channel = some channel.text := by
  simp [isChildFor, Family.isChild, and_assoc]

/-- An object is a projection of one root into one channel at most. -/
theorem eq_of_isProjectionInto {root root' : String} {channel channel' : ObjectKey}
    {p : Deployable} (h : isProjectionInto root channel p = true)
    (h' : isProjectionInto root' channel' p = true) : root = root' ∧ channel = channel' := by
  rw [isProjectionInto_iff] at h h'
  obtain ⟨hroot, hspace, htext⟩ := h
  obtain ⟨hroot', hspace', htext'⟩ := h'
  refine ⟨by simpa [hroot] using hroot', ?_⟩
  exact ObjectKey.ext_of_text (hspace.symm.trans hspace') (by simpa [htext] using htext')

end Promotion

open Promotion

theorem SnapshotIndex.projectionOf?_ofSnapshot (snapshot : List Deployable) (root : String)
    (channel : ObjectKey) :
    (ofSnapshot snapshot).projectionOf? root channel =
      snapshot.reverse.find? (isProjectionInto root channel) := by
  rw [projectionOf?, sourcedFrom_ofSnapshot, ← List.filter_reverse, List.find?_filter]
  congr 1
  funext p
  simp [isProjectionInto]

theorem Family.get?_children_ofIndex (snapshot : List Deployable) (d : Deployable)
    {spaces : List String} (hspaces : spaces ≠ []) (text : String) :
    (ofIndex (.ofSnapshot snapshot) d spaces).children.get? text =
      snapshot.reverse.find? fun p =>
        p.annotation? Annotation.channelSource = some d.identity && isChild d spaces p &&
          (p.annotation? Annotation.channel).getD "" = text := by
  have hempty : spaces.isEmpty = false := by simpa using hspaces
  simp [ofIndex, hempty, SortedMap.get?_ofList, SnapshotIndex.sourcedFrom_ofSnapshot,
    ← List.map_reverse, List.find?_map, ← List.filter_reverse, List.find?_filter,
    Function.comp_def, Bool.and_assoc, Bool.and_left_comm]

/-- A child without a channel annotation is filed under the empty text, which names no channel. -/
theorem Family.childFor?_ofIndex (snapshot : List Deployable) (d : Deployable)
    {spaces : List String} (hspaces : spaces ≠ []) (channel : ObjectKey) :
    (ofIndex (.ofSnapshot snapshot) d spaces).childFor? channel =
      snapshot.reverse.find? (isChildFor d spaces channel) := by
  have hfiled : ∀ p : Deployable,
      decide ((p.annotation? Annotation.channel).getD "" = channel.text) =
        decide (p.annotation? Annotation.channel = some channel.text) := by
    intro p
    cases p.annotation? Annotation.channel with
    | none => simpa using channel.text_ne_empty.symm
    | some text => simp
  rw [childFor?, get?_children_ofIndex snapshot d hspaces]
  simp only [hfiled]
  rfl

/-- What promotion finds for a channel in a snapshot: the last child of the deployable, or else the
last projection of its root. -/
theorem Promotion.existing?_ofSnapshot (snapshot : List Deployable) (d : Deployable)
    {spaces : List String} (hspaces : spaces ≠ []) (channel : ObjectKey) :
    existing? (.ofSnapshot snapshot) (Family.ofIndex (.ofSnapshot snapshot) d spaces) d channel =
      (snapshot.reverse.find? (isChildFor d spaces channel)).or
        (snapshot.reverse.find? (isProjectionInto d.root channel)) := by
  rw [existing?, Family.childFor?_ofIndex snapshot d hspaces,
    SnapshotIndex.projectionOf?_ofSnapshot]

end Ferry
