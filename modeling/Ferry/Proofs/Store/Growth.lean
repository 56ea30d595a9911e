import Ferry.Proofs.Results
import Ferry.Proofs.Run
import Ferry.Store.Basic

/-!
# Stores that grow

A store completes a new object and shows it among the others from then on, at a
place of its own choice. `Steady` says so of a store over a state, and that calls
that fail change nothing.
-/
namespace Ferry

namespace Deployable

/-- The object with the name, the uid and the time that a store gave it. -/
def completed (d : Deployable) (name uid : String) (createdAt : Timestamp) : Deployable :=
  { d with metadata := { d.metadata with name, uid := some uid, createdAt := some createdAt } }

variable (d : Deployable) (name uid : String) (createdAt : Timestamp)

@[simp]
theorem completed_name : (d.completed name uid createdAt).name = name := rfl

@[simp]
theorem completed_space : (d.completed name uid createdAt).space = d.space := rfl

@[simp]
theorem completed_annotation? (key : String) :
    (d.completed name uid createdAt).annotation? key = d.annotation? key := rfl

@[simp]
theorem completed_generateName :
    (d.completed name uid createdAt).metadata.generateName = d.metadata.generateName := rfl

/-- What a store keeps of an object that it was asked to create. -/
def StoredAs (d p : Deployable) : Prop := ∃ name uid createdAt, p = d.completed name uid createdAt

def unstored (d : Deployable) : Deployable :=
  { d with metadata := { d.metadata with name := "", uid := none, createdAt := none } }

variable {d} in
theorem StoredAs.unstored_eq {p : Deployable} (h : d.StoredAs p) : p.unstored = d.unstored := by
  obtain ⟨name, uid, createdAt, rfl⟩ := h
  rfl

end Deployable

@[simp]
theorem inSpace_none (objects : List Deployable) : inSpace none objects = objects := rfl

/-! ### Names of new objects -/

theorem Metadata.generateName?_eq_some_iff {m : Metadata} {start : String} :
    m.generateName? = some start ↔ m.generateName = some start ∧ start ≠ "" := by
  simp [Metadata.generateName?, Option.filter_eq_some_iff]

section Names

variable (allocation : Allocation) (taken : ObjectKey → Bool) (d : Deployable)

/-- The ways in which a name for a new object is looked for, by the answer. -/
inductive Allocates : Except StoreError String → Prop
  | spaceless : d.space = "" → Allocates (.error (.invalid "namespace is required"))
  | nameless : d.space ≠ "" → d.name = "" → d.metadata.generateName? = none →
      Allocates (.error (.invalid "name or generate_name is required"))
  | exhausted {start} : d.space ≠ "" → d.name = "" → d.metadata.generateName? = some start →
      (∀ ending ∈ allocation.endings.take nameAttempts, taken ⟨d.space, start ++ ending⟩ = true) →
      Allocates (.error (.unavailable ("could not allocate a unique name for " ++ start)))
  | generated {start ending} : d.space ≠ "" → d.name = "" → d.metadata.generateName? = some start →
      ending ∈ allocation.endings.take nameAttempts → taken ⟨d.space, start ++ ending⟩ = false →
      Allocates (.ok (start ++ ending))
  | occupied : d.space ≠ "" → d.name ≠ "" → taken d.key = true →
      Allocates (.error (.alreadyExists d.key))
  | own : d.space ≠ "" → d.name ≠ "" → taken d.key = false → Allocates (.ok d.name)

variable {allocation taken d}

theorem allocates_of_eq {answer : Except StoreError String}
    (h : allocateName allocation taken d = answer) : Allocates allocation taken d answer := by
  subst h
  unfold allocateName
  split
  next hspace => exact .spaceless hspace
  next hspace =>
    split
    next hname =>
      split
      next hstart => exact .nameless hspace hname hstart
      next start hstart =>
        unfold freshName?
        split
        next name hfresh =>
          have hfree := List.find?_some hfresh
          obtain ⟨ending, hending, rfl⟩ := List.mem_map.mp (List.mem_of_find?_eq_some hfresh)
          exact .generated hspace hname hstart hending (by simpa using hfree)
        next hnone =>
          rw [List.find?_eq_none, List.forall_mem_map] at hnone
          exact .exhausted hspace hname hstart (by simpa using hnone)
    next hname =>
      split
      next htaken => exact .occupied hspace hname htaken
      next hfree => exact .own hspace hname (Bool.eq_false_iff.mpr hfree)

theorem allocateName_named {name : String} (h : allocateName allocation taken d = .ok name) :
    d.space ≠ "" ∧ name ≠ "" := by
  cases allocates_of_eq h with
  | generated hspace _ hstart _ _ =>
    obtain ⟨-, hne⟩ := Metadata.generateName?_eq_some_iff.mp hstart
    exact ⟨hspace, fun hempty => hne (String.append_eq_empty_iff.mp hempty).1⟩
  | own hspace hname _ => exact ⟨hspace, hname⟩

theorem allocateName_free {name : String} (h : allocateName allocation taken d = .ok name) :
    taken ⟨d.space, name⟩ = false := by
  cases allocates_of_eq h with
  | generated _ _ _ _ hfree => exact hfree
  | own _ _ hfree => exact hfree

end Names

/-- A store changes nothing of a new object but its name, uid and time, and takes a free name. -/
theorem prepareForCreate_ok {allocation : Allocation} {taken : ObjectKey → Bool} {d p : Deployable}
    (h : prepareForCreate allocation taken d = .ok p) :
    d.StoredAs p ∧ taken p.key = false := by
  obtain ⟨name, hname, rfl⟩ := exists_of_map_eq_ok h
  have hfree : taken ⟨d.space, name⟩ = false := allocateName_free hname
  exact ⟨⟨name, allocation.uid, allocation.createdAt, rfl⟩, hfree⟩

theorem prepareForCreate_name {allocation : Allocation} {taken : ObjectKey → Bool}
    {d p : Deployable} (h : prepareForCreate allocation taken d = .ok p) (hname : d.name = "") :
    ∃ start ending, d.metadata.generateName? = some start ∧ p.name = start ++ ending := by
  obtain ⟨name, hallocate, rfl⟩ := exists_of_map_eq_ok h
  cases allocates_of_eq hallocate with
  | @generated start ending _ _ hstart _ _ => exact ⟨start, ending, hstart, rfl⟩
  | own _ hnamed _ => exact absurd hname hnamed

section Insertion

variable {α : Type} {p : α} {before after : List α}

def InsertedInto (p : α) (before after : List α) : Prop :=
  ∃ front back, before = front ++ back ∧ after = front ++ p :: back

theorem InsertedInto.perm (h : InsertedInto p before after) : after.Perm (p :: before) := by
  obtain ⟨front, back, rfl, rfl⟩ := h
  exact List.perm_middle

theorem InsertedInto.mem_iff (h : InsertedInto p before after) {x : α} :
    x ∈ after ↔ x = p ∨ x ∈ before := by
  rw [h.perm.mem_iff, List.mem_cons]

theorem InsertedInto.find?_reverse (h : InsertedInto p before after) {q : α → Bool}
    (hq : q p = false) : after.reverse.find? q = before.reverse.find? q := by
  obtain ⟨front, back, rfl, rfl⟩ := h
  simp [List.find?_append, hq]

theorem InsertedInto.filter_eq (h : InsertedInto p before after) {q : α → Bool}
    (hq : q p = false) : after.filter q = before.filter q := by
  obtain ⟨front, back, rfl, rfl⟩ := h
  simp [hq]

inductive Grown : List α → List α → List α → Prop
  | nil {objects} : Grown [] objects objects
  | cons {p ps before middle after} :
      InsertedInto p before middle → Grown ps middle after → Grown (p :: ps) before after

variable {ps : List α}

theorem Grown.perm (h : Grown ps before after) : after.Perm (before ++ ps) := by
  induction h with
  | nil => simp
  | cons hp _ ih =>
    refine ih.trans ((hp.perm.append_right _).trans ?_)
    exact List.perm_middle.symm

theorem Grown.mem_iff (h : Grown ps before after) {x : α} :
    x ∈ after ↔ x ∈ before ∨ x ∈ ps := by
  rw [h.perm.mem_iff, List.mem_append]

theorem Grown.find?_reverse (h : Grown ps before after) {q : α → Bool}
    (hq : ∀ p ∈ ps, q p = false) : after.reverse.find? q = before.reverse.find? q := by
  induction h with
  | nil => rfl
  | cons hp _ ih =>
    rw [ih fun p hmem => hq p (List.mem_cons_of_mem _ hmem)]
    exact hp.find?_reverse (hq _ List.mem_cons_self)

theorem Grown.filter_eq (h : Grown ps before after) {q : α → Bool} (hq : ∀ p ∈ ps, q p = false) :
    after.filter q = before.filter q := by
  induction h with
  | nil => rfl
  | cons hp _ ih =>
    rw [ih fun p hmem => hq p (List.mem_cons_of_mem _ hmem)]
    exact hp.filter_eq (hq _ List.mem_cons_self)

theorem Grown.append {ps' : List α} {last : List α} (h : Grown ps before after)
    (h' : Grown ps' after last) : Grown (ps ++ ps') before last := by
  induction h with
  | nil => exact h'
  | cons hp _ ih => exact .cons hp (ih h')

end Insertion

/-- Two contents that grew out of one, by new objects that differ at most in what the store gave to
them. -/
def GrownAlike (before after after' : List Deployable) : Prop :=
  ∃ new new', after.Perm (before ++ new) ∧ after'.Perm (before ++ new') ∧
    (new.map Deployable.unstored).Perm (new'.map Deployable.unstored)

namespace Store

variable {σ : Type}

def listed (store : Store (StateM σ)) (s : σ) : List Deployable :=
  (runFrom (store.list none) s).1.toOption.getD []

theorem listed_eq {store : Store (StateM σ)} {s t : σ} {shown : List Deployable}
    (h : runFrom (store.list none) s = (.ok shown, t)) : store.listed s = shown := by
  simp [listed, h, Except.toOption]

/-- The store shows its objects in every state, completes and shows a new object, and keeps them
as they are in calls that fail. -/
structure Steady (store : Store (StateM σ)) (objects : σ → List Deployable) : Prop where
  list : ∀ {space s shown t}, runFrom (store.list space) s = (.ok shown, t) →
    shown = inSpace space (objects s) ∧ objects t = objects s
  create : ∀ {d s p t}, runFrom (store.create d) s = (.ok p, t) →
    d.StoredAs p ∧ InsertedInto p (objects s) (objects t)
  list_error : ∀ {space s e t}, runFrom (store.list space) s = (.error e, t) →
    objects t = objects s
  create_error : ∀ {d s e t}, runFrom (store.create d) s = (.error e, t) → objects t = objects s

end Store

end Ferry
