import Ferry.Proofs.SortedMap
import Ferry.Proofs.Store.Calls
import Ferry.Proofs.Store.Memory

/-!
# The store in memory is a map

Whatever calls were made since the store was seeded, its objects stand under their own keys
and are listed in the order of their keys. A create fails and changes nothing, or it adds
one object under a key that was free, with a name that the object has or asks for. A delete
removes what is under its key and nothing else, so it takes back a create.
-/
namespace Ferry

/-! ### Names -/

/-- A name that a store may give to a new object with what it draws: the object's own name, or else
the beginning that it asks for with one of the endings. -/
def MayBeNamed (allocation : Allocation) (d : Deployable) (name : String) : Prop :=
  d.name ≠ "" ∧ name = d.name ∨
    d.name = "" ∧ ∃ start, d.metadata.generateName = some start ∧ start ≠ "" ∧
      ∃ ending ∈ allocation.endings.take nameAttempts, name = start ++ ending

section Names

variable {allocation : Allocation} {taken : ObjectKey → Bool} {d : Deployable}

theorem mayBeNamed_of_allocateName {name : String}
    (h : allocateName allocation taken d = .ok name) :
    MayBeNamed allocation d name := by
  cases allocates_of_eq h with
  | generated _ hname hstart hending _ =>
    obtain ⟨hset, hne⟩ := Metadata.generateName?_eq_some_iff.mp hstart
    exact .inr ⟨hname, _, hset, hne, _, hending, rfl⟩
  | own _ hname _ => exact .inl ⟨hname, rfl⟩

theorem exists_allocateName_iff :
    (∃ name, allocateName allocation taken d = .ok name) ↔
      d.space ≠ "" ∧ ∃ name, MayBeNamed allocation d name ∧ taken ⟨d.space, name⟩ = false := by
  constructor
  · rintro ⟨name, hname⟩
    have hspace := (allocateName_named hname).1
    exact ⟨hspace, name, mayBeNamed_of_allocateName hname, allocateName_free hname⟩
  · rintro ⟨hspace, name, hmay, hfree⟩
    cases hallocate : allocateName allocation taken d with
    | ok name' => exact ⟨name', rfl⟩
    | error e =>
      cases allocates_of_eq hallocate with
      | spaceless hempty => exact absurd hempty hspace
      | nameless _ hname hnone =>
        obtain ⟨hne, -⟩ | ⟨-, start, hset, hne, -⟩ := hmay
        · exact absurd hname hne
        · rw [Metadata.generateName?_eq_some_iff.mpr ⟨hset, hne⟩] at hnone
          cases hnone
      | exhausted _ hname hstart hall =>
        obtain ⟨hne, -⟩ | ⟨-, start, hset, hne, ending, hending, rfl⟩ := hmay
        · exact absurd hname hne
        · rw [Metadata.generateName?_eq_some_iff.mpr ⟨hset, hne⟩] at hstart
          cases hstart
          rw [hall ending hending] at hfree
          cases hfree
      | occupied _ hname htaken =>
        obtain ⟨-, rfl⟩ | ⟨hempty, -⟩ := hmay
        · have hfree' : taken d.key = false := hfree
          rw [htaken] at hfree'
          cases hfree'
        · exact absurd hempty hname

theorem allocateName_eq_alreadyExists_iff {key : ObjectKey} :
    allocateName allocation taken d = .error (.alreadyExists key) ↔
      d.space ≠ "" ∧ d.name ≠ "" ∧ key = d.key ∧ taken key = true := by
  constructor
  · intro h
    cases allocates_of_eq h with
    | occupied hspace hname htaken => exact ⟨hspace, hname, rfl, htaken⟩
  · rintro ⟨hspace, hname, rfl, htaken⟩
    rw [allocateName, if_neg hspace, if_neg hname, if_pos htaken]

end Names

namespace Shelf

/-! ### The laws -/

/-- The object `c` was made of `d`, and the shelf went from `s` to `t`. -/
structure Created (s : Shelf) (d c : Deployable) (t : Shelf) : Prop where
  completed : c = d.completed c.name (s.supply s.drawn).uid (s.supply s.drawn).createdAt
  name : MayBeNamed (s.supply s.drawn) d c.name
  free : s.memory.get? c.key = none
  get? : ∀ key, t.memory.get? key = if key = c.key then some c else s.memory.get? key
  undone : ∃ u, runFrom (store.delete c.key) t = (.ok (), u) ∧ u.memory = s.memory

/-- The laws of a map. The lists and the gets tell of one content, and creates and deletes change it
under one key or not at all. -/
structure MapLaws (s : Shelf) : Prop where
  keyed : s.memory.Keyed
  listed : runFrom (store.list none) s = (.ok s.objects, s)
  ordered : (s.objects.map Deployable.key).Pairwise (compare · · = .lt)
  inSpace : ∀ space, runFrom (store.list (some space)) s =
    (.ok (s.objects.filter fun d => d.space = space), s)
  got : ∀ key, runFrom (store.get key) s = (.ok (s.memory.get? key), s)
  get?_iff : ∀ key d, s.memory.get? key = some d ↔ d ∈ s.objects ∧ d.key = key
  created : ∀ d c t, runFrom (store.create d) s = (.ok c, t) → s.Created d c t
  refused : ∀ d e t, runFrom (store.create d) s = (.error e, t) → t.memory = s.memory
  succeeds : ∀ d, (∃ c t, runFrom (store.create d) s = (.ok c, t)) ↔
    d.space ≠ "" ∧ ∃ name, MayBeNamed (s.supply s.drawn) d name ∧
      s.memory.get? ⟨d.space, name⟩ = none
  taken : ∀ d key, (∃ t, runFrom (store.create d) s = (.error (.alreadyExists key), t)) ↔
    d.space ≠ "" ∧ d.name ≠ "" ∧ key = d.key ∧ s.memory.get? key ≠ none
  deleted : ∀ key, s.memory.get? key ≠ none → ∃ t, runFrom (store.delete key) s = (.ok (), t) ∧
    ∀ key', t.memory.get? key' = if key' = key then none else s.memory.get? key'
  unfound : ∀ key, s.memory.get? key = none →
    runFrom (store.delete key) s = (.error (.notFound key), s)

variable {s t : Shelf} {d c : Deployable}

/-- What becomes of a shelf when a name was looked for. -/
theorem runFrom_create_allocated (d : Deployable) (s : Shelf) :
    runFrom (store.create d) s =
      match allocateName (s.supply s.drawn) s.memory.contains d with
      | .ok name =>
        let c := d.completed name (s.supply s.drawn).uid (s.supply s.drawn).createdAt
        (.ok c, { s.afterDraw with memory := s.memory.insert c.key c })
      | .error e => (.error e, s.afterDraw) := by
  rw [runFrom_create, Memory.create, prepareForCreate]
  cases allocateName (s.supply s.drawn) s.memory.contains d <;> rfl

theorem created_of_create (h : runFrom (store.create d) s = (.ok c, t)) : s.Created d c t := by
  obtain ⟨-, hfree, -⟩ := create_ok h
  rw [runFrom_create_allocated] at h
  cases hname : allocateName (s.supply s.drawn) s.memory.contains d with
  | error e =>
    rw [hname] at h
    cases h
  | ok name =>
    rw [hname] at h
    cases h
    constructor
    case completed => rfl
    case name => exact mayBeNamed_of_allocateName hname
    case free => exact hfree
    case get? =>
      intro key
      split
      next hkey => rw [hkey, SortedMap.get?_insert_self]
      next hkey => rw [SortedMap.get?_insert_of_ne _ _ hkey]
    case undone =>
      rw [runFrom_delete, if_pos (SortedMap.contains_insert_self _ _ _)]
      exact ⟨_, rfl, SortedMap.erase_insert hfree _⟩

theorem exists_create_iff :
    (∃ c t, runFrom (store.create d) s = (.ok c, t)) ↔
      ∃ name, allocateName (s.supply s.drawn) s.memory.contains d = .ok name := by
  rw [runFrom_create_allocated]
  cases allocateName (s.supply s.drawn) s.memory.contains d <;> simp

theorem exists_create_error_iff {e : StoreError} :
    (∃ t, runFrom (store.create d) s = (.error e, t)) ↔
      allocateName (s.supply s.drawn) s.memory.contains d = .error e := by
  rw [runFrom_create_allocated]
  cases allocateName (s.supply s.drawn) s.memory.contains d <;> simp

theorem mapLaws_of_keyed (h : s.memory.Keyed) : s.MapLaws := by
  constructor
  case keyed => exact h
  case listed => rfl
  case ordered => exact h.ordered
  case inSpace => exact fun _ => rfl
  case got => exact fun _ => rfl
  case get?_iff => exact fun _ _ => h.get?_iff
  case created => exact fun _ _ _ => created_of_create
  case refused =>
    intro d e t hfailed
    rw [create_error hfailed]
    rfl
  case succeeds =>
    intro d
    simp only [exists_create_iff, exists_allocateName_iff, SortedMap.contains_eq_false_iff]
  case taken =>
    intro d key
    rw [exists_create_error_iff, allocateName_eq_alreadyExists_iff, SortedMap.contains_iff]
  case deleted =>
    intro key hthere
    rw [runFrom_delete, if_pos (SortedMap.contains_iff.mpr hthere)]
    refine ⟨_, rfl, ?_⟩
    intro key'
    split
    next hkey => rw [hkey, SortedMap.get?_erase_self]
    next hkey => rw [SortedMap.get?_erase_of_ne _ hkey]
  case unfound =>
    intro key hnone
    rw [runFrom_delete, if_neg fun hthere => SortedMap.contains_iff.mp hthere hnone]

theorem keyed_of_call (call : Store.Call) (h : s.memory.Keyed) :
    (store.call s call).2.memory.Keyed := by
  cases call with
  | list => exact h
  | get => exact h
  | create d => exact keyed_of_create rfl h
  | delete key =>
    rw [Store.call, runFrom_delete]
    split
    next => exact h.erase key
    next => exact h

/-- The store obeys the laws of a map after all calls, whatever is drawn and whatever objects it was
seeded with, also if several have one key and some have no name. -/
theorem obeys_map_laws (seed : List Deployable) (supply : Nat → Allocation) (drawn : Nat)
    (calls : List Store.Call) :
    MapLaws (store.afterCalls ⟨.ofDeployables seed, supply, drawn⟩ calls) := by
  apply mapLaws_of_keyed
  exact Store.afterCalls_invariant (P := fun t : Shelf => t.memory.Keyed)
    (fun _ call ht => keyed_of_call call ht) (Memory.keyed_ofDeployables seed) calls

/-- A seed with one key twice and with an empty name, and creates of which the last finds no free
name. -/
example :
    let d := (Deployable.new "a" "").withGenerateName "x"
    let s : Shelf := ⟨.ofDeployables [.new "a" "x", .new "a" "", .new "a" "x"],
      fun _ => ⟨["1", "2"], "u", default⟩, 0⟩
    (store.afterCalls s [.create d, .create d, .create d, .delete ⟨"a", "x1"⟩]).memory.keys =
      [⟨"a", ""⟩, ⟨"a", "x"⟩, ⟨"a", "x2"⟩] := by
  decide +kernel

end Shelf

end Ferry
