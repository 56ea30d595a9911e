import Ferry.Proofs.SortedMap
import Ferry.Proofs.Store.Growth
import Ferry.Store.Memory

/-!
# The store in memory

A shelf is a content together with a supply of what its creates draw. Lists and
gets leave a shelf as it is, and each create draws once, whether it succeeds or
not. The store grows in the sense of `Store.Steady`.
-/
namespace Ferry

namespace SortedMap

variable {κ α : Type} [Ord κ]

theorem entries_insertEntry {k : κ} {v : α} {entries : List (κ × α)}
    (h : lookupEntry k entries = none) : InsertedInto (k, v) entries (insertEntry k v entries) := by
  induction entries with
  | nil => exact ⟨[], [], rfl, rfl⟩
  | cons e rest ih =>
    unfold lookupEntry at h
    unfold insertEntry
    split at h
    · cases h
    · rename_i hne
      split
      next => exact ⟨[], e :: rest, rfl, rfl⟩
      next heq => exact absurd heq hne
      next =>
        obtain ⟨front, back, hbefore, hafter⟩ := ih h
        exact ⟨e :: front, back, by rw [hbefore]; rfl, by rw [hafter]; rfl⟩

theorem values_insert [Std.TransOrd κ] [Std.LawfulEqOrd κ] {m : SortedMap κ α} {k : κ}
    (h : m.get? k = none) (v : α) : InsertedInto v m.values (m.insert k v).values := by
  obtain ⟨front, back, hbefore, hafter⟩ := entries_insertEntry (v := v) h
  refine ⟨front.map Prod.snd, back.map Prod.snd, ?_, ?_⟩
  · simp [values, hbefore]
  · simp [values, insert, hafter]

end SortedMap

namespace Memory

/-- A content whose objects stand under their own keys. -/
def Keyed (memory : Memory) : Prop := ∀ key d, memory.get? key = some d → d.key = key

theorem Keyed.insert {memory : Memory} (h : memory.Keyed) (d : Deployable) :
    Keyed (SortedMap.insert memory d.key d) := by
  intro key d' hget
  by_cases hkey : key = d.key
  · subst hkey
    rw [SortedMap.get?_insert_self] at hget
    cases hget
    rfl
  · rw [SortedMap.get?_insert_of_ne _ _ hkey] at hget
    exact h key d' hget

theorem Keyed.erase {memory : Memory} (h : memory.Keyed) (key : ObjectKey) :
    Keyed (SortedMap.erase memory key) := by
  intro key' d hget
  by_cases hkey : key' = key
  · rw [hkey, SortedMap.get?_erase_self] at hget
    cases hget
  · rw [SortedMap.get?_erase_of_ne _ hkey] at hget
    exact h key' d hget

theorem keyed_ofDeployables (objects : List Deployable) : (ofDeployables objects).Keyed := by
  intro key d hget
  unfold ofDeployables at hget
  rw [SortedMap.get?_ofList, Option.map_eq_some_iff] at hget
  obtain ⟨e, hfind, rfl⟩ := hget
  have hmem := List.mem_of_find?_eq_some hfind
  have hkey := List.find?_some hfind
  simp only [List.mem_reverse, List.mem_map] at hmem
  obtain ⟨d, _, rfl⟩ := hmem
  simpa using hkey

theorem Keyed.get?_iff {memory : Memory} (h : memory.Keyed) {key : ObjectKey} {d : Deployable} :
    memory.get? key = some d ↔ d ∈ memory.values ∧ d.key = key := by
  rw [SortedMap.get?_eq_some_iff]
  constructor
  · intro hmem
    have hkey := h key d ((SortedMap.get?_eq_some_iff memory).mpr hmem)
    exact ⟨List.mem_map_of_mem hmem, hkey⟩
  · rintro ⟨hvalue, rfl⟩
    obtain ⟨⟨key, d'⟩, hmem, rfl⟩ := List.mem_map.mp hvalue
    have hkey := h key d' ((SortedMap.get?_eq_some_iff memory).mpr hmem)
    subst hkey
    exact hmem

theorem Keyed.map_key_values {memory : Memory} (h : memory.Keyed) :
    memory.values.map Deployable.key = memory.keys := by
  rw [SortedMap.values, SortedMap.keys, List.map_map]
  refine List.map_congr_left fun e he => ?_
  exact h e.1 e.2 ((SortedMap.get?_eq_some_iff memory).mpr he)

theorem Keyed.ordered {memory : Memory} (h : memory.Keyed) :
    (memory.values.map Deployable.key).Pairwise (compare · · = .lt) := by
  rw [h.map_key_values]
  exact memory.increasing.map _ fun _ _ hlt => hlt

theorem Keyed.nodup_keys {memory : Memory} (h : memory.Keyed) :
    (memory.values.map Deployable.key).Nodup := by
  rw [h.map_key_values]
  exact SortedMap.nodup_keys memory

theorem Keyed.values_foldl_erase {memory : Memory} (h : memory.Keyed) (keys : List ObjectKey) :
    SortedMap.values (keys.foldl SortedMap.erase memory) =
      memory.values.filter fun d => d.key ∉ keys := by
  rw [SortedMap.values, SortedMap.entries_foldl_erase, SortedMap.values, List.filter_map]
  congr 1
  apply List.filter_congr
  intro e he
  have hkey := h e.1 e.2 ((SortedMap.get?_eq_some_iff memory).mpr he)
  rw [Function.comp_apply, hkey]

theorem create_prepared {memory memory' : Memory} {allocation : Allocation} {d p : Deployable}
    (h : memory.create allocation d = .ok (p, memory')) :
    prepareForCreate allocation memory.contains d = .ok p ∧
      memory' = SortedMap.insert memory p.key p := by
  obtain ⟨created, hprepare, hcreated⟩ := exists_of_map_eq_ok h
  obtain ⟨rfl, rfl⟩ := Prod.mk.inj hcreated
  exact ⟨hprepare, rfl⟩

theorem create_ok {memory memory' : Memory} {allocation : Allocation} {d p : Deployable}
    (h : memory.create allocation d = .ok (p, memory')) :
    d.StoredAs p ∧ memory.get? p.key = none ∧ memory' = SortedMap.insert memory p.key p := by
  obtain ⟨hprepare, hmemory⟩ := create_prepared h
  obtain ⟨hstored, hfree⟩ := prepareForCreate_ok hprepare
  exact ⟨hstored, by simpa [SortedMap.contains] using hfree, hmemory⟩

end Memory

/-- A store in memory with all that its creates will draw. -/
structure Shelf where
  memory : Memory
  /-- What the creates draw, by their number. -/
  supply : Nat → Allocation
  drawn : Nat

namespace Shelf

instance : MonadStateOf Memory (StateM Shelf) where
  get := do return (← getThe Shelf).memory
  set memory := modifyThe Shelf fun shelf => { shelf with memory }
  modifyGet f := modifyGetThe Shelf fun shelf =>
    let (a, memory) := f shelf.memory
    (a, { shelf with memory })

def draw : StateM Shelf Allocation :=
  modifyGetThe Shelf fun shelf =>
    (shelf.supply shelf.drawn, { shelf with drawn := shelf.drawn + 1 })

def store : Store (StateM Shelf) := Memory.store draw

def objects (shelf : Shelf) : List Deployable := shelf.memory.values

def afterDraw (shelf : Shelf) : Shelf := { shelf with drawn := shelf.drawn + 1 }

@[simp]
theorem runFrom_list (space : Option String) (s : Shelf) :
    runFrom (store.list space) s = (.ok (inSpace space s.objects), s) := rfl

theorem runFrom_liftExcept {α : Type} (r : Except StoreError α) (s : Shelf) :
    runFrom (Memory.store.liftExcept (m := StateM Shelf) r) s = (r, s) := rfl

theorem runFrom_getMemory (s : Shelf) :
    runFrom (getThe Memory : ExceptT StoreError (StateM Shelf) Memory) s = (.ok s.memory, s) := rfl

/-- A create draws first, and the draw is used up also when the create fails. -/
theorem runFrom_create (d : Deployable) (s : Shelf) :
    runFrom (store.create d) s =
      match s.memory.create (s.supply s.drawn) d with
      | .ok (p, memory) => (.ok p, { s.afterDraw with memory })
      | .error e => (.error e, s.afterDraw) := by
  change runFrom (ExceptT.lift draw >>= _) s = _
  rw [runFrom_bind_ok (runFrom_lift draw s)]
  change runFrom _ s.afterDraw = _
  rw [runFrom_bind_ok (runFrom_getMemory s.afterDraw)]
  change runFrom (Memory.store.liftExcept (s.memory.create (s.supply s.drawn) d) >>= _)
    s.afterDraw = _
  rw [runFrom_bind, runFrom_liftExcept]
  cases s.memory.create (s.supply s.drawn) d <;> rfl

theorem memory_of_create {d p : Deployable} {s t : Shelf}
    (h : runFrom (store.create d) s = (.ok p, t)) :
    s.memory.create (s.supply s.drawn) d = .ok (p, t.memory) := by
  rw [runFrom_create] at h
  split at h
  next p' memory hcreate =>
    simp only [Prod.mk.injEq, Except.ok.injEq] at h
    obtain ⟨rfl, rfl⟩ := h
    exact hcreate
  next => simp at h

theorem create_ok {d p : Deployable} {s t : Shelf}
    (h : runFrom (store.create d) s = (.ok p, t)) :
    d.StoredAs p ∧ s.memory.get? p.key = none ∧ t.memory = s.memory.insert p.key p :=
  Memory.create_ok (memory_of_create h)

theorem name_of_create {d p : Deployable} {s t : Shelf}
    (h : runFrom (store.create d) s = (.ok p, t)) (hname : d.name = "") :
    ∃ start ending, d.metadata.generateName? = some start ∧ p.name = start ++ ending :=
  prepareForCreate_name (Memory.create_prepared (memory_of_create h)).1 hname

theorem create_error {d : Deployable} {s t : Shelf} {e : StoreError}
    (h : runFrom (store.create d) s = (.error e, t)) : t = s.afterDraw := by
  rw [runFrom_create] at h
  split at h
  · simp at h
  · exact (Prod.mk.inj h).2.symm

theorem keyed_of_create {d : Deployable} {s t : Shelf} {answer : Except StoreError Deployable}
    (h : runFrom (store.create d) s = (answer, t)) (hs : s.memory.Keyed) : t.memory.Keyed := by
  cases answer with
  | error e =>
    rw [create_error h]
    exact hs
  | ok p =>
    rw [(create_ok h).2.2]
    exact hs.insert p

theorem memory_of_list {space : Option String} {s t : Shelf}
    {answer : Except StoreError (List Deployable)}
    (h : runFrom (store.list space) s = (answer, t)) : t.memory = s.memory := by
  rw [runFrom_list, Prod.mk.injEq] at h
  rw [h.2]

theorem get?_of_create {d q : Deployable} {key : ObjectKey} {s t : Shelf}
    {answer : Except StoreError Deployable} (h : runFrom (store.create d) s = (answer, t))
    (hs : s.memory.get? key = some q) : t.memory.get? key = some q := by
  cases answer with
  | error e =>
    rw [create_error h]
    exact hs
  | ok p =>
    obtain ⟨_, hfree, hmemory⟩ := create_ok h
    have hne : key ≠ p.key := by
      rintro rfl
      rw [hfree] at hs
      cases hs
    rw [hmemory, SortedMap.get?_insert_of_ne _ _ hne]
    exact hs

/-- A delete that finds nothing leaves the shelf as it is. -/
theorem runFrom_delete (key : ObjectKey) (s : Shelf) :
    runFrom (store.delete key) s =
      if s.memory.contains key then (.ok (), { s with memory := s.memory.erase key })
      else (.error (.notFound key), s) := by
  change runFrom ((getThe Memory : ExceptT StoreError (StateM Shelf) Memory) >>= _) s = _
  rw [runFrom_bind_ok (runFrom_getMemory s)]
  change runFrom (Memory.store.liftExcept (s.memory.delete key) >>= _) s = _
  rw [runFrom_bind, runFrom_liftExcept, Memory.delete]
  by_cases hthere : s.memory.contains key = true
  · rw [if_pos hthere, if_pos hthere]
    rfl
  · rw [if_neg hthere, if_neg hthere]

theorem steady : store.Steady objects where
  list h := by
    rw [runFrom_list, Prod.mk.injEq, Except.ok.injEq] at h
    obtain ⟨rfl, rfl⟩ := h
    exact ⟨rfl, rfl⟩
  create h := by
    obtain ⟨hstored, hfree, hmemory⟩ := create_ok h
    refine ⟨hstored, ?_⟩
    unfold objects
    rw [hmemory]
    exact SortedMap.values_insert hfree _
  list_error h := by
    rw [runFrom_list] at h
    simp at h
  create_error h := by
    rw [create_error h]
    rfl

end Shelf

end Ferry
