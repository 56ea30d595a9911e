import Ferry.Proofs.Projection
import Ferry.Proofs.Promotion.Course

/-!
# The objects that a promotion makes

The objects made on a course are projections of the deployable into eligible
channels for which the store showed none before, and the entries with the
outcome `created` are about them, whatever way the course ends.
-/
namespace Ferry

def Outcome.created? : Outcome → Option ObjectKey
  | .created key => some key
  | _ => none

namespace Promotion

/-- The channels of the entries that tell of a new object, with its key. -/
def createdIn (entries : List (ObjectKey × Outcome)) : List (ObjectKey × ObjectKey) :=
  entries.filterMap fun (channel, outcome) => outcome.created?.map fun key => (channel, key)

/-- What the answer of a promotion tells of new objects: nothing if it failed. -/
def createdOf : Except Failure PromotionReport → List (ObjectKey × ObjectKey)
  | .ok report => createdIn report.outcomes
  | .error _ => []

theorem createdIn_append (entries entries' : List (ObjectKey × Outcome)) :
    createdIn (entries ++ entries') = createdIn entries ++ createdIn entries' :=
  List.filterMap_append

theorem mem_createdIn {entries : List (ObjectKey × Outcome)} {channel key : ObjectKey} :
    (channel, key) ∈ createdIn entries ↔ (channel, .created key) ∈ entries := by
  unfold createdIn
  rw [List.mem_filterMap]
  constructor
  · rintro ⟨⟨channel', outcome⟩, hmem, heq⟩
    cases outcome <;> simp [Outcome.created?] at heq
    obtain ⟨rfl, rfl⟩ := heq
    exact hmem
  · intro hmem
    exact ⟨_, hmem, rfl⟩

theorem settled?_eq_some {d : Deployable} {c : Channel} {e : ObjectKey × Outcome}
    (h : settled? d c = some e) : e.1 = c.key ∧ (e.2 = .resident ∨ e.2 = .denied) := by
  unfold settled? at h
  split at h
  · cases h
    exact ⟨rfl, .inl rfl⟩
  · split at h
    · cases h
    · cases h
      exact ⟨rfl, .inr rfl⟩

theorem outcome_of_mem_settled {d : Deployable} {channels : List Channel}
    {e : ObjectKey × Outcome} (he : e ∈ settled d channels) : e.2 = .resident ∨ e.2 = .denied := by
  obtain ⟨c, _, hc⟩ := List.mem_filterMap.mp he
  exact (settled?_eq_some hc).2

theorem created?_of_mem_settled {d : Deployable} {channels : List Channel}
    {e : ObjectKey × Outcome} (he : e ∈ settled d channels) : e.2.created? = none := by
  rcases outcome_of_mem_settled he with h | h <;> rw [h] <;> rfl

theorem createdIn_settled (d : Deployable) (channels : List Channel) :
    createdIn (settled d channels) = [] := by
  unfold createdIn
  rw [List.filterMap_eq_nil_iff]
  intro e he
  simp [created?_of_mem_settled he]

/-- The objects before and after a promotion that put new projections among them. -/
structure Kept (d : Deployable) (made : List (ObjectKey × Deployable))
    (before after : List Deployable) : Prop where
  stored : ∀ m ∈ made, (project d m.1).StoredAs m.2
  grown : Grown (made.map Prod.snd) before after

section Kept

variable {d : Deployable} {channels : List Channel} {made : List (ObjectKey × Deployable)}
  {before after : List Deployable}

theorem Kept.nil (d : Deployable) (objects : List Deployable) : Kept d [] objects objects :=
  ⟨by simp, .nil⟩

theorem Kept.cons {key : ObjectKey} {p : Deployable} {middle : List Deployable}
    (hstored : (project d key).StoredAs p) (hinserted : InsertedInto p before middle)
    (h : Kept d made middle after) : Kept d ((key, p) :: made) before after :=
  ⟨List.forall_mem_cons.mpr ⟨hstored, h.stored⟩, .cons hinserted h.grown⟩

theorem Kept.mem_of_before (h : Kept d made before after) {q : Deployable} (hq : q ∈ before) :
    q ∈ after :=
  h.grown.mem_iff.mpr (.inl hq)

theorem Kept.mem_of_made (h : Kept d made before after) {m : ObjectKey × Deployable}
    (hm : m ∈ made) : m.2 ∈ after :=
  h.grown.mem_iff.mpr (.inr (List.mem_map_of_mem hm))

theorem Kept.mem_before_or_made (h : Kept d made before after) {p : Deployable} (hp : p ∈ after) :
    p ∈ before ∨ ∃ m ∈ made, m.2 = p := by
  rcases h.grown.mem_iff.mp hp with hold | hnew
  · exact .inl hold
  · exact .inr (List.mem_map.mp hnew)

theorem Kept.projects (h : Kept d made before after) {m : ObjectKey × Deployable} (hm : m ∈ made) :
    isProjectionInto d.root m.1 m.2 = true :=
  isProjectionInto_of_storedAs (h.stored m hm)

theorem found?_of_made (hmissing : made.map Prod.fst = missing before d channels)
    {m : ObjectKey × Deployable} (hm : m ∈ made) :
    m.1 ∈ eligibleKeys d channels ∧ found? before d channels m.1 = none := by
  have hmem : m.1 ∈ missing before d channels := by
    rw [← hmissing]
    exact List.mem_map_of_mem hm
  obtain ⟨hkey, hnone⟩ := List.mem_filter.mp hmem
  exact ⟨hkey, Option.isNone_iff_eq_none.mp hnone⟩

theorem exists_made (hmissing : made.map Prod.fst = missing before d channels) {key : ObjectKey}
    (hkey : key ∈ eligibleKeys d channels) (hnone : found? before d channels key = none) :
    ∃ m ∈ made, m.1 = key := by
  have hmem : key ∈ made.map Prod.fst := by
    rw [hmissing]
    exact List.mem_filter.mpr ⟨hkey, by simp [hnone]⟩
  exact List.mem_map.mp hmem

end Kept

variable {σ : Type} {store : Store (StateM σ)} {objects : σ → List Deployable} {d : Deployable}
  {channels : List Channel} {s s' : σ} {made : List (ObjectKey × Deployable)}

section Placed

variable {found? : ObjectKey → Option Deployable} {keys : List ObjectKey}
  {entries : List (ObjectKey × Outcome)}

theorem Placed.entry_keys (h : Placed store d found? s keys entries made s') :
    entries.map Prod.fst = keys := by
  induction h with
  | nil => rfl
  | present _ _ ih => rw [List.map_cons, ih]
  | created _ _ _ ih => rw [List.map_cons, ih]

/-- New objects are made for exactly the channels for which nothing was found. -/
theorem Placed.made_keys (h : Placed store d found? s keys entries made s') :
    made.map Prod.fst = keys.filter fun key => (found? key).isNone := by
  induction h with
  | nil => rfl
  | present hfound _ ih => simp [ih, hfound]
  | created hfound _ _ ih => simp [ih, hfound]

theorem Placed.createdIn (h : Placed store d found? s keys entries made s') :
    createdIn entries = made.map fun m => (m.1, m.2.key) := by
  induction h with
  | nil => rfl
  | present _ _ ih => simpa [Promotion.createdIn, Outcome.created?] using ih
  | created _ _ _ ih => simpa [Promotion.createdIn, Outcome.created?] using ih

theorem Placed.mem_made (h : Placed store d found? s keys entries made s')
    {channel key : ObjectKey} (he : (channel, .created key) ∈ entries) :
    ∃ p, (channel, p) ∈ made ∧ p.key = key := by
  rw [← mem_createdIn, h.createdIn] at he
  obtain ⟨⟨channel', p⟩, hmem, heq⟩ := List.mem_map.mp he
  obtain ⟨rfl, rfl⟩ := Prod.mk.inj heq
  exact ⟨p, hmem, rfl⟩

theorem Placed.exists_found (h : Placed store d found? s keys entries made s')
    {channel key : ObjectKey} (he : (channel, .alreadyPresent key) ∈ entries) :
    ∃ q, found? channel = some q ∧ q.key = key := by
  induction h with
  | nil => cases he
  | present hfound _ ih =>
    rcases List.mem_cons.mp he with heq | he
    · cases heq
      exact ⟨_, hfound, rfl⟩
    · exact ih he
  | created _ _ _ ih =>
    rcases List.mem_cons.mp he with heq | he
    · cases heq
    · exact ih he

theorem Placed.kept (hstore : store.Steady objects)
    (h : Placed store d found? s keys entries made s') : Kept d made (objects s) (objects s') := by
  induction h with
  | nil => exact .nil d _
  | present _ _ ih => exact ih
  | created _ hcreate _ ih =>
    obtain ⟨hstored, hinserted⟩ := hstore.create hcreate
    exact .cons hstored hinserted ih

end Placed

theorem Placed.fresh {snapshot : List Deployable} {keys : List ObjectKey}
    {entries : List (ObjectKey × Outcome)} (hkeys : eligibleKeys d channels ≠ [])
    (h : Placed store d (found? snapshot d channels) s keys entries made s') :
    ∀ m ∈ made, ∀ q ∈ snapshot, isProjectionInto d.root m.1 q = false := by
  intro m hm
  have hmem : m.1 ∈ keys.filter fun key => (found? snapshot d channels key).isNone := by
    rw [← h.made_keys]
    exact List.mem_map_of_mem hm
  have hnone := Option.isNone_iff_eq_none.mp (List.mem_filter.mp hmem).2
  intro q hq
  exact ((found?_eq_none_iff hkeys).mp hnone q hq).1

variable {result : Except Failure PromotionReport}

namespace Course

variable (h : Course store d channels s result made s')
include h

theorem made_sublist : (made.map Prod.fst).Sublist (eligibleKeys d channels) := by
  cases h with
  | idle => simp
  | unlisted => simp
  | completed _ _ hplaced =>
    rw [hplaced.made_keys]
    exact List.filter_sublist
  | stopped hkeys _ hplaced _ _ =>
    rw [hplaced.made_keys, hkeys]
    exact List.filter_sublist.trans (List.sublist_append_left _ _)

theorem created_of_ok {report : PromotionReport} (hok : result = .ok report) :
    createdOf result = made.map fun m => (m.1, m.2.key) := by
  cases h with
  | idle => simp [createdOf, createdIn_settled]
  | unlisted => cases hok
  | completed _ _ hplaced =>
    simp [createdOf, createdIn_append, createdIn_settled, hplaced.createdIn]
  | stopped => cases hok

theorem exists_made_of_created {report : PromotionReport} (hok : result = .ok report)
    {channel key : ObjectKey} (hcreated : (channel, .created key) ∈ report.outcomes) :
    ∃ p, (channel, p) ∈ made ∧ p.key = key := by
  have hall := h.created_of_ok hok
  have htold : (channel, key) ∈ createdOf result := by
    rw [hok]
    exact mem_createdIn.mpr hcreated
  rw [hall] at htold
  obtain ⟨⟨channel', p⟩, hp, hsame⟩ := List.mem_map.mp htold
  obtain ⟨rfl, rfl⟩ := Prod.mk.inj hsame
  exact ⟨p, hp, rfl⟩

theorem created : (createdOf result).Sublist (made.map fun m => (m.1, m.2.key)) := by
  cases result with
  | error e => exact List.nil_sublist _
  | ok report =>
    have hall := h.created_of_ok rfl
    exact hall ▸ List.Sublist.refl _

theorem kept (hstore : store.Steady objects) : Kept d made (objects s) (objects s') := by
  cases h with
  | idle => exact .nil d _
  | unlisted _ hlist =>
    rw [hstore.list_error hlist]
    exact .nil d _
  | completed _ hlist hplaced =>
    rw [← (hstore.list hlist).2]
    exact hplaced.kept hstore
  | stopped _ hlist hplaced _ hcreate =>
    rw [← (hstore.list hlist).2, hstore.create_error hcreate]
    exact hplaced.kept hstore

theorem fresh (hstore : store.Steady objects) :
    ∀ m ∈ made, ∀ q ∈ objects s, isProjectionInto d.root m.1 q = false := by
  cases h with
  | idle => simp
  | unlisted => simp
  | completed hkeys hlist hplaced =>
    have hshown := (hstore.list hlist).1
    rw [inSpace_none] at hshown
    subst hshown
    exact hplaced.fresh hkeys
  | stopped hkeys hlist hplaced _ _ =>
    have hshown := (hstore.list hlist).1
    rw [inSpace_none] at hshown
    subst hshown
    exact hplaced.fresh (by simp [hkeys])

end Course

end Promotion

end Ferry
