import Ferry.Proofs.Lookup
import Ferry.Proofs.Run

/-!
# The course of a promotion

A promotion over a store with a state takes one of four courses: no channel is
eligible, the objects cannot be listed, every eligible channel gets its entry, or
a create fails on the way. Each course tells the answer, the objects stored by
the run and the state that it leaves. Nothing is assumed of the store, and no
later proof opens `promote` again.
-/
namespace Ferry.Promotion

/-- The entries of the channels that are judged without a look at the store. -/
def settled (d : Deployable) (channels : List Channel) : List (ObjectKey × Outcome) :=
  channels.filterMap (settled? d)

def eligible (d : Deployable) (channels : List Channel) : List Channel :=
  channels.filter (isEligible d)

def eligibleKeys (d : Deployable) (channels : List Channel) : List ObjectKey :=
  (eligible d channels).map Channel.key

def eligibleSpaces (d : Deployable) (channels : List Channel) : List String :=
  (eligible d channels).map Channel.space

/-- What a promotion finds for a channel in the snapshot that it works with. -/
def found? (snapshot : List Deployable) (d : Deployable) (channels : List Channel)
    (key : ObjectKey) : Option Deployable :=
  existing? (.ofSnapshot snapshot)
    (Family.ofIndex (.ofSnapshot snapshot) d (eligibleSpaces d channels)) d key

/-- The eligible channels for which a promotion finds nothing, in list order and with repeats. -/
def missing (snapshot : List Deployable) (d : Deployable) (channels : List Channel) :
    List ObjectKey :=
  (eligibleKeys d channels).filter fun key => (found? snapshot d channels key).isNone

theorem found?_eq {d : Deployable} {channels : List Channel} (h : eligibleKeys d channels ≠ [])
    (snapshot : List Deployable) (key : ObjectKey) :
    found? snapshot d channels key =
      (snapshot.reverse.find? (isChildFor d (eligibleSpaces d channels) key)).or
        (snapshot.reverse.find? (isProjectionInto d.root key)) := by
  apply existing?_ofSnapshot
  simpa [eligibleSpaces, eligibleKeys] using h

theorem mem_of_found? {d : Deployable} {channels : List Channel} {snapshot : List Deployable}
    {key : ObjectKey} {q : Deployable} (hkeys : eligibleKeys d channels ≠ [])
    (h : found? snapshot d channels key = some q) :
    q ∈ snapshot ∧ (isProjectionInto d.root key q = true ∨
      isChildFor d (eligibleSpaces d channels) key q = true) := by
  rw [found?_eq hkeys, Option.or_eq_some_iff] at h
  rcases h with hchild | ⟨_, hprojection⟩
  · have hmem := List.mem_of_find?_eq_some hchild
    exact ⟨List.mem_reverse.mp hmem, .inr (List.find?_some hchild)⟩
  · have hmem := List.mem_of_find?_eq_some hprojection
    exact ⟨List.mem_reverse.mp hmem, .inl (List.find?_some hprojection)⟩

theorem found?_eq_none_iff {d : Deployable} {channels : List Channel} {snapshot : List Deployable}
    {key : ObjectKey} (hkeys : eligibleKeys d channels ≠ []) :
    found? snapshot d channels key = none ↔
      ∀ q ∈ snapshot, isProjectionInto d.root key q = false ∧
        isChildFor d (eligibleSpaces d channels) key q = false := by
  rw [found?_eq hkeys, Option.or_eq_none_iff, List.find?_eq_none, List.find?_eq_none]
  simp only [List.mem_reverse, Bool.not_eq_true]
  exact ⟨fun h q hq => ⟨h.2 q hq, h.1 q hq⟩,
    fun h => ⟨fun q hq => (h q hq).2, fun q hq => (h q hq).1⟩⟩

variable {σ : Type} (store : Store (StateM σ)) (d : Deployable)

def createContext (key : ObjectKey) : String :=
  "failed to create projection of " ++ d.identity ++ " into " ++ key.text

/-- A stretch of the loop over eligible channels without a failure: the channels, their entries,
the objects made on the way with the channels that they are for, and the states at both ends. -/
inductive Placed (found? : ObjectKey → Option Deployable) :
    σ → List ObjectKey → List (ObjectKey × Outcome) → List (ObjectKey × Deployable) → σ → Prop
  | nil {s} : Placed found? s [] [] [] s
  | present {s s' key keys entries made q} : found? key = some q →
      Placed found? s keys entries made s' →
      Placed found? s (key :: keys) ((key, .alreadyPresent q.key) :: entries) made s'
  | created {s t s' key keys entries made p} : found? key = none →
      runFrom (store.create (project d key)) s = (.ok p, t) →
      Placed found? t keys entries made s' →
      Placed found? s (key :: keys) ((key, .created p.key) :: entries) ((key, p) :: made) s'

variable {store d} in
theorem Placed.invariant {P : σ → Prop}
    (hcreate : ∀ {d s answer t}, runFrom (store.create d) s = (answer, t) → P s → P t)
    {found? : ObjectKey → Option Deployable} {s s' : σ} {keys : List ObjectKey}
    {entries : List (ObjectKey × Outcome)} {made : List (ObjectKey × Deployable)}
    (h : Placed store d found? s keys entries made s') (hs : P s) : P s' := by
  induction h with
  | nil => exact hs
  | present _ _ ih => exact ih hs
  | created _ hmake _ ih => exact ih (hcreate hmake hs)

/-- The courses that a promotion from a state can take, by its answer, the objects that it made
and the state that it leaves. -/
inductive Course (channels : List Channel) (s : σ) :
    Except Failure PromotionReport → List (ObjectKey × Deployable) → σ → Prop
  | idle : eligibleKeys d channels = [] → Course channels s (.ok ⟨settled d channels⟩) [] s
  | unlisted {e s'} : eligibleKeys d channels ≠ [] →
      runFrom (store.list none) s = (.error e, s') →
      Course channels s
        (.error (.store ("failed to list deployables for " ++ d.identity) e)) [] s'
  | completed {snapshot t entries made s'} : eligibleKeys d channels ≠ [] →
      runFrom (store.list none) s = (.ok snapshot, t) →
      Placed store d (found? snapshot d channels) t (eligibleKeys d channels) entries made s' →
      Course channels s (.ok ⟨settled d channels ++ entries⟩) made s'
  | stopped {snapshot t done key rest entries made t' e s'} :
      eligibleKeys d channels = done ++ key :: rest →
      runFrom (store.list none) s = (.ok snapshot, t) →
      Placed store d (found? snapshot d channels) t done entries made t' →
      found? snapshot d channels key = none →
      runFrom (store.create (project d key)) t' = (.error e, s') →
      Course channels s (.error (.store (createContext d key) e)) made s'

variable {store d}

theorem runFrom_place_present (store : Store (StateM σ)) {index : SnapshotIndex}
    {family : Family} {key : ObjectKey} {q : Deployable}
    (h : existing? index family d key = some q) (s : σ) :
    runFrom (place store index family d key) s = (.ok (key, .alreadyPresent q.key), s) := by
  simp [place, h]

theorem runFrom_place_created {index : SnapshotIndex} {family : Family} {key : ObjectKey}
    {p : Deployable} {s t : σ} (h : existing? index family d key = none)
    (hcreate : runFrom (store.create (project d key)) s = (.ok p, t)) :
    runFrom (place store index family d key) s = (.ok (key, .created p.key), t) := by
  simp only [place, h]
  rw [runFrom_bind_ok (runFrom_adapt_ok hcreate), runFrom_pure]

theorem runFrom_place_error {index : SnapshotIndex} {family : Family} {key : ObjectKey}
    {e : StoreError} {s t : σ} (h : existing? index family d key = none)
    (hcreate : runFrom (store.create (project d key)) s = (.error e, t)) :
    runFrom (place store index family d key) s =
      (.error (.store (createContext d key) e), t) := by
  simp only [place, h]
  exact runFrom_bind_error (runFrom_adapt_error hcreate)

/-- The loop either gives every channel its entry or ends at the first create that fails. -/
theorem placeEach_course (store : Store (StateM σ)) (d : Deployable) (index : SnapshotIndex)
    (family : Family) (channels : List Channel) (s : σ) :
    (∃ entries made s',
      runFrom (channels.mapM fun c => place store index family d c.key) s = (.ok entries, s') ∧
        Placed store d (existing? index family d) s (channels.map Channel.key) entries made s') ∨
    ∃ done key rest entries made t e s',
      channels.map Channel.key = done ++ key :: rest ∧
        Placed store d (existing? index family d) s done entries made t ∧
        existing? index family d key = none ∧
        runFrom (store.create (project d key)) t = (.error e, s') ∧
        runFrom (channels.mapM fun c => place store index family d c.key) s =
          (.error (.store (createContext d key) e), s') := by
  induction channels generalizing s with
  | nil => exact .inl ⟨[], [], s, rfl, .nil⟩
  | cons c channels ih =>
    simp only [List.mapM_cons, List.map_cons]
    cases hfound : existing? index family d c.key with
    | some q =>
      have hplace := runFrom_place_present store hfound s
      rcases ih s with ⟨entries, made, s', hrun, hplaced⟩ |
        ⟨done, key, rest, entries, made, t, e, s', hkeys, hplaced, hnone, hcreate, hrun⟩
      · refine .inl ⟨_, made, s', ?_, .present hfound hplaced⟩
        rw [runFrom_bind_ok hplace, runFrom_bind_ok hrun, runFrom_pure]
      · refine .inr ⟨c.key :: done, key, rest, _, made, t, e, s', by rw [hkeys]; rfl,
          .present hfound hplaced, hnone, hcreate, ?_⟩
        rw [runFrom_bind_ok hplace, runFrom_bind_error hrun]
    | none =>
      rcases hcreate : runFrom (store.create (project d c.key)) s with ⟨e | p, t⟩
      · refine .inr ⟨[], c.key, _, [], [], s, e, t, rfl, .nil, hfound, hcreate, ?_⟩
        rw [runFrom_bind_error (runFrom_place_error hfound hcreate)]
      · have hplace := runFrom_place_created hfound hcreate
        rcases ih t with ⟨entries, made, s', hrun, hplaced⟩ |
          ⟨done, key, rest, entries, made, t', e, s', hkeys, hplaced, hnone, hfail, hrun⟩
        · refine .inl ⟨_, (c.key, p) :: made, s', ?_, .created hfound hcreate hplaced⟩
          rw [runFrom_bind_ok hplace, runFrom_bind_ok hrun, runFrom_pure]
        · refine .inr ⟨c.key :: done, key, rest, _, (c.key, p) :: made, t', e, s',
            by rw [hkeys]; rfl, .created hfound hcreate hplaced, hnone, hfail, ?_⟩
          rw [runFrom_bind_ok hplace, runFrom_bind_error hrun]

/-- `promote` in the words of this module. -/
theorem promote_eq (store : Store (StateM σ)) (d : Deployable) (channels : List Channel) :
    promote store d channels = (do
      let snapshot ← if (eligible d channels).isEmpty then pure [] else listSnapshot store d
      let placed ← (eligible d channels).mapM fun c =>
        place store (.ofSnapshot snapshot)
          (Family.ofIndex (.ofSnapshot snapshot) d (eligibleSpaces d channels)) d c.key
      return ⟨settled d channels ++ placed⟩) := rfl

theorem Course.invariant {P : σ → Prop}
    (hlist : ∀ {s answer t}, runFrom (store.list none) s = (answer, t) → P s → P t)
    (hcreate : ∀ {d s answer t}, runFrom (store.create d) s = (answer, t) → P s → P t)
    {channels : List Channel} {s s' : σ} {result : Except Failure PromotionReport}
    {made : List (ObjectKey × Deployable)} (h : Course store d channels s result made s')
    (hs : P s) : P s' := by
  cases h with
  | idle => exact hs
  | unlisted _ hlisted => exact hlist hlisted hs
  | completed _ hlisted hplaced => exact hplaced.invariant hcreate (hlist hlisted hs)
  | stopped _ hlisted hplaced _ hfail =>
    exact hcreate hfail (hplaced.invariant hcreate (hlist hlisted hs))

/-- Every promotion takes one of the courses. -/
theorem promote_course (store : Store (StateM σ)) (d : Deployable) (channels : List Channel)
    (s : σ) :
    ∃ made, Course store d channels s (runFrom (promote store d channels) s).1 made
      (runFrom (promote store d channels) s).2 := by
  rw [promote_eq]
  by_cases hnone : eligible d channels = []
  · refine ⟨[], ?_⟩
    have hkeys : eligibleKeys d channels = [] := by simp [eligibleKeys, hnone]
    simp only [hnone, List.isEmpty_nil, if_true, List.mapM_nil, runFrom_bind, runFrom_pure,
      List.append_nil]
    exact .idle hkeys
  · have hkeys : eligibleKeys d channels ≠ [] := by simpa [eligibleKeys] using hnone
    have hsome : (eligible d channels).isEmpty = false := by simpa using hnone
    simp only [hsome, Bool.false_eq_true, if_false]
    rcases hlist : runFrom (store.list none) s with ⟨e | snapshot, t⟩
    · have hlisted : runFrom (listSnapshot store d) s =
          (.error (.store ("failed to list deployables for " ++ d.identity) e), t) :=
        runFrom_adapt_error hlist
      rw [runFrom_bind_error hlisted]
      exact ⟨[], .unlisted hkeys hlist⟩
    · have hlisted : runFrom (listSnapshot store d) s = (.ok snapshot, t) :=
        runFrom_adapt_ok hlist
      rw [runFrom_bind_ok hlisted]
      rcases placeEach_course store d (.ofSnapshot snapshot)
        (Family.ofIndex (.ofSnapshot snapshot) d (eligibleSpaces d channels))
        (eligible d channels) t with ⟨entries, made, s', hrun, hplaced⟩ |
        ⟨done, key, rest, entries, made, t', e, s', hsplit, hplaced, hmissing, hcreate, hrun⟩
      · rw [runFrom_bind_ok hrun]
        exact ⟨made, .completed hkeys hlist hplaced⟩
      · rw [runFrom_bind_error hrun]
        exact ⟨made, .stopped hsplit hlist hplaced hmissing hcreate⟩

theorem course_of_run {channels : List Channel} {s s' : σ} {result : Except Failure PromotionReport}
    (h : runFrom (promote store d channels) s = (result, s')) :
    ∃ made, Course store d channels s result made s' := by
  obtain ⟨made, hcourse⟩ := promote_course store d channels s
  rw [h] at hcourse
  exact ⟨made, hcourse⟩

end Ferry.Promotion
