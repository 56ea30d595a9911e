import Ferry.Proofs.Store.Growth

/-!
# Stores that refuse calls

Any store can be made to refuse calls, by a plan that sees all calls so far. A
refused call does not reach the store, so the store grows as it did before. Any
store can also be watched: then its state tells of all calls that failed, be it
by refusal or by themselves.
-/
namespace Ferry

namespace Store

inductive Call where
  | list (space : Option String)
  | get (key : ObjectKey)
  | create (d : Deployable)
  | delete (key : ObjectKey)
  deriving DecidableEq

end Store

/-- A state together with the calls so far, the first one first, and the plan of refusals. -/
structure Guarded (σ : Type) where
  state : σ
  refusal? : List Store.Call → Store.Call → Option StoreError
  calls : List Store.Call

/-- A state together with the calls that failed so far, the first one first, and their causes. -/
structure Watched (σ : Type) where
  state : σ
  failures : List (Store.Call × StoreError)

namespace Store

variable {σ α : Type}

def attempt (call : Call) (x : ExceptT StoreError (StateM σ) α) :
    ExceptT StoreError (StateM (Guarded σ)) α :=
  ExceptT.mk <| modifyGetThe (Guarded σ) fun s =>
    match s.refusal? s.calls call with
    | some e => (.error e, { s with calls := s.calls ++ [call] })
    | none =>
      let (answer, state) := runFrom x s.state
      (answer, { s with state, calls := s.calls ++ [call] })

def guarded (store : Store (StateM σ)) : Store (StateM (Guarded σ)) where
  list space := attempt (.list space) (store.list space)
  get key := attempt (.get key) (store.get key)
  create d := attempt (.create d) (store.create d)
  delete key := attempt (.delete key) (store.delete key)

theorem runFrom_attempt (call : Call) (x : ExceptT StoreError (StateM σ) α) (s : Guarded σ) :
    runFrom (attempt call x) s =
      match s.refusal? s.calls call with
      | some e => (.error e, { s with calls := s.calls ++ [call] })
      | none => ((runFrom x s.state).1,
          { s with state := (runFrom x s.state).2, calls := s.calls ++ [call] }) := rfl

/-- Every call is noted, also one that is refused. -/
theorem calls_of_attempt {call : Call} {x : ExceptT StoreError (StateM σ) α} {s t : Guarded σ}
    {answer : Except StoreError α} (h : runFrom (attempt call x) s = (answer, t)) :
    t.calls = s.calls ++ [call] := by
  rw [runFrom_attempt] at h
  split at h
  · rw [← (Prod.mk.inj h).2]
  · rw [← (Prod.mk.inj h).2]

theorem attempt_ok {call : Call} {x : ExceptT StoreError (StateM σ) α} {s t : Guarded σ} {a : α}
    (h : runFrom (attempt call x) s = (.ok a, t)) : runFrom x s.state = (.ok a, t.state) := by
  rw [runFrom_attempt] at h
  split at h
  · simp at h
  · rw [Prod.mk.injEq] at h
    obtain ⟨hanswer, rfl⟩ := h
    exact Prod.ext hanswer rfl

theorem attempt_error {call : Call} {x : ExceptT StoreError (StateM σ) α} {s t : Guarded σ}
    {e : StoreError} (h : runFrom (attempt call x) s = (.error e, t)) :
    t.state = s.state ∨ runFrom x s.state = (.error e, t.state) := by
  rw [runFrom_attempt] at h
  split at h
  · rw [Prod.mk.injEq] at h
    obtain ⟨_, rfl⟩ := h
    exact .inl rfl
  · rw [Prod.mk.injEq] at h
    obtain ⟨hanswer, rfl⟩ := h
    exact .inr (Prod.ext hanswer rfl)

theorem attempt_invariant {P : σ → Prop} {call : Call} {x : ExceptT StoreError (StateM σ) α}
    (hx : ∀ {s answer t}, runFrom x s = (answer, t) → P s → P t) {s t : Guarded σ}
    {answer : Except StoreError α} (h : runFrom (attempt call x) s = (answer, t))
    (hs : P s.state) : P t.state := by
  cases answer with
  | ok a => exact hx (attempt_ok h) hs
  | error e =>
    rcases attempt_error h with hsame | hfail
    · rwa [hsame]
    · exact hx hfail hs

theorem Steady.guarded {store : Store (StateM σ)} {objects : σ → List Deployable}
    (h : store.Steady objects) : store.guarded.Steady fun s => objects s.state where
  list hlist := h.list (attempt_ok hlist)
  create hcreate := h.create (attempt_ok hcreate)
  list_error hlist := by
    rcases attempt_error hlist with hsame | hfail
    · rw [hsame]
    · exact h.list_error hfail
  create_error hcreate := by
    rcases attempt_error hcreate with hsame | hfail
    · rw [hsame]
    · exact h.create_error hfail

def watch (call : Call) (x : ExceptT StoreError (StateM σ) α) :
    ExceptT StoreError (StateM (Watched σ)) α :=
  ExceptT.mk <| modifyGetThe (Watched σ) fun s =>
    match runFrom x s.state with
    | (.ok a, state) => (.ok a, { s with state })
    | (.error e, state) => (.error e, ⟨state, s.failures ++ [(call, e)]⟩)

def watched (store : Store (StateM σ)) : Store (StateM (Watched σ)) where
  list space := watch (.list space) (store.list space)
  get key := watch (.get key) (store.get key)
  create d := watch (.create d) (store.create d)
  delete key := watch (.delete key) (store.delete key)

theorem runFrom_watch (call : Call) (x : ExceptT StoreError (StateM σ) α) (s : Watched σ) :
    runFrom (watch call x) s =
      match runFrom x s.state with
      | (.ok a, state) => (.ok a, { s with state })
      | (.error e, state) => (.error e, ⟨state, s.failures ++ [(call, e)]⟩) := rfl

theorem watch_ok {call : Call} {x : ExceptT StoreError (StateM σ) α} {s t : Watched σ} {a : α}
    (h : runFrom (watch call x) s = (.ok a, t)) :
    runFrom x s.state = (.ok a, t.state) ∧ t.failures = s.failures := by
  rw [runFrom_watch] at h
  split at h
  next b state hrun =>
    rw [Prod.mk.injEq, Except.ok.injEq] at h
    obtain ⟨rfl, rfl⟩ := h
    exact ⟨hrun, rfl⟩
  next => simp at h

theorem watch_error {call : Call} {x : ExceptT StoreError (StateM σ) α} {s t : Watched σ}
    {e : StoreError} (h : runFrom (watch call x) s = (.error e, t)) :
    runFrom x s.state = (.error e, t.state) ∧ t.failures = s.failures ++ [(call, e)] := by
  rw [runFrom_watch] at h
  split at h
  next => simp at h
  next cause state hrun =>
    rw [Prod.mk.injEq, Except.error.injEq] at h
    obtain ⟨rfl, rfl⟩ := h
    exact ⟨hrun, rfl⟩

theorem watch_invariant {P : σ → Prop} {call : Call} {x : ExceptT StoreError (StateM σ) α}
    (hx : ∀ {s answer t}, runFrom x s = (answer, t) → P s → P t) {s t : Watched σ}
    {answer : Except StoreError α} (h : runFrom (watch call x) s = (answer, t))
    (hs : P s.state) : P t.state := by
  cases answer with
  | ok a => exact hx (watch_ok h).1 hs
  | error e => exact hx (watch_error h).1 hs

theorem Steady.watched {store : Store (StateM σ)} {objects : σ → List Deployable}
    (h : store.Steady objects) : store.watched.Steady fun s => objects s.state where
  list hlist := h.list (watch_ok hlist).1
  create hcreate := h.create (watch_ok hcreate).1
  list_error hlist := h.list_error (watch_error hlist).1
  create_error hcreate := h.create_error (watch_error hcreate).1

end Store

end Ferry
