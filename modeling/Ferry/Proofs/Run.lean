/-!
# Runs over a state

A store over a state answers each call and moves on to another state, also when
it refuses the call. `runFrom` is the pair of both. The lemmas take a run apart
along the operations of the monad, so that no later proof looks inside it.
-/
namespace Ferry

variable {ε ε' σ α β : Type}

theorem eq_ok_of_toOption {x : Except ε α} {a : α} (h : x.toOption = some a) : x = .ok a := by
  cases x with
  | error e => simp [Except.toOption] at h
  | ok b => simpa [Except.toOption] using h

theorem exists_eq_error_of_toOption {x : Except ε α} (h : x.toOption = none) :
    ∃ e, x = .error e := by
  cases x with
  | error e => exact ⟨e, rfl⟩
  | ok a => simp [Except.toOption] at h

/-- What a computation answers from a state, and the state that it leaves. -/
def runFrom (x : ExceptT ε (StateM σ) α) (s : σ) : Except ε α × σ := StateT.run x.run s

@[simp]
theorem runFrom_pure (a : α) (s : σ) :
    runFrom (pure a : ExceptT ε (StateM σ) α) s = (.ok a, s) := rfl

@[simp]
theorem runFrom_throw (e : ε) (s : σ) :
    runFrom (throw e : ExceptT ε (StateM σ) α) s = (.error e, s) := rfl

@[simp]
theorem runFrom_lift (x : StateM σ α) (s : σ) :
    runFrom (ExceptT.lift x : ExceptT ε (StateM σ) α) s =
      (.ok (StateT.run x s).1, (StateT.run x s).2) := rfl

/-- A failure ends the run, and the state stays as the failing part left it. -/
theorem runFrom_bind (x : ExceptT ε (StateM σ) α) (f : α → ExceptT ε (StateM σ) β) (s : σ) :
    runFrom (x >>= f) s =
      match runFrom x s with
      | (.ok a, t) => runFrom (f a) t
      | (.error e, t) => (.error e, t) := by
  change (ExceptT.bindCont f (runFrom x s).1) (runFrom x s).2 = _
  rcases runFrom x s with ⟨_ | _, t⟩ <;> rfl

theorem runFrom_bind_ok {x : ExceptT ε (StateM σ) α} {f : α → ExceptT ε (StateM σ) β}
    {s t : σ} {a : α} (h : runFrom x s = (.ok a, t)) : runFrom (x >>= f) s = runFrom (f a) t := by
  rw [runFrom_bind, h]

theorem runFrom_bind_error {x : ExceptT ε (StateM σ) α} {f : α → ExceptT ε (StateM σ) β}
    {s t : σ} {e : ε} (h : runFrom x s = (.error e, t)) :
    runFrom (x >>= f) s = (.error e, t) := by
  rw [runFrom_bind, h]

theorem runFrom_bind_eq_ok {x : ExceptT ε (StateM σ) α} {f : α → ExceptT ε (StateM σ) β}
    {s s' : σ} {b : β} (h : runFrom (x >>= f) s = (.ok b, s')) :
    ∃ a t, runFrom x s = (.ok a, t) ∧ runFrom (f a) t = (.ok b, s') := by
  rw [runFrom_bind] at h
  rcases hx : runFrom x s with ⟨e | a, t⟩
  · simp [hx] at h
  · exact ⟨a, t, rfl, by simpa [hx] using h⟩

theorem runFrom_bind_eq_error {x : ExceptT ε (StateM σ) α} {f : α → ExceptT ε (StateM σ) β}
    {s s' : σ} {e : ε} (h : runFrom (x >>= f) s = (.error e, s')) :
    runFrom x s = (.error e, s') ∨
      ∃ a t, runFrom x s = (.ok a, t) ∧ runFrom (f a) t = (.error e, s') := by
  rw [runFrom_bind] at h
  rcases hx : runFrom x s with ⟨e' | a, t⟩
  · exact .inl (by simpa [hx] using h)
  · exact .inr ⟨a, t, rfl, by simpa [hx] using h⟩

theorem runFrom_adapt (g : ε → ε') (x : ExceptT ε (StateM σ) α) (s : σ) :
    runFrom (x.adapt g) s = ((runFrom x s).1.mapError g, (runFrom x s).2) := rfl

theorem runFrom_adapt_ok {g : ε → ε'} {x : ExceptT ε (StateM σ) α} {s t : σ} {a : α}
    (h : runFrom x s = (.ok a, t)) : runFrom (x.adapt g) s = (.ok a, t) := by
  rw [runFrom_adapt, h]
  rfl

theorem runFrom_adapt_error {g : ε → ε'} {x : ExceptT ε (StateM σ) α} {s t : σ} {e : ε}
    (h : runFrom x s = (.error e, t)) : runFrom (x.adapt g) s = (.error (g e), t) := by
  rw [runFrom_adapt, h]
  rfl

theorem runFrom_adapt_eq_ok {g : ε → ε'} {x : ExceptT ε (StateM σ) α} {s t : σ} {a : α}
    (h : runFrom (x.adapt g) s = (.ok a, t)) : runFrom x s = (.ok a, t) := by
  rw [runFrom_adapt, Prod.mk.injEq] at h
  obtain ⟨hanswer, rfl⟩ := h
  cases hx : (runFrom x s).1 with
  | error e =>
    rw [hx] at hanswer
    cases hanswer
  | ok b =>
    rw [hx] at hanswer
    cases hanswer
    exact Prod.ext hx rfl

theorem runFrom_adapt_eq_error {g : ε → ε'} {x : ExceptT ε (StateM σ) α} {s t : σ} {e' : ε'}
    (h : runFrom (x.adapt g) s = (.error e', t)) : ∃ e, runFrom x s = (.error e, t) ∧ g e = e' := by
  rw [runFrom_adapt, Prod.mk.injEq] at h
  obtain ⟨hanswer, rfl⟩ := h
  cases hx : (runFrom x s).1 with
  | ok b =>
    rw [hx] at hanswer
    cases hanswer
  | error e =>
    rw [hx] at hanswer
    exact ⟨e, Prod.ext hx rfl, Except.error.inj hanswer⟩

end Ferry
