import Ferry.Proofs.Run

/-!
# Computations that only read

A computation over a state that leaves every state as it is, whatever it answers.
Computations that are made of such ones are such ones too.
-/
namespace Ferry

variable {σ α β ε ε' : Type}

def ReadOnly (x : StateM σ α) : Prop := ∀ s, (StateT.run x s).2 = s

namespace ReadOnly

theorem pure (a : α) : ReadOnly (Pure.pure a : StateM σ α) := fun _ => rfl

theorem bind {x : StateM σ α} {f : α → StateM σ β} (hx : ReadOnly x) (hf : ∀ a, ReadOnly (f a)) :
    ReadOnly (x >>= f) := by
  intro s
  change (StateT.run (f (StateT.run x s).1) (StateT.run x s).2).2 = s
  rw [hf, hx]

end ReadOnly

/-! Computations that may fail. -/

theorem runFrom_of_readOnly {x : ExceptT ε (StateM σ) α} (h : ReadOnly x.run) {s s' : σ}
    {answer : Except ε α} (hx : runFrom x s = (answer, s')) : s' = s := by
  rw [← h s]
  exact (congrArg Prod.snd hx).symm

/-- After a part that only reads, a run that fails has either changed nothing or failed later. -/
theorem eq_or_exists_of_bind_eq_error {x : ExceptT ε (StateM σ) α}
    {f : α → ExceptT ε (StateM σ) β} (hx : ReadOnly x.run) {s s' : σ} {e : ε}
    (h : runFrom (x >>= f) s = (.error e, s')) :
    s' = s ∨ ∃ a, runFrom x s = (.ok a, s) ∧ runFrom (f a) s = (.error e, s') := by
  rcases runFrom_bind_eq_error h with hfail | ⟨a, t, ha, hfail⟩
  · exact .inl (runFrom_of_readOnly hx hfail)
  · obtain rfl := runFrom_of_readOnly hx ha
    exact .inr ⟨a, ha, hfail⟩

namespace ReadOnly

theorem except_pure (a : α) : ReadOnly (Pure.pure a : ExceptT ε (StateM σ) α).run := fun _ => rfl

theorem except_bind {x : ExceptT ε (StateM σ) α} {f : α → ExceptT ε (StateM σ) β}
    (hx : ReadOnly x.run) (hf : ∀ a, ReadOnly (f a).run) : ReadOnly (x >>= f).run := by
  change ReadOnly (x.run >>= ExceptT.bindCont f)
  apply ReadOnly.bind hx
  intro answer
  cases answer with
  | error e => exact ReadOnly.pure _
  | ok a => exact hf a

theorem except_adapt {x : ExceptT ε (StateM σ) α} (hx : ReadOnly x.run) (g : ε → ε') :
    ReadOnly (x.adapt g).run :=
  fun s => hx s

theorem except_mapM {f : α → ExceptT ε (StateM σ) β} (hf : ∀ a, ReadOnly (f a).run)
    (l : List α) : ReadOnly (l.mapM f).run := by
  induction l with
  | nil => exact except_pure []
  | cons a l ih =>
    rw [List.mapM_cons]
    apply except_bind (hf a)
    intro b
    apply except_bind ih
    intro bs
    exact except_pure _

end ReadOnly

end Ferry
