import Ferry.Proofs.Run
import Ferry.Proofs.Store.Refusal

/-!
# Sequences of calls

A sequence of calls leads a store through states. Each step of it is a call with
its answer and with the states before and after it, so that two stores can be
compared step by step.
-/
namespace Ferry.Store

inductive Answer where
  | listed (answer : Except StoreError (List Deployable))
  | got (answer : Except StoreError (Option Deployable))
  | created (answer : Except StoreError Deployable)
  | deleted (answer : Except StoreError Unit)

namespace Answer

def failure? : Answer → Option StoreError
  | listed (.error e) | got (.error e) | created (.error e) | deleted (.error e) => some e
  | listed (.ok _) | got (.ok _) | created (.ok _) | deleted (.ok _) => none

/-- Answers that differ at most in the order of a list. A list or a get did not fail. -/
inductive Alike : Answer → Answer → Prop
  | listed {objects objects' : List Deployable} (perm : objects.Perm objects') :
      Alike (.listed (.ok objects)) (.listed (.ok objects'))
  | got (found : Option Deployable) : Alike (.got (.ok found)) (.got (.ok found))
  | created (answer : Except StoreError Deployable) : Alike (.created answer) (.created answer)
  | deleted (answer : Except StoreError Unit) : Alike (.deleted answer) (.deleted answer)

end Answer

variable {σ : Type}

def call (store : Store (StateM σ)) (s : σ) : Call → Answer × σ
  | .list space => (runFrom (store.list space) s).map .listed id
  | .get key => (runFrom (store.get key) s).map .got id
  | .create d => (runFrom (store.create d) s).map .created id
  | .delete key => (runFrom (store.delete key) s).map .deleted id

structure Step (σ : Type) where
  call : Call
  before : σ
  answer : Answer
  after : σ

def steps (store : Store (StateM σ)) : σ → List Call → List (Step σ)
  | _, [] => []
  | s, call :: calls =>
    let (answer, t) := store.call s call
    ⟨call, s, answer, t⟩ :: store.steps t calls

def afterCalls (store : Store (StateM σ)) (s : σ) (calls : List Call) : σ :=
  calls.foldl (fun t call => (store.call t call).2) s

theorem afterCalls_invariant {store : Store (StateM σ)} {P : σ → Prop}
    (hcall : ∀ s call, P s → P (store.call s call).2) {s : σ} (hs : P s) (calls : List Call) :
    P (store.afterCalls s calls) := by
  induction calls generalizing s with
  | nil => exact hs
  | cons call calls ih => exact ih (hcall s call hs)

end Ferry.Store
