import Ferry.SortedMap

/-!
# Identities of objects

An object is known by the namespace it lives in and its name there. The identity
text joins both with a slash; reading accepts exactly the texts with one slash
and something on either side of it, and gives back the key whose text it is.
-/
namespace Ferry

/-- A name within a namespace. -/
structure ObjectKey where
  space : String
  name : String
  deriving DecidableEq, Repr, Inhabited

namespace ObjectKey

/-- Keys are ordered by namespace, then by name. -/
instance : Ord ObjectKey := ⟨compareLex (compareOn space) (compareOn name)⟩

instance : Std.TransOrd ObjectKey :=
  inferInstanceAs (Std.TransCmp (compareLex (compareOn space) (compareOn name)))

instance : Std.LawfulEqOrd ObjectKey where
  eq_of_compare {a b} h := by
    have h' : (compare a.space b.space).then (compare a.name b.name) = .eq := h
    rw [Ordering.then_eq_eq] at h'
    cases a
    cases b
    simp_all

/-- The identity text. -/
def text (k : ObjectKey) : String := k.space ++ "/" ++ k.name

/-- The key with a given identity text. -/
def parse? (s : String) : Option ObjectKey :=
  let space := s.toList.takeWhile (· ≠ '/')
  match s.toList.dropWhile (· ≠ '/') with
  | '/' :: name =>
    if space = [] ∨ name = [] ∨ '/' ∈ name then none
    else some ⟨String.ofList space, String.ofList name⟩
  | _ => none

/-- What is said of a text that is no identity. -/
def refusal (s : String) : String :=
  "Invalid reference '" ++ s ++ "': expected namespace/name"

end ObjectKey

end Ferry
