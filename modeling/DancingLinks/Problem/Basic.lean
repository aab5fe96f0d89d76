/-! Exact cover problems: possibilities to choose from and constraints on the choice. A constraint
has to be satisfied by exactly one chosen possibility, an optional one by at most one. -/
namespace DancingLinks

structure Problem (P C : Type) where
  possibilities : List P
  constraints : List C
  satisfies : P → C → Bool
  isOptional : C → Bool
  label : C → String

namespace Problem

variable {P C : Type}

def satisfied (problem : Problem P C) (possibility : P) : List Nat :=
  (problem.constraints.zipIdx.filter fun (constraint, _) =>
    problem.satisfies possibility constraint).map Prod.snd

def delegate (problem : Problem P C) : Problem P C where
  possibilities := problem.possibilities
  constraints := problem.constraints
  satisfies possibility constraint := problem.satisfies possibility constraint
  isOptional constraint := problem.isOptional constraint
  label constraint := problem.label constraint

end Problem

end DancingLinks
