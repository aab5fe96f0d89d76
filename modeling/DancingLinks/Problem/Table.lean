import DancingLinks.Problem.Basic
/-! Problems given as a table: possibilities and constraints have names and are told apart by their
positions, and each possibility lists the constraints that it satisfies. -/
namespace DancingLinks

structure Table where
  possibilities : List String
  constraints : List String
  optional : List Nat
  satisfies : List (List Nat)
  deriving DecidableEq, Repr

namespace Table

def problem (table : Table) : Problem (Nat × String) (Nat × String) where
  possibilities := table.possibilities.zipIdx.map Prod.swap
  constraints := table.constraints.zipIdx.map Prod.swap
  satisfies possibility constraint :=
    (table.satisfies.getD possibility.1 []).contains constraint.1
  isOptional constraint := table.optional.contains constraint.1
  label := Prod.snd

end Table

end DancingLinks
