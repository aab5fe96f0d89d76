/-! Reasons for which a step has no meaning on the structure it is applied to. A torus that was
built by its own operations and is covered and uncovered in nested order never meets one; torn
rings, sizes that would fall below zero and rows of another problem do. -/
namespace DancingLinks

inductive Fault where
  | noSite (site : Nat)
  | noColumn (column : Nat)
  | noRow (row : Nat)
  | noPlace
  | emptyColumn (column : Nat)
  | openRing (start : Nat)
  | lostPath
  | endless
  deriving DecidableEq, Repr

end DancingLinks
