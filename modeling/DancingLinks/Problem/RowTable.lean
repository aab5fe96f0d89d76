import DancingLinks.Problem.Basic
/-! Which possibility became which row. Only possibilities that satisfy a constraint do, in their
order, so that the positions in the table rise and a position's row is found by halving. -/
namespace DancingLinks

structure RowTable where
  positions : Array Nat
  deriving DecidableEq, Repr

namespace RowTable

def ofProblem {P C : Type} (problem : Problem P C) : RowTable :=
  ⟨((problem.possibilities.zipIdx.filter fun (possibility, _) =>
    !(problem.satisfied possibility).isEmpty).map Prod.snd).toArray⟩

def size (table : RowTable) : Nat := table.positions.size

def positionOf (table : RowTable) (row : Nat) : Option Nat := table.positions[row]?

def search (table : RowTable) (position : Nat) : (bound lo hi : Nat) → Option Nat
  | 0, _, _ => none
  | bound + 1, lo, hi =>
    if lo < hi then
      let middle := (lo + hi) / 2
      match table.positionOf middle with
      | none => none
      | some entry =>
        if entry = position then some middle
        else if entry < position then search table position bound (middle + 1) hi
        else search table position bound lo middle
    else none

def rowOf (table : RowTable) (position : Nat) : Option Nat :=
  table.search position table.size 0 table.size

end RowTable

end DancingLinks
