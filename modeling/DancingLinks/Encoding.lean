import DancingLinks.Problem.RowTable
import DancingLinks.Solver.Build
import DancingLinks.Solver.Enumerate
/-! A problem loaded into a solver: a column for every constraint, and a row for every possibility
that satisfies one. The solver can be changed afterwards, and may then hold rows that are not in
the table of rows. -/
namespace DancingLinks

structure Encoding (P C : Type) where
  problem : Problem P C
  solver : Solver
  table : RowTable

namespace Encoding

variable {P C : Type}

def addConstraint (problem : Problem P C) (constraint : C) (solver : Solver) :
    Except Fault (Reply Nat) :=
  solver.addColumn (problem.label constraint) (!problem.isOptional constraint)

def addPossibility (problem : Problem P C) (possibility : P) (solver : Solver) :
    Except Fault (Reply Unit) :=
  Reply.each (fun column solver => solver.setColumn (.numbered column))
    (problem.satisfied possibility) solver.newRow

def ofProblem (problem : Problem P C) (config : Config) :
    Except Fault (Except Error (Encoding P C × List Event)) := do
  let columns ← Reply.each (addConstraint problem) problem.constraints (.ofConfig config)
  match columns.value with
  | .error error => return .error error
  | .ok _ =>
    let rows ← Reply.each (addPossibility problem) problem.possibilities columns.solver
    match rows.value with
    | .error error => return .error error
    | .ok _ =>
      let table := RowTable.ofProblem problem
      let summary := Event.encoded problem.possibilities.length problem.constraints.length table.size
      return .ok (⟨problem, rows.solver, table⟩, columns.events ++ rows.events ++ [summary])

def rowOf (encoding : Encoding P C) (position : Nat) : Option Nat := encoding.table.rowOf position

def possibility (encoding : Encoding P C) (row : Nat) : Option P :=
  (encoding.table.positionOf row).bind fun position => encoding.problem.possibilities[position]?

def possibilitiesOf (encoding : Encoding P C) (solution : Solution) : List P :=
  solution.rows.filterMap encoding.possibility

def interpret (encoding : Encoding P C) (solution : Solution) : Except Nat (List P) :=
  solution.rows.mapM fun row =>
    match encoding.possibility row with
    | some possibility => .ok possibility
    | none => .error row

structure Reading (P C : Type) where
  value : Except Nat (List (List P))
  encoding : Encoding P C
  events : List Event

/-- Reads the first solutions, at most `limit` of them. However the reading ends, the rest of the
search is given up and the matrix taken back. -/
def solutions (encoding : Encoding P C) (limit : Nat) : Except Fault (Reading P C) := do
  let (value, search) ← encoding.solver.enumeration.collect encoding.interpret limit
  let (solver, events) ← encoding.solver.close search
  return ⟨value, { encoding with solver }, events⟩

def allSolutions (encoding : Encoding P C) : Except Fault (Reading P C) :=
  encoding.solutions (Enumeration.stepBound encoding.solver.torus)

end Encoding

end DancingLinks
