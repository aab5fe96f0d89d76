import DancingLinks.Search.Enumeration
import DancingLinks.Solver.Basic
/-! Taking the solutions of a solver one at a time, as long as they are wanted. Neither listener
nor sink takes part. -/
namespace DancingLinks.Solver

def enumeration (solver : Solver) : Enumeration :=
  .start solver.position solver.config.byFewest

def close (solver : Solver) (search : Enumeration) : Except Fault (Solver × List Event) := do
  let position ← search.abandon
  let events := if search.isPending then
    [.abandoned search.position.depth search.position.found] else []
  return ({ solver with position }, events)

end DancingLinks.Solver
