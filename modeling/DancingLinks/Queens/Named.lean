import DancingLinks.Queens.Board
import DancingLinks.Solver.Build
/-! The same placements in a matrix built by hand: a column named R for every rank, F for every
file, A and B for the diagonals of either direction, these optional and in turns. Row `r * n + f`
is the queen on rank `r`, file `f`. -/
namespace DancingLinks.Queens

def named (kind : String) (index : Nat) : String := kind ++ toString index

def namedColumns (n : Nat) : List (String × Bool) :=
  (List.range n).map (fun rank => (named "R" rank, true)) ++
    (List.range n).map (fun file => (named "F" file, true)) ++
    (List.range (2 * n - 1)).flatMap fun diagonal =>
      [(named "A" diagonal, false), (named "B" diagonal, false)]

def columnsOf (n : Nat) (square : Square) : List String :=
  [named "R" square.row, named "F" square.column, named "A" square.trailing,
    named "B" (square.leading n)]

def addSquare (n : Nat) (square : Square) (solver : Solver) : Except Fault (Reply Unit) :=
  Reply.each (fun name solver => solver.setColumn (.named name)) (columnsOf n square) solver.newRow

def solver (n : Nat) : Except Fault (Reply Unit) := do
  let columns ← Reply.each (fun (name, isPrimary) solver => solver.addColumn name isPrimary)
    (namedColumns n) (.ofConfig .standard)
  match columns.value with
  | .error _ => return columns
  | .ok _ =>
    let rows ← Reply.each (addSquare n) (squares n) columns.solver
    return { rows with events := columns.events ++ rows.events }

end DancingLinks.Queens
