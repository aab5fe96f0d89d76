import DancingLinks.Torus.Ring
/-! The column to branch on. Sizes are taken as the operations have kept them; of two columns of
the same size the one further left is chosen. -/
namespace DancingLinks.Torus

def fewest : Nat × Nat → List (Nat × Nat) → Nat
  | best, [] => best.1
  | best, next :: rest => fewest (if next.2 < best.2 then next else best) rest

def branchColumn (torus : Torus) (byFewest : Bool) : Except Fault (Option Nat) := do
  let first ← torus.follow root .right
  if first = root then return none
  if byFewest then
    let columns ← torus.openColumns
    let sized ← columns.mapM fun index => do
      let column ← torus.column index
      return (index, column.size)
    match sized with
    | [] => return none
    | best :: rest => return some (fewest best rest)
  else
    let column ← torus.columnOf first
    return some column

end DancingLinks.Torus
