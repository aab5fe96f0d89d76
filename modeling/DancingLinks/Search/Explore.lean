import DancingLinks.Search.Position
/-! Depth-first search for exact covers. Every time no open column is left a visitor sees the
position and says whether to go on; after a refusal the search only retraces its steps, so that
every column is uncovered again. The bound on the depth stands for the number of columns that are
open above it, the bound on the rows for the entries of one column. -/
namespace DancingLinks

structure Outcome (α : Type) where
  state : α
  position : Position
  more : Bool

namespace Search

variable {α : Type}

def tryRows (descend : α → Position → Except Fault (Outcome α)) (head : Site) :
    Nat → Site → α → Position → Except Fault (Outcome α)
  | 0, _, _, _ => .error .endless
  | bound + 1, entry, state, position => do
    if entry = head then return ⟨state, position, true⟩
    let position ← position.enter entry
    let outcome ← descend state position
    let position ← outcome.position.leave entry
    if outcome.more then
      let next ← position.torus.follow entry .down
      tryRows descend head bound next outcome.state position
    else return ⟨outcome.state, position, false⟩

def explore (visit : α → Position → Except Fault (α × Bool)) (byFewest : Bool) :
    Nat → α → Position → Except Fault (Outcome α)
  | 0, _, _ => .error .endless
  | bound + 1, state, position => do
    match ← position.torus.branchColumn byFewest with
    | none =>
      let position := position.countFound
      let (state, more) ← visit state position
      return ⟨state, position, more⟩
    | some column =>
      let position ← position.cover column
      let head ← position.torus.headOf column
      let first ← position.torus.follow head .down
      let outcome ← tryRows (explore visit byFewest bound) head position.torus.cells.size first
        state position
      let position ← outcome.position.uncover column
      return { outcome with position }

def run (visit : α → Position → Except Fault (α × Bool)) (byFewest : Bool) (state : α)
    (position : Position) : Except Fault (Outcome α) :=
  explore visit byFewest position.torus.cells.size state position

end Search

end DancingLinks
