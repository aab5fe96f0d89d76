import DancingLinks.Search.Position
/-! The same search, one solution at a time. Between two solutions it rests as a stack of frames,
one for every column branched on; resuming takes single steps from the deepest frame, and
abandoning undoes the frames from the deepest up. -/
namespace DancingLinks

inductive Phase where
  | ready
  | entered
  deriving DecidableEq, Repr

structure Frame where
  column : Nat
  head : Site
  entry : Site
  phase : Phase
  deriving DecidableEq, Repr

structure Enumeration where
  position : Position
  byFewest : Bool
  stack : List Frame
  started : Bool
  deriving DecidableEq, Repr

namespace Enumeration

def start (position : Position) (byFewest : Bool) : Enumeration :=
  ⟨position.restart, byFewest, [], false⟩

/-- Branches on the next column, or comes upon a solution where none is open. A column without
rows is uncovered at once and leaves no frame. -/
def descend (search : Enumeration) : Except Fault (Option Solution × Enumeration) := do
  match ← search.position.torus.branchColumn search.byFewest with
  | none =>
    let position := search.position.countFound
    let solution ← position.solution
    return (some solution, { search with position })
  | some column =>
    let position ← search.position.cover column
    let head ← position.torus.headOf column
    let entry ← position.torus.follow head .down
    if entry = head then
      let position ← position.uncover column
      return (none, { search with position })
    else
      return (none, { search with position, stack := ⟨column, head, entry, .ready⟩ :: search.stack })

def step (search : Enumeration) (frame : Frame) (below : List Frame) :
    Except Fault (Option Solution × Enumeration) := do
  match frame.phase with
  | .ready =>
    let position ← search.position.enter frame.entry
    descend { search with position, stack := { frame with phase := .entered } :: below }
  | .entered =>
    let position ← search.position.leave frame.entry
    let next ← position.torus.follow frame.entry .down
    if next = frame.head then
      let position ← position.uncover frame.column
      return (none, { search with position, stack := below })
    else
      return (none,
        { search with position, stack := { frame with entry := next, phase := .ready } :: below })

def resume : Nat → Enumeration → Except Fault (Option Solution × Enumeration)
  | 0, _ => .error .endless
  | bound + 1, search =>
    match search.stack with
    | [] => return (none, search)
    | frame :: below => do
      match ← search.step frame below with
      | (some solution, search) => return (some solution, search)
      | (none, search) => resume bound search

/-- More steps than a whole search over this arena can take: a frame spends two on each of its
rows, and frames are no deeper than there are columns. -/
def stepBound (torus : Torus) : Nat := 2 * Nat.pow (torus.cells.size + 1) (torus.columns.size + 1)

def next (search : Enumeration) : Except Fault (Option Solution × Enumeration) := do
  let bound := stepBound search.position.torus
  if search.started then resume bound search
  else
    match ← descend { search with started := true } with
    | (some solution, search) => return (some solution, search)
    | (none, search) => resume bound search

def collect {ε α : Type} (read : Solution → Except ε α) :
    Nat → Enumeration → Except Fault (Except ε (List α) × Enumeration)
  | 0, search => return (.ok [], search)
  | limit + 1, search => do
    match ← search.next with
    | (none, search) => return (.ok [], search)
    | (some solution, search) =>
      match read solution with
      | .error reason => return (.error reason, search)
      | .ok item =>
        let (others, search) ← collect read limit search
        return (others.map (item :: ·), search)

def isPending (search : Enumeration) : Bool := !search.stack.isEmpty

/-- Undoes one frame. The path is shortened whatever its latest entry is. -/
def undo (position : Position) (frame : Frame) : Except Fault Position := do
  let position ← match frame.phase with
    | .ready => pure position
    | .entered => do
      let torus ← position.torus.uncoverRow frame.entry
      pure { position with torus, path := position.path.tail }
  position.uncover frame.column

def abandon (search : Enumeration) : Except Fault Position := do
  let position ← search.stack.foldlM undo search.position
  unless position.path.isEmpty do throw .lostPath
  return position

end Enumeration

end DancingLinks
