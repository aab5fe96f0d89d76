import DancingLinks.Solution
import DancingLinks.Torus.Branch
import DancingLinks.Torus.Cover
/-! A search part of the way down: the torus as far as it is covered, the entries whose rows have
been chosen, and the number of solutions met so far. Entering a row and leaving it are opposite;
only the row that was entered last can be left. -/
namespace DancingLinks

structure Position where
  torus : Torus
  path : List Site
  found : Nat
  deriving DecidableEq, Repr

namespace Position

def ofTorus (torus : Torus) : Position := ⟨torus, [], 0⟩

def restart (position : Position) : Position := ofTorus position.torus.resetRemovals

def depth (position : Position) : Nat := position.path.length

def countFound (position : Position) : Position := { position with found := position.found + 1 }

def cover (position : Position) (column : Nat) : Except Fault Position := do
  let torus ← position.torus.cover column
  return { position with torus }

def uncover (position : Position) (column : Nat) : Except Fault Position := do
  let torus ← position.torus.uncover column
  return { position with torus }

def enter (position : Position) (entry : Site) : Except Fault Position := do
  let torus ← position.torus.coverRow entry
  return { position with torus, path := entry :: position.path }

def leave (position : Position) (entry : Site) : Except Fault Position := do
  match position.path with
  | [] => throw .lostPath
  | latest :: earlier =>
    unless latest = entry do throw .lostPath
    let torus ← position.torus.uncoverRow entry
    return { position with torus, path := earlier }

def solution (position : Position) : Except Fault Solution := do
  let chosen := position.path.reverse
  let rows ← chosen.mapM position.torus.rowOf
  let columns ← chosen.mapM position.torus.rowNames
  return ⟨position.found, position.torus.removals, rows, columns⟩

end Position

end DancingLinks
