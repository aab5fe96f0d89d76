import DancingLinks.Torus.Basic
/-! Walks along the rings of a torus. A ring is read from a start that it does not list itself;
a walk in which every site of the arena has had its turn and the start has not come back is a
fault. The entries beside a column are what covering takes out and uncovering puts back. -/
namespace DancingLinks.Torus

def walk (torus : Torus) (start : Site) (direction : Direction) :
    Nat → Site → Except Fault (List Site)
  | 0, _ => .error (.openRing start)
  | steps + 1, site => do
    let next ← torus.follow site direction
    if next = start then return []
    let rest ← walk torus start direction steps next
    return next :: rest

def ring (torus : Torus) (start : Site) (direction : Direction) : Except Fault (List Site) :=
  torus.walk start direction torus.cells.size start

def fullRing (torus : Torus) (start : Site) (direction : Direction) : Except Fault (List Site) := do
  let others ← torus.ring start direction
  return start :: others

def beside (torus : Torus) (column : Nat) (along around : Direction) :
    Except Fault (List Site) := do
  let head ← torus.headOf column
  let entries ← torus.ring head along
  let rows ← entries.mapM fun entry => torus.ring entry around
  return rows.flatten

def openColumns (torus : Torus) : Except Fault (List Nat) := do
  let heads ← torus.ring root .right
  heads.mapM torus.columnOf

def rowColumns (torus : Torus) (entry : Site) : Except Fault (List Nat) := do
  let entries ← torus.fullRing entry .right
  entries.mapM torus.columnOf

def storedRow (torus : Torus) (row : Nat) : Except Fault (List Nat) := do
  let first ← torus.firstEntry row
  torus.rowColumns first

def columnName (torus : Torus) (index : Nat) : Except Fault String := do
  let column ← torus.column index
  return column.name

def rowNames (torus : Torus) (entry : Site) : Except Fault (List String) := do
  let columns ← torus.rowColumns entry
  columns.mapM torus.columnName

/-- What a walk from `start` meets within `limit` steps; it ends early at `start` or where a link
leads nowhere, so that torn rings can be looked at too. -/
def glimpse (torus : Torus) (start : Site) (direction : Direction) (limit : Nat) : List Site :=
  go limit start
where
  go : Nat → Site → List Site
    | 0, _ => []
    | steps + 1, site =>
      match torus.follow site direction with
      | .error _ => []
      | .ok next => if next = start then [] else next :: go steps next

def entriesBelow (torus : Torus) (column limit : Nat) : Except Fault (List Site) := do
  let head ← torus.headOf column
  return torus.glimpse head .down limit

end DancingLinks.Torus
