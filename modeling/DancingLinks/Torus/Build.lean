import DancingLinks.Torus.Ring
/-! Building a torus column by column and row by row, and taking stored rows out of play. A new
primary head goes to the left of the root, a new entry to the left of its row's first entry and
directly below its head. A disabled row keeps its horizontal ring; each of its entries is alone
vertically. -/
namespace DancingLinks.Torus

def insertBeside (torus : Torus) (anchor : Site) (direction : Direction) (site : Site) :
    Except Fault Torus := do
  let next ← torus.follow anchor direction
  let torus ← torus.point site direction next
  let torus ← torus.point site direction.opposite anchor
  let torus ← torus.point next direction.opposite site
  torus.point anchor direction site

def addColumn (torus : Torus) (name : String) (isPrimary : Bool) : Except Fault (Nat × Torus) := do
  let index := torus.columns.size
  let (head, torus) := torus.settle (.head index)
  let torus ← if isPrimary then torus.insertBeside root .left head else pure torus
  return (index, { torus with columns := torus.columns.push ⟨name, head, 0, isPrimary, none⟩ })

def newRow (torus : Torus) : Torus := { torus with current := none }

/-- The index that the row being built has, or that a row started now would get. -/
def rowInProgress (torus : Torus) : Nat :=
  match torus.current with
  | some _ => torus.rows.size - 1
  | none => torus.rows.size

inductive Placement where
  | placed
  | alreadyPresent (row : Nat)
  deriving DecidableEq, Repr

def place (torus : Torus) (index : Nat) : Except Fault (Placement × Torus) := do
  let row := torus.rowInProgress
  let column ← torus.column index
  if column.lastRow = some row then return (.alreadyPresent row, torus)
  let (entry, torus) := torus.settle (.entry row index)
  let torus ← match torus.current with
    | some first => torus.insertBeside first .left entry
    | none => pure { torus with rows := torus.rows.push entry, current := some entry }
  let torus ← torus.grow index
  let torus := torus.editColumn index fun column => { column with lastRow := some row }
  let torus ← torus.insertBeside column.head .down entry
  return (.placed, torus)

def unhook (torus : Torus) (entry : Site) : Except Fault Torus := do
  let cell ← torus.cell entry
  let column ← cell.column
  let torus ← torus.point cell.up .down cell.down
  let torus ← torus.point cell.down .up cell.up
  torus.shrink column

def disableEntry (torus : Torus) (entry : Site) : Except Fault Torus := do
  let torus ← torus.unhook entry
  let torus ← torus.point entry .up entry
  torus.point entry .down entry

def enableEntry (torus : Torus) (entry : Site) : Except Fault Torus := do
  let column ← torus.columnOf entry
  let head ← torus.headOf column
  let torus ← torus.insertBeside head .down entry
  torus.grow column

/-- Whether a row is in play: the first entry of a disabled row is its own neighbour above. -/
def isRowEnabled (torus : Torus) (row : Nat) : Except Fault Bool := do
  let first ← torus.firstEntry row
  let above ← torus.follow first .up
  return above != first

def disableRow (torus : Torus) (row : Nat) : Except Fault (Bool × Torus) := do
  let isEnabled ← torus.isRowEnabled row
  unless isEnabled do return (false, torus)
  let first ← torus.firstEntry row
  let entries ← torus.fullRing first .right
  let torus ← entries.foldlM disableEntry torus
  return (true, torus)

def enableRow (torus : Torus) (row : Nat) : Except Fault (Bool × Torus) := do
  let isEnabled ← torus.isRowEnabled row
  if isEnabled then return (false, torus)
  let first ← torus.firstEntry row
  let entries ← torus.fullRing first .right
  let torus ← entries.foldlM enableEntry torus
  return (true, torus)

end DancingLinks.Torus
