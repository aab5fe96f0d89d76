import DancingLinks.Fault
/-! The arena of linked cells behind a sparse 0/1 matrix. Site 0 is the root; its horizontal ring
joins the heads of the primary columns that are still open. Every column has a head, every 1 of
the matrix is an entry; heads and entries of one column form a vertical ring, the entries of one
row a horizontal one. Reading and writing here is local: nothing is said about the rings. -/
namespace DancingLinks

abbrev Site := Nat

inductive Direction where
  | left | right | up | down
  deriving DecidableEq, Repr

def Direction.opposite : Direction → Direction
  | .left => .right
  | .right => .left
  | .up => .down
  | .down => .up

theorem Direction.oppositeTwice (direction : Direction) :
    direction.opposite.opposite = direction := by cases direction <;> rfl

inductive Role where
  | root
  | head (column : Nat)
  | entry (row column : Nat)
  deriving DecidableEq, Repr

structure Cell where
  left : Site
  right : Site
  up : Site
  down : Site
  role : Role
  deriving DecidableEq, Repr

namespace Cell

def alone (site : Site) (role : Role) : Cell := ⟨site, site, site, site, role⟩

def toward (cell : Cell) : Direction → Site
  | .left => cell.left
  | .right => cell.right
  | .up => cell.up
  | .down => cell.down

def turn (cell : Cell) (direction : Direction) (site : Site) : Cell :=
  match direction with
  | .left => { cell with left := site }
  | .right => { cell with right := site }
  | .up => { cell with up := site }
  | .down => { cell with down := site }

@[simp] theorem towardAlone (site : Site) (role : Role) (direction : Direction) :
    (alone site role).toward direction = site := by cases direction <;> rfl

@[simp] theorem towardTurned (cell : Cell) (direction : Direction) (site : Site) :
    (cell.turn direction site).toward direction = site := by cases direction <;> rfl

theorem towardOther (cell : Cell) {turned direction : Direction} (site : Site)
    (other : turned ≠ direction) : (cell.turn turned site).toward direction = cell.toward direction := by
  cases turned <;> cases direction <;> simp_all [turn, toward]

@[simp] theorem roleTurned (cell : Cell) (direction : Direction) (site : Site) :
    (cell.turn direction site).role = cell.role := by cases direction <;> rfl

def column (cell : Cell) : Except Fault Nat :=
  match cell.role with
  | .head column | .entry _ column => .ok column
  | .root => .error .noPlace

def row (cell : Cell) : Except Fault Nat :=
  match cell.role with
  | .entry row _ => .ok row
  | .root | .head _ => .error .noPlace

end Cell

structure Column where
  name : String
  head : Site
  size : Nat
  isPrimary : Bool
  lastRow : Option Nat
  deriving DecidableEq, Repr

structure Torus where
  cells : Array Cell
  columns : Array Column
  rows : Array Site
  current : Option Site
  removals : Nat
  deriving DecidableEq, Repr

namespace Torus

def root : Site := 0

def empty : Torus := ⟨#[.alone root .root], #[], #[], none, 0⟩

def cell (torus : Torus) (site : Site) : Except Fault Cell :=
  match torus.cells[site]? with
  | some cell => .ok cell
  | none => .error (.noSite site)

def column (torus : Torus) (index : Nat) : Except Fault Column :=
  match torus.columns[index]? with
  | some column => .ok column
  | none => .error (.noColumn index)

def firstEntry (torus : Torus) (row : Nat) : Except Fault Site :=
  match torus.rows[row]? with
  | some first => .ok first
  | none => .error (.noRow row)

def follow (torus : Torus) (site : Site) (direction : Direction) : Except Fault Site := do
  let cell ← torus.cell site
  return cell.toward direction

def columnOf (torus : Torus) (site : Site) : Except Fault Nat := do
  let cell ← torus.cell site
  cell.column

def rowOf (torus : Torus) (site : Site) : Except Fault Nat := do
  let cell ← torus.cell site
  cell.row

def headOf (torus : Torus) (column : Nat) : Except Fault Site := do
  let column ← torus.column column
  return column.head

def point (torus : Torus) (site : Site) (direction : Direction) (target : Site) :
    Except Fault Torus :=
  if site < torus.cells.size then
    .ok { torus with cells := torus.cells.modify site (·.turn direction target) }
  else .error (.noSite site)

def editColumn (torus : Torus) (index : Nat) (edit : Column → Column) : Torus :=
  { torus with columns := torus.columns.modify index edit }

def grow (torus : Torus) (index : Nat) : Except Fault Torus :=
  if index < torus.columns.size then
    .ok (torus.editColumn index fun column => { column with size := column.size + 1 })
  else .error (.noColumn index)

def shrink (torus : Torus) (index : Nat) : Except Fault Torus := do
  let column ← torus.column index
  if column.size = 0 then throw (.emptyColumn index)
  return torus.editColumn index fun column => { column with size := column.size - 1 }

def settle (torus : Torus) (role : Role) : Site × Torus :=
  let site := torus.cells.size
  (site, { torus with cells := torus.cells.push (.alone site role) })

end Torus

end DancingLinks
