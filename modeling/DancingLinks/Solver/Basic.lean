import DancingLinks.Error
import DancingLinks.Event
import DancingLinks.Listener
import DancingLinks.Names
import DancingLinks.Output.Picture
import DancingLinks.Output.Sink
import DancingLinks.Search.Position
/-! A solver: a torus with names for its columns, the way it is searched, and who learns of the
solutions. Queries leave everything as it is. -/
namespace DancingLinks

structure Config where
  byFewest : Bool
  permissive : Bool
  deriving DecidableEq, Repr

def Config.standard : Config := ⟨true, false⟩

structure Solver where
  config : Config
  position : Position
  names : Names
  listener : Option Listener
  sink : Option Sink

structure Reply (α : Type) where
  value : Except Error α
  solver : Solver
  events : List Event
  printed : Bytes

namespace Solver

def ofConfig (config : Config) : Solver := ⟨config, .ofTorus .empty, .empty, none, none⟩

def torus (solver : Solver) : Torus := solver.position.torus

def withTorus (solver : Solver) (torus : Torus) : Solver :=
  { solver with position := { solver.position with torus } }

def setByFewest (solver : Solver) (byFewest : Bool) : Solver :=
  { solver with config := { solver.config with byFewest } }

def setSink (solver : Solver) (policy : Policy) (lineEnd solutionEnd : String) : Solver :=
  { solver with sink := some ⟨.ofPolicy policy, lineEnd, solutionEnd⟩ }

def clearSink (solver : Solver) : Solver := { solver with sink := none }

def setListener (solver : Solver) (answer : Array Call → Bool)
    (prints : Array Call → String := Listener.silent) : Solver :=
  { solver with listener := some (.ofAnswer answer prints) }

def clearListener (solver : Solver) : Solver := { solver with listener := none }

def found (solver : Solver) : Nat := solver.position.found

def removals (solver : Solver) : Nat := solver.torus.removals

def columnCount (solver : Solver) : Nat := solver.torus.columns.size

def rowCount (solver : Solver) : Nat := solver.torus.rows.size

def columnIndex (solver : Solver) (name : String) : Option Nat := solver.names.find? name

def resolve (solver : Solver) : ColumnRef → Option Nat
  | .named name => solver.names.find? name
  | .numbered index => if index < solver.columnCount then some index else none

def columnAt (solver : Solver) (column : ColumnRef) : Option Column :=
  (solver.resolve column).bind fun index => solver.torus.columns[index]?

def columnName (solver : Solver) (index : Nat) : Option String :=
  solver.torus.columns[index]?.map Column.name

/-- How many entries of rows in play a column has. -/
def columnSize (solver : Solver) (column : ColumnRef) : Option Nat :=
  (solver.columnAt column).map Column.size

def isPrimary (solver : Solver) (column : ColumnRef) : Option Bool :=
  (solver.columnAt column).map Column.isPrimary

def isRowEnabled (solver : Solver) (row : Nat) : Except Fault (Option Bool) := do
  if row < solver.rowCount then
    let isEnabled ← solver.torus.isRowEnabled row
    return some isEnabled
  else return none

def openColumns (solver : Solver) : Except Fault (List String) := do
  let columns ← solver.torus.openColumns
  columns.mapM solver.torus.columnName

def draw (solver : Solver) (writer : Writer) (message : String) :
    Except Fault (Except Error Unit × Writer) := do
  let pieces ← Picture.pieces solver.torus message
  match writer.writeEach pieces with
  | (some reason, writer) => return (.error (.output reason), writer)
  | (none, writer) => return (.ok (), writer)

end Solver

end DancingLinks
