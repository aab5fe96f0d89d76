import DancingLinks.Solver.Basic
/-! Building the matrix of a solver. An invalid call changes nothing; in permissive mode it is
told as an event instead of being answered with an error. A repeated column name is an exception
to both: in permissive mode the column is added all the same and takes the name over. -/
namespace DancingLinks.Solver

def reject (solver : Solver) (error : Error) : Reply Unit :=
  if solver.config.permissive then ⟨.ok (), solver, [.ignored error], []⟩
  else ⟨.error error, solver, [], []⟩

def addColumn (solver : Solver) (name : String) (isPrimary : Bool) :
    Except Fault (Reply Nat) := do
  let isTaken := (solver.names.find? name).isSome
  if isTaken && !solver.config.permissive then
    return ⟨.error (.duplicateColumn name), solver, [], []⟩
  let (index, torus) ← solver.torus.addColumn name isPrimary
  let solver := { solver.withTorus torus with names := solver.names.record name index }
  return ⟨.ok index, solver, if isTaken then [.ignored (.duplicateColumn name)] else [], []⟩

def newRow (solver : Solver) : Solver := solver.withTorus solver.torus.newRow

def setColumn (solver : Solver) (column : ColumnRef) : Except Fault (Reply Unit) := do
  match solver.resolve column with
  | none => return solver.reject (.unknownColumn column)
  | some index =>
    match ← solver.torus.place index with
    | (.placed, torus) => return ⟨.ok (), solver.withTorus torus, [], []⟩
    | (.alreadyPresent row, torus) =>
      let column ← torus.column index
      return (solver.withTorus torus).reject (.duplicateEntry row column.name)

/-- Takes a row out of play, so that no solution has it. -/
def disableRow (solver : Solver) (row : Nat) : Except Fault (Reply Unit) := do
  if row < solver.rowCount then
    let (isChanged, torus) ← solver.torus.disableRow row
    return ⟨.ok (), solver.withTorus torus, if isChanged then [.disabled row] else [], []⟩
  else return solver.reject (.rowOutOfRange row solver.rowCount)

def enableRow (solver : Solver) (row : Nat) : Except Fault (Reply Unit) := do
  if row < solver.rowCount then
    let (isChanged, torus) ← solver.torus.enableRow row
    return ⟨.ok (), solver.withTorus torus, if isChanged then [.enabled row] else [], []⟩
  else return solver.reject (.rowOutOfRange row solver.rowCount)

end DancingLinks.Solver

namespace DancingLinks

def Reply.each {α β : Type} (call : α → Solver → Except Fault (Reply β)) :
    List α → Solver → Except Fault (Reply Unit)
  | [], solver => return ⟨.ok (), solver, [], []⟩
  | item :: rest, solver => do
    let reply ← call item solver
    match reply.value with
    | .error error => return ⟨.error error, reply.solver, reply.events, reply.printed⟩
    | .ok _ =>
      let others ← each call rest reply.solver
      return { others with
        events := reply.events ++ others.events
        printed := reply.printed ++ others.printed }

end DancingLinks
