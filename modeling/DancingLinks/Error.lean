/-! What can be wrong with a call to a solver, or with the writer of its output. -/
namespace DancingLinks

inductive ColumnRef where
  | named (name : String)
  | numbered (index : Nat)
  deriving DecidableEq, Repr

def ColumnRef.text : ColumnRef → String
  | .named name => name
  | .numbered index => s!"#{index}"

inductive Error where
  | unknownColumn (column : ColumnRef)
  | rowOutOfRange (index count : Nat)
  | duplicateColumn (name : String)
  | duplicateEntry (row : Nat) (column : String)
  | output (reason : String)
  deriving DecidableEq, Repr

def Error.message : Error → String
  | .unknownColumn column => s!"Unknown column [{column.text}]"
  | .rowOutOfRange index count => s!"Row index [{index}] out of range for [{count}] rows"
  | .duplicateColumn name => s!"Duplicate column name [{name}]"
  | .duplicateEntry row column => s!"Row [{row}] already has an entry in column [{column}]"
  | .output reason => s!"Failed to write solver output: {reason}"

end DancingLinks
