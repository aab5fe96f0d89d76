import DancingLinks.Torus.Build
/-! The matrix as text: a line of column names, then a line of 0 and 1 for each stored row, each
cell as wide as the name above it. Rows out of play are drawn like the others. -/
namespace DancingLinks.Picture

def cell (name : String) (isFilled : Bool) : String :=
  "".pushn ' ' (name.length - 1) ++ (if isFilled then "1" else "0")

def rowLine (names : List String) (filled : List Nat) : String :=
  " ".intercalate (names.zipIdx.map fun (name, column) => cell name (filled.contains column))

def lines (torus : Torus) : Except Fault (List String) := do
  let names := torus.columns.toList.map Column.name
  let rows ← (List.range torus.rows.size).mapM torus.storedRow
  return " ".intercalate names :: rows.map (rowLine names)

def pieces (torus : Torus) (message : String) : Except Fault (List String) := do
  let lines ← lines torus
  let lines := if message.isEmpty then lines else message :: lines
  return lines.flatMap fun line => [line, "\n"]

end DancingLinks.Picture
