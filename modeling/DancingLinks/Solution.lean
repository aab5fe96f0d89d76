/-! Exact covers as they are reported. A solution carries its place in the enumeration and the work
done until it was found; its rows stand in the order of choice. -/
namespace DancingLinks

structure Solution where
  number : Nat
  removals : Nat
  rows : List Nat
  columns : List (List String)
  deriving DecidableEq, Repr

namespace Solution

def sortedRows (solution : Solution) : List Nat := solution.rows.mergeSort

/-- One line of names a row, each closed by `lineEnd`, and `solutionEnd` after the last. -/
def text (solution : Solution) (lineEnd solutionEnd : String) : String :=
  String.join (solution.columns.map fun names => " ".intercalate names ++ lineEnd) ++ solutionEnd

end Solution

end DancingLinks
