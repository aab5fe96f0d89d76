/-! Chess boards with as many rows as columns. -/
namespace DancingLinks.Queens

structure Square where
  row : Nat
  column : Nat
  deriving DecidableEq, Repr

namespace Square

def leading (n : Nat) (square : Square) : Nat := square.column + (n - 1) - square.row

def trailing (square : Square) : Nat := square.row + square.column

def ofIndex (n index : Nat) : Square := ⟨index / n, index % n⟩

end Square

def squares (n : Nat) : List Square :=
  (List.range n).flatMap fun row => (List.range n).map fun column => ⟨row, column⟩

def drawing (n : Nat) (queens : List Square) : String :=
  String.join ((List.range n).map fun row =>
    String.ofList ((List.range n).map fun column =>
      if queens.contains ⟨row, column⟩ then 'Q' else '.') ++ "\n")

end DancingLinks.Queens
