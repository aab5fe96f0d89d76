import DancingLinks.Problem.Basic
/-! Tilings of a strip of numbered cells by pieces, a piece `(a, b)` lying on the cells from `a` up
to but not including `b`. Cells need not be distinct or in order. -/
namespace DancingLinks

structure Strip where
  pieces : List (Nat × Nat)
  cells : List Nat
  optional : List Nat
  deriving DecidableEq, Repr

namespace Strip

def problem (strip : Strip) : Problem (Nat × Nat) Nat where
  possibilities := strip.pieces
  constraints := strip.cells
  satisfies piece cell := piece.1 ≤ cell && cell < piece.2
  isOptional cell := strip.optional.contains cell
  label := toString

end Strip

end DancingLinks
