import DancingLinks.Problem.Basic
import DancingLinks.Queens.Board
import DancingLinks.Text.Record
/-! Placing queens so that none attacks another, as an exact cover problem: every row and every
column of the board has one queen, every diagonal at most one. -/
namespace DancingLinks.Queens

open Text (labelled record)

inductive Line where
  | row (index : Nat)
  | column (index : Nat)
  | leading (index : Nat)
  | trailing (index : Nat)
  deriving DecidableEq, Repr

namespace Line

def contains (n : Nat) : Line → Square → Bool
  | row index, square => square.row == index
  | column index, square => square.column == index
  | leading index, square => square.leading n == index
  | trailing index, square => square.trailing == index

def isDiagonal : Line → Bool
  | row _ | column _ => false
  | leading _ | trailing _ => true

def indexed (kind : String) (index : Nat) : String :=
  record kind [labelled "index" (toString index)]

def label : Line → String
  | row index => indexed "Row" index
  | column index => indexed "Column" index
  | leading index => indexed "LeadingDiagonal" index
  | trailing index => indexed "TrailingDiagonal" index

def all (n : Nat) : List Line :=
  (List.range n).map row ++ (List.range n).map column ++
    (List.range (2 * n - 1)).map leading ++ (List.range (2 * n - 1)).map trailing

end Line

def problem (n : Nat) : Problem Square Line where
  possibilities := squares n
  constraints := Line.all n
  satisfies square line := line.contains n square
  isOptional := Line.isDiagonal
  label := Line.label

end DancingLinks.Queens
