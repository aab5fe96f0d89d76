import DancingLinks.Queens.Named
import DancingLinks.Solver.Solve
import DancingLinks.Text.Numeral
/-! The program that prints placements of queens. Its arguments are the size of the board, 8 if
there is none, and a limit on the boards to print; a limit of 0 prints no board and searches to
the end. On request the columns of each solution are printed too, after its board. -/
namespace DancingLinks.Queens.CommandLine

structure Transcript where
  code : Nat
  stdout : Bytes
  stderr : String
  deriving DecidableEq, Repr

def refusal (message : String) : Transcript := ⟨1, [], message ++ "\n"⟩

structure Request where
  size : Nat
  limit : Option Nat
  deriving DecidableEq, Repr

/-- Numbers on the command line have 64 bits. -/
def number? (text : String) : Option Nat := Text.numeral? UInt64.size text

def size? : List String → Option Nat
  | [] => some 8
  | text :: _ => (number? text).filter (0 < ·)

def limit? : List String → Option (Option Nat)
  | _ :: text :: _ => (number? text).map some
  | _ => some none

def request (arguments : List String) : Except String Request :=
  match size? arguments with
  | none => .error "board size must be a positive integer"
  | some size =>
    match limit? arguments with
    | none => .error "invalid limit"
    | some limit => .ok ⟨size, limit⟩

def wantsMore (limit : Option Nat) (number : Nat) : Bool :=
  match limit with
  | none => true
  | some limit => number < limit

def printsBoards (limit : Option Nat) : Bool := limit != some 0

def board (size : Nat) (call : Call) : String :=
  s!"solution {call.number} ({call.removals} removals)\n" ++
    drawing size (call.solution.sortedRows.map (Square.ofIndex size)) ++ "\n"

def lineEnd : String := "\n"

def solutionEnd : String := "\n"

def answer (limit : Option Nat) (heard : Array Call) : Bool :=
  match heard.back? with
  | none => true
  | some call => wantsMore limit call.number

def boards (size : Nat) (heard : Array Call) : String :=
  match heard.back? with
  | none => ""
  | some call => board size call

def prepare (request : Request) (withNames : Bool) (solver : Solver) : Solver :=
  let solver :=
    if printsBoards request.limit then
      solver.setListener (answer request.limit) (boards request.size)
    else solver
  if withNames then solver.setSink .stdout lineEnd solutionEnd else solver

def search (request : Request) (withNames : Bool) (solver : Solver) :
    Except Fault Transcript := do
  let reply ← (prepare request withNames solver).solve
  match reply.value with
  | .error error => return ⟨1, reply.printed, error.message ++ "\n"⟩
  | .ok count => return ⟨0, reply.printed ++ bytesOf s!"{count} solutions\n", ""⟩

def run (arguments : List String) (withNames : Bool) : Except Fault Transcript := do
  match request arguments with
  | .error message => return refusal message
  | .ok request =>
    let built ← solver request.size
    match built.value with
    | .error error => return refusal error.message
    | .ok _ => search request withNames built.solver

end DancingLinks.Queens.CommandLine
