import DancingLinks.Error
/-! What a solver tells about its work while it is at it. -/
namespace DancingLinks

inductive Level where
  | debug | trace
  deriving DecidableEq, Repr

def Level.text : Level → String
  | .debug => "DEBUG"
  | .trace => "TRACE"

inductive Event where
  | searching (columns rows : Nat) (byFewest : Bool)
  | reporting (number : Nat) (rows : List Nat)
  | outputFailed (number : Nat) (reason : String)
  | finished (found removals : Nat)
  | abandoned (depth found : Nat)
  | ignored (error : Error)
  | disabled (row : Nat)
  | enabled (row : Nat)
  | encoded (possibilities constraints rows : Nat)
  deriving DecidableEq, Repr

namespace Event

def level : Event → Level
  | .reporting .. => .trace
  | _ => .debug

def listed (numbers : List Nat) : String := "[" ++ ", ".intercalate (numbers.map toString) ++ "]"

def message : Event → String
  | .searching columns rows byFewest =>
    s!"Searching [{columns}] columns and [{rows}] rows with heuristic [{byFewest}]."
  | .reporting number rows => s!"Reporting solution [{number}] with rows [{listed rows}]."
  | .outputFailed number reason =>
    s!"Stopping search after output failed on solution [{number}]: {reason}"
  | .finished found removals =>
    s!"Search finished with [{found}] solutions after [{removals}] removals."
  | .abandoned depth found => s!"Abandoning search at depth [{depth}] after [{found}] solutions."
  | .ignored error => s!"Ignoring [{error.message}] in permissive mode."
  | .disabled row => s!"Disabled row [{row}]."
  | .enabled row => s!"Enabled row [{row}]."
  | .encoded possibilities constraints rows =>
    s!"Encoded [{possibilities}] possibilities over [{constraints}] constraints into [{rows}] rows."

def text (event : Event) : String := Level.text event.level ++ " " ++ event.message

end Event

end DancingLinks
