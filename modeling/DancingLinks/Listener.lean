import DancingLinks.Solution
/-! Listeners hear every solution of a search and decide after each whether it goes on. A
listener's answer, and what it prints meanwhile, may depend on everything that it has heard since
it was made. -/
namespace DancingLinks

structure Call where
  number : Nat
  removals : Nat
  solution : Solution
  deriving DecidableEq, Repr

structure Listener where
  /-- Whether to go on, from all calls up to the latest, which comes last. -/
  answer : Array Call → Bool
  /-- What it prints to the standard output at the latest of these calls. -/
  prints : Array Call → String
  heard : Array Call

namespace Listener

def silent (_ : Array Call) : String := ""

def ofAnswer (answer : Array Call → Bool) (prints : Array Call → String := silent) : Listener :=
  ⟨answer, prints, #[]⟩

def hear (listener : Listener) (solution : Solution) : Bool × String × Listener :=
  let heard := listener.heard.push ⟨solution.number, solution.removals, solution⟩
  (listener.answer heard, listener.prints heard, { listener with heard })

end Listener

end DancingLinks
