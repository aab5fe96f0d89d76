import DancingLinks.Search.Explore
import DancingLinks.Solver.Basic
/-! Searching for every exact cover at once. Each solution goes to the listener and then to the
sink, and both may print to the same standard output; the search ends early when the listener has
heard enough or the sink fails, and the sink is flushed when the search is over, however it ended. -/
namespace DancingLinks

structure Audience where
  listener : Option Listener
  sink : Option Sink
  failure : Option String
  events : Array Event
  printed : Bytes

namespace Audience

def tell (audience : Audience) (event : Event) : Audience :=
  { audience with events := audience.events.push event }

def print (audience : Audience) (bytes : Bytes) : Audience :=
  { audience with printed := audience.printed ++ bytes }

def inform (audience : Audience) (solution : Solution) : Audience × Bool :=
  match audience.listener with
  | none => (audience, true)
  | some listener =>
    let (more, text, listener) := listener.hear solution
    ({ audience.print (bytesOf text) with listener := some listener }, more)

def write (audience : Audience) (solution : Solution) (more : Bool) : Audience × Bool :=
  match audience.sink with
  | none => (audience, more)
  | some sink =>
    let (failure, after) := sink.record solution
    let audience := audience.print (after.writer.printedSince sink.writer.held.size)
    match failure with
    | none => ({ audience with sink := some after }, more)
    | some reason =>
      let audience := audience.tell (.outputFailed solution.number reason)
      ({ audience with sink := some after, failure := some reason }, false)

def receive (audience : Audience) (position : Position) : Except Fault (Audience × Bool) := do
  if audience.listener.isNone && audience.sink.isNone then return (audience, true)
  let solution ← position.solution
  let audience := audience.tell (.reporting solution.number solution.rows)
  let (audience, more) := audience.inform solution
  return audience.write solution more

/-- Flushes the sink. Its failure counts if there was none before. -/
def flush (audience : Audience) : Audience :=
  match audience.sink with
  | none => audience
  | some sink =>
    let (failure, sink) := sink.flush
    { audience with sink := some sink, failure := audience.failure.or failure }

end Audience

def Solver.solve (solver : Solver) : Except Fault (Reply Nat) := do
  let byFewest := solver.config.byFewest
  let opening := .searching solver.columnCount solver.rowCount byFewest
  let audience : Audience := ⟨solver.listener, solver.sink, none, #[opening], []⟩
  let outcome ← Search.run Audience.receive byFewest audience solver.position.restart
  let position := outcome.position
  unless position.path.isEmpty do throw .lostPath
  let audience := outcome.state.tell (.finished position.found position.torus.removals)
  let audience := audience.flush
  let value := match audience.failure with
    | some reason => .error (.output reason)
    | none => .ok position.found
  let solver := { solver with position, listener := audience.listener, sink := audience.sink }
  return ⟨value, solver, audience.events.toList, audience.printed⟩

end DancingLinks
