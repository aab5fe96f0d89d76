import DancingLinks.Output.Writer
import DancingLinks.Solution
/-! A writer that is given every reported solution, together with what ends a line and what ends a
solution. The text of a solution is written as a whole. -/
namespace DancingLinks

structure Sink where
  writer : Writer
  lineEnd : String
  solutionEnd : String

namespace Sink

def record (sink : Sink) (solution : Solution) : Option String × Sink :=
  let (failure, writer) := sink.writer.writeAll (solution.text sink.lineEnd sink.solutionEnd)
  (failure, { sink with writer })

def flush (sink : Sink) : Option String × Sink :=
  let (failure, writer) := sink.writer.flush
  (failure, { sink with writer })

end Sink

end DancingLinks
