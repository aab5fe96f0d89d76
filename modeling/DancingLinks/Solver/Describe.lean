import DancingLinks.Solver.Basic
import DancingLinks.Text.Quoted
import DancingLinks.Text.Record
/-! A solver in one line, for people who look for faults in what they have built. -/
namespace DancingLinks

open Text (labelled record openRecord quoted)

def Config.describe (config : Config) : String :=
  record "Config" [labelled "use_heuristic" (toString config.byFewest),
    labelled "permissive" (toString config.permissive)]

def Sink.describe (sink : Sink) : String :=
  openRecord "TextSink" [labelled "line_end" (quoted sink.lineEnd),
    labelled "solution_end" (quoted sink.solutionEnd)]

def Solver.describe (solver : Solver) : String :=
  openRecord "Solver" [labelled "config" solver.config.describe,
    labelled "columns" (toString solver.columnCount),
    labelled "rows" (toString solver.rowCount),
    labelled "has_listener" (toString solver.listener.isSome),
    labelled "output" (match solver.sink with
      | some sink => s!"Some({sink.describe})"
      | none => "None"),
    labelled "num_solutions" (toString solver.found)]

end DancingLinks
