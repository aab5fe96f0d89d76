import DancingLinks.Proofs.History
import DancingLinks.Proofs.SolveReports

/-! What a solve of any well-built solver answers. The arena is back as it was on every way out, and a
search that nobody stops tells what the search on lists finds in the sheet of the calls that built it. -/
namespace DancingLinks

theorem WellBuilt.keepsSheet {solver : Solver} (built : WellBuilt solver) : ∃ sheet, solver.Keeps sheet := by
  obtain ⟨config, actions, history⟩ := built
  exact ⟨_, history.historyKeeps.1⟩

theorem Solver.Keeps.keptForAudience {solver : Solver} {sheet : Sheet} (keeps : solver.Keeps sheet)
    (listener : Option Listener) (sink : Option Sink) :
    ({ solver with listener, sink } : Solver).Keeps sheet :=
  ⟨keeps.sound, keeps.holds, keeps.path, keeps.names⟩

theorem solveRestores {solver : Solver} (built : WellBuilt solver) (listener : Option Listener)
    (sink : Option Sink) :
    ∃ reply, Solver.solve { solver with listener, sink } = .ok reply ∧
      reply.solver.torus.cells = solver.torus.cells ∧
      reply.solver.torus.columns = solver.torus.columns ∧
      reply.solver.torus.rows = solver.torus.rows ∧
      reply.solver.torus.current = solver.torus.current ∧
      reply.solver.position.path = [] := by
  obtain ⟨sheet, keeps⟩ := built.keepsSheet
  exact ⟨_, Solver.solveAnswers (keeps.keptForAudience listener sink), rfl, rfl, rfl, rfl, rfl⟩

theorem choiceRestored :
    WellBuilt .choice ∧ ∃ reply, Solver.solve { Solver.choice with
        listener := some (.ofAnswer fun calls => calls.size != 2), sink := none } = .ok reply ∧
      reply.solver.torus.cells = Solver.choice.torus.cells ∧
      reply.solver.torus.columns = Solver.choice.torus.columns ∧
      reply.solver.torus.rows = Solver.choice.torus.rows ∧
      reply.solver.torus.current = Solver.choice.torus.current ∧
      reply.solver.position.path = [] :=
  ⟨⟨_, _, Solver.choiceMade⟩, solveRestores ⟨_, _, Solver.choiceMade⟩ _ _⟩

theorem solveFollowsLists {config : Config} {actions : List Action} {solver : Solver}
    (history : History config actions solver) :
    ∃ reply, solver.solve = .ok reply ∧ (solver.Unstopped reply →
      reply.Delivers solver ((Sheet.after config actions).search solver.config.byFewest)) :=
  ⟨_, Solver.solveAnswers history.historyKeeps.1, Solver.answeredDelivers⟩

theorem Solver.choiceUnstopped {reply : Reply Nat} (solved : Solver.choice.solve = .ok reply) :
    Solver.choice.Unstopped reply := by
  have ran : (Solver.choice.solve.map fun reply => reply.events) = .ok [.searching 4 7 true,
      .reporting 1 [5, 4], .reporting 2 [5, 0], .reporting 3 [3, 2], .reporting 4 [3, 1, 4],
      .finished 4 16] := rfl
  rw [solved] at ran
  have events : reply.events = _ := Except.ok.inj ran
  refine ⟨?_, by rw [events]; decide⟩
  intro before after first _ count _ _
  obtain rfl : Listener.ofAnswer (fun _ => true) = before := Option.some.inj first
  rfl

theorem choiceFollowed :
    ∃ reply, Solver.choice.solve = .ok reply ∧
      reply.Delivers .choice ((Sheet.after .standard Solver.choiceCalls).search true) := by
  obtain ⟨reply, solved, delivers⟩ := solveFollowsLists Solver.choiceMade
  exact ⟨reply, solved, delivers (Solver.choiceUnstopped solved)⟩

end DancingLinks
