import DancingLinks.Proofs.ArenaBuilding
import DancingLinks.Proofs.ArenaSearch
import DancingLinks.Solver.Solve

/-! A solver whose arena holds a sheet searches the sheet: its answer is a plain function of what the
search on lists yields and of those who are told. Whatever they answer, the arena is afterwards what it
was, but for the work counted. -/
namespace DancingLinks

namespace Sheet

def find? (sheet : Sheet) (name : String) : Option Nat :=
  (List.range sheet.columns.length).reverse.find? fun column => sheet.nameOf column == name

def resolve (sheet : Sheet) : ColumnRef → Option Nat
  | .named name => sheet.find? name
  | .numbered index => if index < sheet.columns.length then some index else none

end Sheet

structure Solver.Keeps (sheet : Sheet) (solver : Solver) : Prop where
  sound : sheet.Sound
  holds : solver.torus.Holds sheet
  path : solver.position.path = []
  names : ∀ name, solver.names.find? name = sheet.find? name

namespace Audience

def hear (audience : Audience) (solution : Solution) : Audience × Bool :=
  if audience.listener.isNone && audience.sink.isNone then (audience, true)
  else
    let told := audience.tell (.reporting solution.number solution.rows)
    let (informed, more) := told.inform solution
    informed.write solution more

theorem receiveHears (audience : Audience) (position : Position) (solution : Solution)
    (read : position.solution = .ok solution) : audience.receive position = .ok (audience.hear solution) := by
  unfold receive hear
  split
  · rfl
  · simp only [read, bind, Except.bind]
    rfl

end Audience

namespace Solver

def opening (solver : Solver) : Audience :=
  ⟨solver.listener, solver.sink, none,
    #[.searching solver.columnCount solver.rowCount solver.config.byFewest], []⟩

def answered (solver : Solver) (yield : Yield) : Reply Nat :=
  let attendance := attend Audience.hear solver.opening yield.solutions
  let removals := attendance.work yield.work
  let audience := (attendance.state.tell (.finished attendance.heard.length removals)).flush
  { value := match audience.failure with
      | some reason => .error (.output reason)
      | none => .ok attendance.heard.length
    solver := { solver with
      position := ⟨solver.torus.withRemovals removals, [], attendance.heard.length⟩
      listener := audience.listener
      sink := audience.sink }
    events := audience.events.toList
    printed := audience.printed }

variable {solver : Solver} {sheet : Sheet}

theorem exploreAnswers (keeps : solver.Keeps sheet) :
    let yield := sheet.search solver.config.byFewest
    Search.run Audience.receive solver.config.byFewest solver.opening solver.position.restart =
      .ok ((attend Audience.hear solver.opening yield.solutions).outcome solver.torus [] 0 yield.work) := by
  obtain ⟨seat, resting, -⟩ := keeps.holds
  have woven : Woven seat sheet sheet.roster (solver.torus.withRemovals 0) :=
    resting.toWoven.withRemovals 0
  have remains := Roster.Remains.ofSheet sheet
  have empty : ∀ entry ∈ ([] : List (Nat × Nat)), entry.2 ∈ sheet.columnsOf entry.1 := by simp
  have tells : Woven.Tells Audience.receive Audience.hear seat sheet solver.config.byFewest
      solver.torus.cells.size :=
    Woven.exploreTells Audience.receiveHears keeps.sound solver.config.byFewest solver.torus.cells.size
  exact tells woven remains empty (woven.pendingRoom remains) solver.opening 0

theorem solveAnswers (keeps : solver.Keeps sheet) :
    solver.solve = .ok (solver.answered (sheet.search solver.config.byFewest)) := by
  simp only [solve, bind, Except.bind]
  rw [show (⟨solver.listener, solver.sink, none, #[Event.searching solver.columnCount solver.rowCount
    solver.config.byFewest], []⟩ : Audience) = solver.opening from rfl, exploreAnswers keeps]
  simp only [Attendance.outcome, Nat.zero_add]
  rfl

end Solver

end DancingLinks
