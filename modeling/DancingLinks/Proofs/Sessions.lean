import DancingLinks.Proofs.SolveAnswers

/-! One search after another. Between two calls a solver also holds what its latest search left behind:
a flag that says whether that search was to go on, and a failure of the sink that nobody was told of.
A search sets the flag, reads it after every row, and hands the failure over when it ends; an enumeration
touches neither. So the searches and reads that were made before a search do not show in it. -/
namespace DancingLinks

structure Attention where
  audience : Audience
  more : Bool

namespace Attention

def receive (attention : Attention) (position : Position) : Except Fault Attention := do
  let audience := attention.audience
  if audience.listener.isNone && audience.sink.isNone then return attention
  let solution ← position.solution
  let (informed, answer) := (audience.tell (.reporting solution.number solution.rows)).inform solution
  let more := if audience.listener.isSome then answer else attention.more
  let (audience, more) := informed.write solution more
  return ⟨audience, more⟩

def tryRows (descend : Attention → Position → Except Fault (Attention × Position)) (head : Site) :
    Nat → Site → Attention → Position → Except Fault (Attention × Position)
  | 0, _, _, _ => .error .endless
  | bound + 1, entry, attention, position => do
    if entry = head then return (attention, position)
    let position ← position.enter entry
    let (attention, position) ← descend attention position
    let position ← position.leave entry
    if attention.more then
      let next ← position.torus.follow entry .down
      tryRows descend head bound next attention position
    else return (attention, position)

def explore (byFewest : Bool) : Nat → Attention → Position → Except Fault (Attention × Position)
  | 0, _, _ => .error .endless
  | bound + 1, attention, position => do
    match ← position.torus.branchColumn byFewest with
    | none =>
      let position := position.countFound
      let attention ← attention.receive position
      return (attention, position)
    | some column =>
      let position ← position.cover column
      let head ← position.torus.headOf column
      let first ← position.torus.follow head .down
      let (attention, position) ←
        tryRows (explore byFewest bound) head position.torus.cells.size first attention position
      let position ← position.uncover column
      return (attention, position)

def ofOutcome (outcome : Outcome Audience) : Attention × Position :=
  (⟨outcome.state, outcome.more⟩, outcome.position)

theorem receiveWhileMore (audience : Audience) (position : Position) :
    receive ⟨audience, true⟩ position =
      (audience.receive position).map fun answer => ⟨answer.1, answer.2⟩ := by
  unfold receive Audience.receive
  dsimp only
  split
  · rfl
  · cases position.solution with
    | error fault => rfl
    | ok solution =>
      simp only [bind, Except.bind, pure, Except.pure, Except.map]
      cases listening : audience.listener <;> simp [Audience.inform, Audience.tell, listening]

theorem triesRows {flagged : Attention → Position → Except Fault (Attention × Position)}
    {descend : Audience → Position → Except Fault (Outcome Audience)}
    (same : ∀ audience position, flagged ⟨audience, true⟩ position =
      (descend audience position).map ofOutcome)
    (head : Site) (bound : Nat) (entry : Site) (audience : Audience) (position : Position) :
    tryRows flagged head bound entry ⟨audience, true⟩ position =
      (Search.tryRows descend head bound entry audience position).map ofOutcome := by
  -- another row is tried only while the flag is set, so each row starts with the flag set
  induction bound generalizing entry audience position with
  | zero => rfl
  | succ bound ih =>
    rw [tryRows, Search.tryRows]
    split
    · rfl
    · cases position.enter entry with
      | error fault => rfl
      | ok entered =>
        simp only [bind, Except.bind, same]
        cases descend audience entered with
        | error fault => rfl
        | ok outcome =>
          simp only [Except.map, ofOutcome]
          cases outcome.position.leave entry with
          | error fault => rfl
          | ok left =>
            cases goes : outcome.more with
            | false => rfl
            | true =>
              simp only [if_true]
              cases left.torus.follow entry .down with
              | error fault => rfl
              | ok next => exact ih next outcome.state left

theorem exploreWhileMore (byFewest : Bool) (bound : Nat) (audience : Audience) (position : Position) :
    explore byFewest bound ⟨audience, true⟩ position =
      (Search.explore Audience.receive byFewest bound audience position).map ofOutcome := by
  induction bound generalizing audience position with
  | zero => rfl
  | succ bound ih =>
    rw [explore, Search.explore]
    cases position.torus.branchColumn byFewest with
    | error fault => rfl
    | ok choice =>
      cases choice with
      | none =>
        simp only [bind, Except.bind, receiveWhileMore]
        cases audience.receive position.countFound <;> rfl
      | some column =>
        simp only [bind, Except.bind]
        cases position.cover column with
        | error fault => rfl
        | ok shut =>
          dsimp only
          cases shut.torus.headOf column with
          | error fault => rfl
          | ok head =>
            dsimp only
            cases shut.torus.follow head .down with
            | error fault => rfl
            | ok first =>
              simp only [triesRows ih]
              cases Search.tryRows (Search.explore Audience.receive byFewest bound) head
                  shut.torus.cells.size first audience shut with
              | error fault => rfl
              | ok outcome =>
                simp only [Except.map, ofOutcome]
                cases outcome.position.uncover column <;> rfl

end Attention

structure Session where
  solver : Solver
  more : Bool
  failure : Option String

namespace Session

def ofConfig (config : Config) : Session := ⟨.ofConfig config, true, none⟩

def hearing (session : Session) (listener : Option Listener) (sink : Option Sink) : Session :=
  { session with solver := { session.solver with listener, sink } }

/-- A search starts with the flag set and with the failure as it is; it hands the failure over. -/
def solve (session : Session) : Except Fault (Reply Nat × Session) := do
  let solver := session.solver
  let byFewest := solver.config.byFewest
  let opening := .searching solver.columnCount solver.rowCount byFewest
  let audience : Audience := ⟨solver.listener, solver.sink, session.failure, #[opening], []⟩
  let position := solver.position.restart
  let (attention, position) ←
    Attention.explore byFewest position.torus.cells.size ⟨audience, true⟩ position
  unless position.path.isEmpty do throw .lostPath
  let audience := attention.audience.tell (.finished position.found position.torus.removals)
  let audience := audience.flush
  let value := match audience.failure with
    | some reason => .error (.output reason)
    | none => .ok position.found
  let solver := { solver with position, listener := audience.listener, sink := audience.sink }
  return (⟨value, solver, audience.events.toList, audience.printed⟩, ⟨solver, attention.more, none⟩)

def perform (session : Session) : Action → Except Fault Session
  | .solve => do return (← session.solve).2
  | action => do
    let solver ← session.solver.perform action
    return { session with solver }

end Session

def Action.isQuiet : Action → Bool
  | .solve | .enumerate _ | .setSink _ _ _ | .clearSink | .setListener _ _ | .clearListener => true
  | _ => false

inductive Errand where
  | call (action : Action) (quiet : action.isQuiet = true)
  | isRowEnabled (row : Nat)
  | openColumns
  | draw (writer : Writer) (message : String)

namespace Session

def run (session : Session) : Errand → Except Fault Session
  | .call action _ => session.perform action
  | .isRowEnabled row => do
    let _ ← session.solver.isRowEnabled row
    return session
  | .openColumns => do
    let _ ← session.solver.openColumns
    return session
  | .draw writer message => do
    let _ ← session.solver.draw writer message
    return session

inductive Past (config : Config) : List Action → Session → Prop where
  | made : Past config [] (.ofConfig config)
  | call {actions session after} (past : Past config actions session) (action : Action)
      (admitted : session.solver.Admits action) (performed : session.perform action = .ok after) :
      Past config (actions ++ [action]) after

def WellBuilt (session : Session) : Prop := ∃ config actions, Past config actions session

end Session

namespace Solver

def goesOn (solver : Solver) (sheet : Sheet) : Bool :=
  (attend Audience.hear solver.opening (sheet.search solver.config.byFewest).solutions).more

/-- One solver but for the counters of the latest search and for those who are told of solutions. -/
def Resembles (solver other : Solver) : Prop :=
  ∃ removals found listener sink, other =
    { solver with position := ⟨solver.torus.withRemovals removals, [], found⟩, listener, sink }

variable {solver other : Solver} {sheet : Sheet} {action : Action}

theorem Resembles.trans {third : Solver} (first : solver.Resembles other) (second : other.Resembles third) :
    solver.Resembles third := by
  obtain ⟨_, _, _, _, rfl⟩ := first
  obtain ⟨removals, found, listener, sink, rfl⟩ := second
  exact ⟨removals, found, listener, sink, rfl⟩

namespace Keeps

theorem audienceResembles (keeps : solver.Keeps sheet) (listener : Option Listener) (sink : Option Sink) :
    solver.Resembles { solver with listener, sink } := by
  have path := keeps.path
  obtain ⟨config, ⟨torus, _, found⟩, names, listener', sink'⟩ := solver
  cases path
  exact ⟨torus.removals, found, listener, sink, rfl⟩

theorem resemblesKeeps (keeps : solver.Keeps sheet) (alike : solver.Resembles other) : other.Keeps sheet := by
  obtain ⟨removals, found, listener, sink, rfl⟩ := alike
  exact keeps.keepsSearched removals found listener sink

theorem readsRow (keeps : solver.Keeps sheet) (row : Nat) :
    ∃ answer, solver.isRowEnabled row = .ok answer := by
  unfold isRowEnabled
  split
  · rename_i inside
    rw [keeps.countsRead.2] at inside
    obtain ⟨seat, resting, listed⟩ := keeps.holds
    rw [enabledRead resting listed keeps.sound inside]
    exact ⟨_, rfl⟩
  · exact ⟨_, rfl⟩

theorem readsOpen (keeps : solver.Keeps sheet) : ∃ names, solver.openColumns = .ok names := by
  obtain ⟨seat, resting, listed⟩ := keeps.holds
  have remains := atRest sheet solver.torus.removals
  have names := resting.toWoven.namesRead fun y pending => Woven.pendingKnown remains pending
  unfold openColumns
  simp only [resting.toWoven.openColumnsRead remains, bind, Except.bind]
  exact ⟨_, names⟩

theorem drawAnswers (keeps : solver.Keeps sheet) (writer : Writer) (message : String) :
    ∃ answer, solver.draw writer message = .ok answer := by
  obtain ⟨seat, resting, listed⟩ := keeps.holds
  have stored : (List.range solver.torus.rows.size).mapM solver.torus.storedRow =
      .ok ((List.range solver.torus.rows.size).map sheet.columnsOf) := by
    rw [← List.map_id (List.range solver.torus.rows.size)]
    refine (mapMOk fun row member => ?_).trans (by rw [List.map_id])
    exact rowStored resting listed keeps.sound (listed.rows ▸ List.mem_range.mp member)
  simp only [draw, Picture.pieces, Picture.lines, stored, bind, Except.bind, pure, Except.pure]
  split <;> exact ⟨_, rfl⟩

theorem quietResembles (keeps : solver.Keeps sheet) (quiet : action.isQuiet = true) :
    ∃ after, solver.perform action = .ok after ∧ solver.Resembles after := by
  cases action with
  | addColumn | newRow | setColumn | disableRow | enableRow | setByFewest => cases quiet
  | setSink | clearSink | setListener | clearListener => exact ⟨_, rfl, keeps.audienceResembles _ _⟩
  | solve =>
    simp only [perform, solveAnswers keeps, bind, Except.bind]
    exact ⟨_, rfl, _, _, _, _, rfl⟩
  | enumerate count =>
    have begun : Poised sheet solver.torus solver.config.byFewest solver.enumeration _ := .fresh
    obtain ⟨search, left, calls, poised, -⟩ := begun.callsAnswer keeps.sound keeps.holds count
    obtain ⟨events, closed⟩ := poised.closeAbandons
    simp only [perform, calls, closed, bind, Except.bind]
    exact ⟨_, rfl, _, _, _, _, rfl⟩

end Keeps

end Solver

namespace Session

variable {session after : Session} {sheet : Sheet} {action : Action}

theorem sessionSolves (keeps : session.solver.Keeps sheet) (settled : session.failure = none) :
    let reply := session.solver.answered (sheet.search session.solver.config.byFewest)
    session.solve = .ok (reply, ⟨reply.solver, session.solver.goesOn sheet, none⟩) := by
  intro reply
  have explored := Attention.exploreWhileMore session.solver.config.byFewest session.solver.torus.cells.size
    session.solver.opening session.solver.position.restart
  rw [show Search.explore _ _ session.solver.torus.cells.size _ _ = _ from
    Solver.exploreAnswers keeps] at explored
  simp only [solve, settled, bind, Except.bind]
  rw [show (⟨session.solver.listener, session.solver.sink, none, #[Event.searching
    session.solver.columnCount session.solver.rowCount session.solver.config.byFewest], []⟩ : Audience) =
    session.solver.opening from rfl, show session.solver.position.restart.torus.cells =
      session.solver.torus.cells from rfl, explored]
  simp only [Except.map, Attention.ofOutcome, Attendance.outcome, Nat.zero_add]
  rfl

theorem sessionPerforms (keeps : session.solver.Keeps sheet) (settled : session.failure = none)
    {solver : Solver} (performed : session.solver.perform action = .ok solver) :
    ∃ after, session.perform action = .ok after ∧ after.solver = solver ∧ after.failure = none := by
  have alone : ∀ action, session.solver.perform action = .ok solver → session.perform action =
      (do return { session with solver := ← session.solver.perform action }) →
      ∃ after, session.perform action = .ok after ∧ after.solver = solver ∧ after.failure = none := by
    intro action performed same
    rw [same, performed]
    exact ⟨_, rfl, rfl, settled⟩
  cases action with
  | solve =>
    simp only [Solver.perform, Solver.solveAnswers keeps, bind, Except.bind, pure, Except.pure] at performed
    cases performed
    simp only [perform, sessionSolves keeps settled, bind, Except.bind]
    exact ⟨_, rfl, rfl, rfl⟩
  | _ => exact alone _ performed rfl

theorem Past.pastSettled {config : Config} {actions : List Action} (past : Past config actions session) :
    History config actions session.solver ∧ session.failure = none := by
  induction past with
  | made => exact ⟨.made, rfl⟩
  | call past action admitted performed ih =>
    obtain ⟨history, settled⟩ := ih
    have keeps := history.historyKeeps.1
    obtain ⟨solver, done, -⟩ := keeps.performKeeps admitted
    obtain ⟨after, same, rfl, none⟩ := sessionPerforms keeps settled done
    cases same.symm.trans performed
    exact ⟨history.call action admitted done, none⟩

theorem runResembles (keeps : session.solver.Keeps sheet) (settled : session.failure = none)
    (errand : Errand) :
    ∃ after, session.run errand = .ok after ∧ session.solver.Resembles after.solver ∧
      after.failure = none := by
  have same : session.solver.Resembles session.solver :=
    keeps.audienceResembles session.solver.listener session.solver.sink
  cases errand with
  | call action quiet =>
    obtain ⟨solver, performed, alike⟩ := keeps.quietResembles quiet
    obtain ⟨after, done, rfl, none⟩ := sessionPerforms keeps settled performed
    exact ⟨after, done, alike, none⟩
  | isRowEnabled row =>
    obtain ⟨answer, read⟩ := keeps.readsRow row
    exact ⟨session, by rw [run, read]; rfl, same, settled⟩
  | openColumns =>
    obtain ⟨answer, read⟩ := keeps.readsOpen
    exact ⟨session, by rw [run, read]; rfl, same, settled⟩
  | draw writer message =>
    obtain ⟨answer, read⟩ := keeps.drawAnswers writer message
    exact ⟨session, by rw [run, read]; rfl, same, settled⟩

theorem runsAll (keeps : session.solver.Keeps sheet) (settled : session.failure = none)
    (errands : List Errand) :
    ∃ after, errands.foldlM run session = .ok after ∧ session.solver.Resembles after.solver ∧
      after.failure = none := by
  induction errands generalizing session with
  | nil =>
    exact ⟨session, rfl, keeps.audienceResembles session.solver.listener session.solver.sink, settled⟩
  | cons errand rest ih =>
    obtain ⟨middle, first, alike, none⟩ := runResembles keeps settled errand
    obtain ⟨after, later, similar, none⟩ := ih (keeps.resemblesKeeps alike) none
    refine ⟨after, ?_, alike.trans similar, none⟩
    rw [List.foldlM_cons, first]
    exact later

theorem solvesAlike (keeps : session.solver.Keeps sheet) (alike : session.solver.Resembles after.solver)
    (settled : session.failure = none) (settled' : after.failure = none) (listener : Option Listener)
    (sink : Option Sink) :
    ∃ reply last, (session.hearing listener sink).solver.solve = .ok reply ∧
      (session.hearing listener sink).solve = .ok (reply, last) ∧
      (after.hearing listener sink).solve = .ok (reply, last) := by
  have before : (session.hearing listener sink).solver.Keeps sheet := keeps.keptForAudience listener sink
  have later : (after.hearing listener sink).solver.Keeps sheet :=
    (keeps.resemblesKeeps alike).keptForAudience listener sink
  refine ⟨_, _, Solver.solveAnswers before, sessionSolves before settled,
    (sessionSolves later settled').trans ?_⟩
  obtain ⟨solver, more, failure⟩ := after
  obtain ⟨removals, found, listener', sink', rfl⟩ := alike
  rfl

theorem enumeratesAlike (keeps : session.solver.Keeps sheet)
    (alike : session.solver.Resembles after.solver) (listener : Option Listener) (sink : Option Sink)
    (count : Nat) :
    ∃ outcomes search closed,
      (session.hearing listener sink).solver.enumeration.calls count = .ok (outcomes, search) ∧
      (after.hearing listener sink).solver.enumeration.calls count = .ok (outcomes, search) ∧
      (session.hearing listener sink).solver.close search = .ok closed ∧
      (after.hearing listener sink).solver.close search = .ok closed := by
  have before : (session.hearing listener sink).solver.Keeps sheet := keeps.keptForAudience listener sink
  obtain ⟨outcomes, search, calls, solver, events, closed, -⟩ := before.enumerateKeeps count
  refine ⟨outcomes, search, (solver, events), calls, ?_, closed, ?_⟩
  all_goals
    obtain ⟨_, more, failure⟩ := after
    obtain ⟨removals, found, listener', sink', rfl⟩ := alike
  · exact calls
  · exact closed

end Session

theorem laterSearchesUndisturbed {session : Session} (built : session.WellBuilt)
    (errands : List Errand) :
    ∃ after, errands.foldlM Session.run session = .ok after ∧ ∀ listener sink,
      (∃ reply last, (session.hearing listener sink).solver.solve = .ok reply ∧
        (session.hearing listener sink).solve = .ok (reply, last) ∧
        (after.hearing listener sink).solve = .ok (reply, last)) ∧
      ∀ count, ∃ outcomes search closed,
        (session.hearing listener sink).solver.enumeration.calls count = .ok (outcomes, search) ∧
        (after.hearing listener sink).solver.enumeration.calls count = .ok (outcomes, search) ∧
        (session.hearing listener sink).solver.close search = .ok closed ∧
        (after.hearing listener sink).solver.close search = .ok closed := by
  obtain ⟨config, actions, past⟩ := built
  obtain ⟨history, settled⟩ := past.pastSettled
  have keeps := history.historyKeeps.1
  obtain ⟨after, done, alike, none⟩ := Session.runsAll keeps settled errands
  exact ⟨after, done, fun listener sink =>
    ⟨Session.solvesAlike keeps alike settled none listener sink,
      Session.enumeratesAlike keeps alike listener sink⟩⟩

def Action.isSolve : Action → Bool
  | .solve => true
  | _ => false

theorem Session.Past.ofHistory {config : Config} {actions : List Action} {solver : Solver}
    (history : History config actions solver) (unsolved : ∀ action ∈ actions, action.isSolve = false) :
    Session.Past config actions ⟨solver, true, none⟩ := by
  induction history with
  | made => exact .made
  | @call actions solver after past action admitted performed ih =>
    have before := ih fun other member => unsolved other (List.mem_append_left _ member)
    have last := unsolved action (List.mem_append_right _ List.mem_cons_self)
    refine before.call action admitted ?_
    cases action with
    | solve => cases last
    | _ => simp only [Session.perform, performed, bind, Except.bind, pure, Except.pure]

theorem Session.choiceBuilt : Session.WellBuilt ⟨.choice, true, none⟩ :=
  ⟨_, _, .ofHistory Solver.choiceMade (by decide)⟩

def Errand.beforehand : List Errand :=
  [.call (.setListener fun calls => calls.size != 2) rfl, .call .solve rfl, .call (.enumerate 2) rfl,
    .call (.setSink (.bounded (some 10) (some "full") none) "\n" "\n") rfl, .call .solve rfl,
    .call (.setSink (.bounded none none (some "stuck")) "\n" "\n") rfl, .call .solve rfl, .openColumns]

theorem choiceUndisturbed :
    Session.WellBuilt ⟨.choice, true, none⟩ ∧
    ∃ after, Errand.beforehand.foldlM Session.run ⟨.choice, true, none⟩ = .ok after ∧ ∀ listener sink,
      (∃ reply last, (Session.hearing ⟨.choice, true, none⟩ listener sink).solver.solve = .ok reply ∧
        (Session.hearing ⟨.choice, true, none⟩ listener sink).solve = .ok (reply, last) ∧
        (after.hearing listener sink).solve = .ok (reply, last)) ∧
      ∀ count, ∃ outcomes search closed,
        (Session.hearing ⟨.choice, true, none⟩ listener sink).solver.enumeration.calls count =
          .ok (outcomes, search) ∧
        (after.hearing listener sink).solver.enumeration.calls count = .ok (outcomes, search) ∧
        (Session.hearing ⟨.choice, true, none⟩ listener sink).solver.close search = .ok closed ∧
        (after.hearing listener sink).solver.close search = .ok closed :=
  ⟨Session.choiceBuilt, laterSearchesUndisturbed Session.choiceBuilt Errand.beforehand⟩

end DancingLinks
