import DancingLinks.Proofs.PartialEnumeration
import DancingLinks.Solver.Build

/-! The calls that change a solver, the solvers that can be made by them, and the sheet that such a
history leaves. The one call that a history must not have is an entry set in a row that is out of play:
the entry would be linked in its own column and the row's other entries would not. Every other call is
answered, valid or not, and keeps the solver at rest on the sheet. -/
namespace DancingLinks

inductive Action where
  | addColumn (name : String) (isPrimary : Bool)
  | newRow
  | setColumn (column : ColumnRef)
  | disableRow (row : Nat)
  | enableRow (row : Nat)
  | setByFewest (byFewest : Bool)
  | setSink (policy : Policy) (lineEnd solutionEnd : String)
  | clearSink
  | setListener (answer : Array Call → Bool) (prints : Array Call → String := Listener.silent)
  | clearListener
  | solve
  | enumerate (count : Nat)

namespace Solver

def perform (solver : Solver) : Action → Except Fault Solver
  | .addColumn name isPrimary => do return (← solver.addColumn name isPrimary).solver
  | .newRow => return solver.newRow
  | .setColumn column => do return (← solver.setColumn column).solver
  | .disableRow row => do return (← solver.disableRow row).solver
  | .enableRow row => do return (← solver.enableRow row).solver
  | .setByFewest byFewest => return solver.setByFewest byFewest
  | .setSink policy lineEnd solutionEnd => return solver.setSink policy lineEnd solutionEnd
  | .clearSink => return solver.clearSink
  | .setListener answer prints => return solver.setListener answer prints
  | .clearListener => return solver.clearListener
  | .solve => do return (← solver.solve).solver
  | .enumerate count => do
    let (_, search) ← solver.enumeration.calls count
    let (solver, _) ← solver.close search
    return solver

/-- No entry is added to a row that is out of play. -/
def Admits (solver : Solver) : Action → Prop
  | .setColumn column => ∀ index after, solver.resolve column = some index →
    solver.torus.place index = .ok (.placed, after) →
    solver.torus.isRowEnabled solver.torus.rowInProgress ≠ .ok false
  | _ => True

end Solver

inductive History (config : Config) : List Action → Solver → Prop where
  | made : History config [] (.ofConfig config)
  | call {actions solver after} (past : History config actions solver) (action : Action)
      (admitted : solver.Admits action) (performed : solver.perform action = .ok after) :
      History config (actions ++ [action]) after

def WellBuilt (solver : Solver) : Prop := ∃ config actions, History config actions solver

namespace Sheet

def perform (permissive : Bool) (sheet : Sheet) : Action → Sheet
  | .addColumn name isPrimary =>
    if (sheet.find? name).isSome && !permissive then sheet else sheet.addColumn name isPrimary
  | .newRow => sheet.newRow
  | .setColumn column =>
    match sheet.resolve column with
    | some index => sheet.place index
    | none => sheet
  | .disableRow row => if row < sheet.rows.length then sheet.disable row else sheet
  | .enableRow row => if row < sheet.rows.length then sheet.enable row else sheet
  | _ => sheet

def after (config : Config) (actions : List Action) : Sheet :=
  actions.foldl (perform config.permissive) .empty

theorem afterCall (config : Config) (actions : List Action) (action : Action) :
    after config (actions ++ [action]) = (after config actions).perform config.permissive action := by
  simp only [after, List.foldl_append, List.foldl_cons, List.foldl_nil]

theorem findAdded (sheet : Sheet) (name : String) (isPrimary : Bool) (other : String) :
    (sheet.addColumn name isPrimary).find? other =
      if other = name then some sheet.columns.length else sheet.find? other := by
  have length : (sheet.addColumn name isPrimary).columns.length = sheet.columns.length + 1 := by
    simp [addColumn]
  have new : (sheet.addColumn name isPrimary).nameOf sheet.columns.length = name := by
    simp [nameOf, addColumn]
  have old : ∀ column < sheet.columns.length,
      (sheet.addColumn name isPrimary).nameOf column = sheet.nameOf column := by
    intro column inside
    simp only [nameOf, addColumn]
    rw [List.getElem?_append_left inside]
  have kept : ∀ columns : List Nat, (∀ column ∈ columns, column < sheet.columns.length) →
      columns.find? (fun column => (sheet.addColumn name isPrimary).nameOf column == other) =
        columns.find? fun column => sheet.nameOf column == other := by
    intro columns inside
    induction columns with
    | nil => rfl
    | cons column rest ih =>
      rw [List.find?_cons, List.find?_cons, old column (inside column List.mem_cons_self),
        ih fun y member => inside y (List.mem_cons_of_mem _ member)]
  rw [find?, length, List.range_succ, List.reverse_append, List.reverse_singleton, List.singleton_append,
    List.find?_cons, new]
  by_cases same : other = name
  · simp [same]
  · have unequal : (name == other) = false := by simpa using Ne.symm same
    rw [if_neg same, unequal]
    exact kept _ (by simp)

theorem namesRecorded {sheet : Sheet} {names : Names} (same : ∀ name, names.find? name = sheet.find? name)
    (name : String) (isPrimary : Bool) (other : String) :
    (names.record name sheet.columns.length).find? other = (sheet.addColumn name isPrimary).find? other := by
  rw [findAdded, ← same other]
  by_cases here : other = name
  · rw [if_pos here, here]
    exact Names.findRecorded ..
  · rw [if_neg here]
    exact Names.findOther _ _ here

theorem findKnown {sheet : Sheet} {name : String} {index : Nat} (found : sheet.find? name = some index) :
    index < sheet.columns.length := by
  have member := List.mem_of_find?_eq_some found
  simpa using member

theorem resolveKnown {sheet : Sheet} {column : ColumnRef} {index : Nat}
    (found : sheet.resolve column = some index) : index < sheet.columns.length := by
  cases column with
  | named name => exact findKnown found
  | numbered number =>
    simp only [resolve] at found
    split at found
    · rename_i inside
      cases found
      exact inside
    · cases found

end Sheet

def Solver.toggleRow (solver : Solver) (turn : Torus → Nat → Except Fault (Bool × Torus)) (row : Nat)
    (event : Event) : Except Fault (Reply Unit) := do
  if row < solver.rowCount then
    let (isChanged, torus) ← turn solver.torus row
    return ⟨.ok (), solver.withTorus torus, if isChanged then [event] else [], []⟩
  else return solver.reject (.rowOutOfRange row solver.rowCount)

namespace Solver.Keeps

variable {solver : Solver} {sheet : Sheet} {row : Nat}

theorem countsRead (keeps : solver.Keeps sheet) :
    solver.columnCount = sheet.columns.length ∧ solver.rowCount = sheet.rows.length := by
  obtain ⟨seat, resting, listed⟩ := keeps.holds
  exact ⟨resting.width, listed.rows⟩

theorem resolveRead (keeps : solver.Keeps sheet) (column : ColumnRef) :
    solver.resolve column = sheet.resolve column := by
  cases column with
  | named name => exact keeps.names name
  | numbered index => rw [resolve, Sheet.resolve, keeps.countsRead.1]

theorem ofConfig (config : Config) : (Solver.ofConfig config).Keeps .empty where
  sound := Sheet.Sound.emptySound
  holds := Torus.Holds.ofEmpty
  path := rfl
  names _ := rfl

theorem withTorus (keeps : solver.Keeps sheet) {torus : Torus} {sheet' : Sheet}
    (holds : torus.Holds sheet') (sound : sheet'.Sound) (columns : sheet'.columns = sheet.columns) :
    (solver.withTorus torus).Keeps sheet' where
  sound := sound
  holds := holds
  path := keeps.path
  names name := by
    have same : sheet'.find? name = sheet.find? name := by
      unfold Sheet.find? Sheet.nameOf
      rw [columns]
    exact (keeps.names name).trans same.symm

theorem answersColumn (keeps : solver.Keeps sheet) (name : String) (isPrimary : Bool) :
    ∃ reply, solver.addColumn name isPrimary = .ok reply ∧
      (reply.value = if (sheet.find? name).isSome && !solver.config.permissive then
        .error (.duplicateColumn name) else .ok sheet.columns.length) ∧
      reply.solver.Keeps (sheet.perform solver.config.permissive (.addColumn name isPrimary)) ∧
      reply.solver.config = solver.config := by
  rw [Sheet.perform, ← keeps.names name]
  cases turned : (solver.names.find? name).isSome && !solver.config.permissive with
  | true =>
    refine ⟨⟨.error (.duplicateColumn name), solver, [], []⟩, ?_, rfl, ?_, rfl⟩
    · simp only [addColumn, turned, if_true]
      rfl
    · rw [if_pos rfl]
      exact keeps
  | false =>
    obtain ⟨torus, added, holds⟩ := keeps.holds.addColumn keeps.sound name isPrimary
    have read : solver.addColumn name isPrimary = .ok ⟨.ok sheet.columns.length,
        { solver.withTorus torus with names := solver.names.record name sheet.columns.length },
        if (solver.names.find? name).isSome then [.ignored (.duplicateColumn name)] else [], []⟩ := by
      simp only [addColumn, turned, Bool.false_eq_true, if_false, added, bind, Except.bind]
      rfl
    refine ⟨_, read, rfl, ?_, rfl⟩
    rw [if_neg Bool.false_ne_true]
    exact ⟨keeps.sound.addColumnSound name isPrimary, holds, keeps.path,
      Sheet.namesRecorded keeps.names name isPrimary⟩

theorem addsColumn (keeps : solver.Keeps sheet) (name : String) (isPrimary : Bool) :
    ∃ reply, solver.addColumn name isPrimary = .ok reply ∧
      reply.solver.Keeps (sheet.perform solver.config.permissive (.addColumn name isPrimary)) ∧
      reply.solver.config = solver.config := by
  obtain ⟨reply, added, -, kept, config⟩ := keeps.answersColumn name isPrimary
  exact ⟨reply, added, kept, config⟩

theorem rejectUnchanged (solver : Solver) (error : Error) : (solver.reject error).solver = solver := by
  unfold reject
  split <;> rfl

theorem setsFresh (keeps : solver.Keeps sheet) {column : ColumnRef} {index : Nat}
    (resolved : sheet.resolve column = some index)
    (fresh : index ∉ sheet.columnsOf sheet.rowInProgress)
    (inPlay : ∀ y ∈ sheet.columnsOf sheet.rowInProgress, sheet.rowInProgress ∈ sheet.live y) :
    ∃ reply, solver.setColumn column = .ok reply ∧ reply.value = .ok () ∧
      reply.solver.Keeps (sheet.place index) ∧ reply.solver.config = solver.config := by
  have known := Sheet.resolveKnown resolved
  obtain ⟨torus, placed, holds⟩ := keeps.holds.placeFresh keeps.sound known fresh inPlay
  refine ⟨⟨.ok (), solver.withTorus torus, [], []⟩, ?_, rfl, ?_, rfl⟩
  · simp only [setColumn, (keeps.resolveRead column).trans resolved, placed, bind, Except.bind]
    rfl
  · exact keeps.withTorus holds (keeps.sound.placeSound known inPlay) (Sheet.columnsPlaced sheet index)

theorem setsColumn (keeps : solver.Keeps sheet) (column : ColumnRef)
    (admitted : solver.Admits (.setColumn column)) :
    ∃ reply, solver.setColumn column = .ok reply ∧
      reply.solver.Keeps (sheet.perform solver.config.permissive (.setColumn column)) ∧
      reply.solver.config = solver.config := by
  have resolves := keeps.resolveRead column
  rw [Sheet.perform]
  cases resolved : sheet.resolve column with
  | none =>
    rw [resolved] at resolves
    refine ⟨solver.reject (.unknownColumn column), ?_, ?_, ?_⟩
    · rw [setColumn, resolves]
      rfl
    · rw [rejectUnchanged]
      exact keeps
    · rw [rejectUnchanged]
  | some index =>
    rw [resolved] at resolves
    have known := Sheet.resolveKnown resolved
    by_cases there : index ∈ sheet.columnsOf sheet.rowInProgress
    · obtain ⟨header, found, again⟩ := keeps.holds.placeAgain keeps.sound known there
      have same : sheet.place index = sheet := by simp only [Sheet.place, if_pos there]
      refine ⟨solver.reject (.duplicateEntry sheet.rowInProgress header.name), ?_, ?_, ?_⟩
      · simp only [setColumn, resolves, again, found, bind, Except.bind]
        rfl
      · rw [rejectUnchanged]
        simp only [same]
        exact keeps
      · rw [rejectUnchanged]
    · obtain ⟨_, placed⟩ := keeps.holds.placeAnswered keeps.sound known there
      have inPlay := keeps.holds.rowInPlay keeps.sound (admitted index _ resolves placed)
      obtain ⟨reply, set, -, kept, config⟩ := keeps.setsFresh resolved there inPlay
      exact ⟨reply, set, kept, config⟩

theorem togglesRow (keeps : solver.Keeps sheet) {toggle : Solver → Nat → Except Fault (Reply Unit)}
    {turn : Torus → Nat → Except Fault (Bool × Torus)} {turned : Sheet} (event : Event)
    (reads : toggle solver row = solver.toggleRow turn row event)
    (turns : row < sheet.rows.length → ∃ isChanged after, turn solver.torus row = .ok (isChanged, after) ∧
      after.Holds turned)
    (sound : turned.Sound) (columns : turned.columns = sheet.columns) :
    ∃ reply, toggle solver row = .ok reply ∧
      reply.solver.Keeps (if row < sheet.rows.length then turned else sheet) ∧
      reply.solver.config = solver.config := by
  have count := keeps.countsRead.2
  rw [reads, toggleRow, ← count]
  by_cases inside : row < solver.rowCount
  · obtain ⟨isChanged, after, turns, holds⟩ := turns (count ▸ inside)
    simp only [if_pos inside, turns, bind, Except.bind]
    exact ⟨_, rfl, keeps.withTorus holds sound columns, rfl⟩
  · refine ⟨solver.reject (.rowOutOfRange row solver.rowCount), ?_, ?_, ?_⟩
    · rw [if_neg inside]
      rfl
    · rw [if_neg inside, rejectUnchanged]
      exact keeps
    · rw [rejectUnchanged]

theorem keepsSearched (keeps : solver.Keeps sheet) (removals found : Nat) (listener : Option Listener)
    (sink : Option Sink) :
    ({ solver with position := ⟨solver.torus.withRemovals removals, [], found⟩, listener, sink } :
      Solver).Keeps sheet :=
  ⟨keeps.sound, keeps.holds.withRemovals removals, rfl, keeps.names⟩

theorem enumerateKeeps (keeps : solver.Keeps sheet) (count : Nat) :
    ∃ outcomes search, solver.enumeration.calls count = .ok (outcomes, search) ∧
      ∃ after events, solver.close search = .ok (after, events) ∧ after.Keeps sheet ∧
        after.config = solver.config := by
  have begun : Poised sheet solver.torus solver.config.byFewest solver.enumeration _ := .fresh
  obtain ⟨search, left, calls, poised, -⟩ := begun.callsAnswer keeps.sound keeps.holds count
  obtain ⟨events, closed⟩ := poised.closeAbandons
  exact ⟨_, search, calls, _, events, closed, keeps.keepsSearched _ _ solver.listener solver.sink, rfl⟩

theorem performKeeps (keeps : solver.Keeps sheet) {action : Action} (admitted : solver.Admits action) :
    ∃ after, solver.perform action = .ok after ∧
      after.Keeps (sheet.perform solver.config.permissive action) ∧
      after.config.permissive = solver.config.permissive := by
  have answered : ∀ {α : Type} {call : Except Fault (Reply α)} {sheet' : Sheet},
      (∃ reply, call = .ok reply ∧ reply.solver.Keeps sheet' ∧ reply.solver.config = solver.config) →
      ∃ after, (do return (← call).solver) = Except.ok after ∧ after.Keeps sheet' ∧
        after.config.permissive = solver.config.permissive := by
    intro α _ sheet' answered
    obtain ⟨reply, rfl, kept, config⟩ := answered
    exact ⟨reply.solver, rfl, kept, congrArg Config.permissive config⟩
  cases action with
  | addColumn name isPrimary => exact answered (keeps.addsColumn name isPrimary)
  | newRow => exact ⟨_, rfl, keeps.withTorus keeps.holds.newRow keeps.sound.newRowSound rfl, rfl⟩
  | setColumn column => exact answered (keeps.setsColumn column admitted)
  | disableRow row =>
    exact answered (keeps.togglesRow (.disabled row) rfl
      (fun inside => ⟨_, keeps.holds.disableRow keeps.sound inside⟩) (keeps.sound.disableSound row) rfl)
  | enableRow row =>
    exact answered (keeps.togglesRow (.enabled row) rfl
      (fun inside => ⟨_, keeps.holds.enableRow keeps.sound inside⟩) (keeps.sound.enableSound row)
      (Sheet.columnsEnabled sheet row))
  | setByFewest byFewest => exact ⟨_, rfl, ⟨keeps.sound, keeps.holds, keeps.path, keeps.names⟩, rfl⟩
  | setSink policy lineEnd solutionEnd =>
    exact ⟨_, rfl, ⟨keeps.sound, keeps.holds, keeps.path, keeps.names⟩, rfl⟩
  | clearSink => exact ⟨_, rfl, ⟨keeps.sound, keeps.holds, keeps.path, keeps.names⟩, rfl⟩
  | setListener answer prints => exact ⟨_, rfl, ⟨keeps.sound, keeps.holds, keeps.path, keeps.names⟩, rfl⟩
  | clearListener => exact ⟨_, rfl, ⟨keeps.sound, keeps.holds, keeps.path, keeps.names⟩, rfl⟩
  | solve => exact answered ⟨_, solveAnswers keeps, keeps.keepsSearched _ _ _ _, rfl⟩
  | enumerate count =>
    obtain ⟨outcomes, search, calls, after, events, closed, kept, config⟩ := keeps.enumerateKeeps count
    refine ⟨after, ?_, kept, congrArg Config.permissive config⟩
    simp only [perform, calls, closed, bind, Except.bind]
    rfl

end Solver.Keeps

theorem History.historyKeeps {config : Config} {actions : List Action} {solver : Solver}
    (history : History config actions solver) :
    solver.Keeps (.after config actions) ∧ solver.config.permissive = config.permissive := by
  induction history with
  | made => exact ⟨.ofConfig config, rfl⟩
  | call past action admitted performed ih =>
    obtain ⟨keeps, permissive⟩ := ih
    obtain ⟨after, done, kept, same⟩ := keeps.performKeeps admitted
    cases done.symm.trans performed
    rw [permissive] at kept same
    rw [Sheet.afterCall]
    exact ⟨kept, same⟩

namespace Solver

def spares (solver : Solver) : Action → Bool
  | .setColumn _ =>
    match solver.torus.isRowEnabled solver.torus.rowInProgress with
    | .ok isEnabled => isEnabled
    | .error _ => true
  | _ => true

theorem sparesAdmits {solver : Solver} {action : Action} (spares : solver.spares action = true) :
    solver.Admits action := by
  cases action with
  | setColumn column =>
    intro index after _ _ out
    simp [Solver.spares, out] at spares
  | _ => trivial

def replay (solver : Solver) : List Action → Option Solver
  | [] => some solver
  | action :: rest =>
    if solver.spares action then
      match solver.perform action with
      | .ok after => replay after rest
      | .error _ => none
    else none

end Solver

theorem History.historyReplayed {config : Config} {actions more : List Action} {solver after : Solver}
    (past : History config actions solver) (replays : solver.replay more = some after) :
    History config (actions ++ more) after := by
  induction more generalizing actions solver with
  | nil =>
    cases replays
    rw [List.append_nil]
    exact past
  | cons action rest ih =>
    rw [Solver.replay] at replays
    split at replays
    · rename_i spares
      split at replays
      · rename_i middle performed
        have later := ih (past.call action (Solver.sparesAdmits spares) performed) replays
        rwa [List.append_assoc] at later
      · cases replays
    · cases replays

namespace Solver

def rowCalls (names : List String) : List Action :=
  .newRow :: names.map fun name => .setColumn (.named name)

def choiceCalls : List Action :=
  [.addColumn "a" true, .addColumn "s" false, .addColumn "b" true, .addColumn "c" true] ++
    [["a", "s"], ["b", "s"], ["a", "b"], ["c"], ["a"], ["b", "c"], ["c"]].flatMap rowCalls ++
    [.disableRow 4, .enableRow 4, .disableRow 6, .setListener fun _ => true,
      .setSink (.bounded none none none) "\n" "\n"]

/-- Three primary columns and a secondary one that two rows would cover twice, a row that was out of
play and is back, one that is out of play, and a listener and a sink that learn of all four covers. -/
def choice : Solver := ((ofConfig .standard).replay choiceCalls).getD (ofConfig .standard)

theorem choiceMade : History .standard choiceCalls .choice := by
  have ends : ((ofConfig .standard).replay choiceCalls).isSome = true := rfl
  obtain ⟨made, replays⟩ := Option.isSome_iff_exists.mp ends
  have same : choice = made := by rw [choice, replays, Option.getD_some]
  exact same ▸ History.made.historyReplayed replays

end Solver

end DancingLinks
