import DancingLinks.Proofs.RowLayout
import DancingLinks.Proofs.RingsRead

/-! Calls that are turned down. A call that builds is turned down for one of four reasons, in strict mode
only, and the solver is then as it was; in permissive mode nothing but a repeated name makes a difference,
so the two modes build the same as long as every column has a name of its own. A name stands for its
latest column, and an earlier column of that name stays in the matrix as it is. All of this holds in
whatever state the calls have left the columns, so a row that is out of play may be extended, too. -/
namespace DancingLinks

inductive BuildCall where
  | addColumn (name : String) (isPrimary : Bool)
  | newRow
  | setColumn (column : ColumnRef)
  | disableRow (row : Nat)
  | enableRow (row : Nat)

def BuildCall.named? : BuildCall → Option String
  | .addColumn name _ => some name
  | _ => none

namespace Solver

def build (solver : Solver) : BuildCall → Except Fault (Reply Unit)
  | .addColumn name isPrimary => do
    let reply ← solver.addColumn name isPrimary
    return ⟨reply.value.map fun _ => (), reply.solver, reply.events, reply.printed⟩
  | .newRow => return ⟨.ok (), solver.newRow, [], []⟩
  | .setColumn column => solver.setColumn column
  | .disableRow row => solver.disableRow row
  | .enableRow row => solver.enableRow row

def builds : List BuildCall → Solver → Except Fault Solver
  | [], solver => return solver
  | call :: rest, solver => do
    let reply ← solver.build call
    builds rest reply.solver

def permit (solver : Solver) : Solver :=
  { solver with config := { solver.config with permissive := true } }

/-- The reasons for which a call is turned down. -/
inductive TurnsDown (solver : Solver) : BuildCall → Error → Prop where
  | repeated {name isPrimary index} (taken : solver.columnName index = some name) :
      TurnsDown solver (.addColumn name isPrimary) (.duplicateColumn name)
  | unnamed {name} (unknown : ∀ index, solver.columnName index ≠ some name) :
      TurnsDown solver (.setColumn (.named name)) (.unknownColumn (.named name))
  | unnumbered {index} (outside : solver.columnCount ≤ index) :
      TurnsDown solver (.setColumn (.numbered index)) (.unknownColumn (.numbered index))
  | again {column index columns name} (building : solver.torus.current ≠ none)
      (resolved : solver.resolve column = some index)
      (stored : solver.torus.storedRow (solver.rowCount - 1) = .ok columns) (there : index ∈ columns)
      (called : solver.columnName index = some name) :
      TurnsDown solver (.setColumn column) (.duplicateEntry (solver.rowCount - 1) name)
  | disables {row} (outside : solver.rowCount ≤ row) :
      TurnsDown solver (.disableRow row) (.rowOutOfRange row solver.rowCount)
  | enables {row} (outside : solver.rowCount ≤ row) :
      TurnsDown solver (.enableRow row) (.rowOutOfRange row solver.rowCount)

end Solver

structure Torus.Widens (before after : Torus) (name : String) (isPrimary : Bool) : Prop where
  columns : after.columns = before.columns.push ⟨name, before.cells.size, 0, isPrimary, none⟩
  rows : after.rows = before.rows ∧ after.current = before.current
  stored : ∀ row, after.storedRow row = before.storedRow row
  cells : ∀ site < before.cells.size, after.roleAt site = before.roleAt site ∧
    after.link .up site = before.link .up site ∧ after.link .down site = before.link .down site

structure Solver.Answers (solver : Solver) : Prop where
  errors : ∀ call reply, solver.build call = .ok reply → ∀ error,
    reply.value = .error error ↔ solver.config.permissive = false ∧ solver.TurnsDown call error
  unchanged : ∀ call reply error, solver.build call = .ok reply → reply.value = .error error →
    reply.solver = solver
  latest : ∀ name index, solver.columnIndex name = some index ↔ solver.columnName index = some name ∧
    ∀ later, index < later → solver.columnName later ≠ some name
  unknown : ∀ name, solver.columnIndex name = none ↔ ∀ index, solver.columnName index ≠ some name
  repeats : ∀ name isPrimary, solver.config.permissive = true → ∃ reply,
    solver.addColumn name isPrimary = .ok reply ∧ reply.value = .ok solver.columnCount ∧
      solver.torus.Widens reply.solver.torus name isPrimary

theorem findLast {p : Nat → Bool} {count index : Nat} :
    (List.range count).reverse.find? p = some index ↔
      (index < count ∧ p index = true) ∧ ∀ later < count, index < later → p later = false := by
  induction count with
  | zero => simp
  | succ count ih =>
    rw [List.range_succ, List.reverse_append, List.reverse_singleton, List.singleton_append,
      List.find?_cons]
    cases here : p count with
    | true =>
      rw [Option.some_inj]
      constructor
      · intro same
        subst same
        exact ⟨⟨Nat.lt_succ_self _, here⟩, fun later bound after => by omega⟩
      · intro found
        obtain ⟨⟨bound, -⟩, last⟩ := found
        by_contra other
        have none := last count (Nat.lt_succ_self _) (by omega)
        rw [here] at none
        cases none
    | false =>
      rw [ih]
      constructor
      · intro found
        obtain ⟨⟨bound, there⟩, last⟩ := found
        refine ⟨⟨by omega, there⟩, fun later inside after => ?_⟩
        rcases Nat.lt_succ_iff_lt_or_eq.mp inside with before | same
        · exact last later before after
        · exact same ▸ here
      · intro found
        obtain ⟨⟨bound, there⟩, last⟩ := found
        have other : index ≠ count := fun same => by
          rw [same, here] at there
          cases there
        exact ⟨⟨by omega, there⟩, fun later inside after => last later (by omega) after⟩

theorem Sheet.findLatest {sheet : Sheet} {name : String} {index : Nat} :
    sheet.find? name = some index ↔ (sheet.columns.map Prod.fst)[index]? = some name ∧
      ∀ later, index < later → (sheet.columns.map Prod.fst)[later]? ≠ some name := by
  have named : ∀ index, (sheet.columns.map Prod.fst)[index]? = some name ↔
      index < sheet.columns.length ∧ (sheet.nameOf index == name) = true := by
    intro index
    rw [beq_iff_eq]
    constructor
    · intro there
      have inside : index < sheet.columns.length := by
        simpa using (List.getElem?_eq_some_iff.mp there).1
      exact ⟨inside, Option.some.inj ((nameAt inside).symm.trans there)⟩
    · intro there
      rw [nameAt there.1, there.2]
  rw [find?, findLast, named]
  refine and_congr_right fun _ => ?_
  simp only [ne_eq, named, not_and, Bool.not_eq_true]
  exact ⟨fun last later after inside => last later inside after,
    fun last later inside after => last later after inside⟩

namespace Torus

variable {torus after : Torus} {anchor site target : Site} {direction : Direction} {sheet : Sheet}
  {name : String} {isPrimary : Bool} {index : Nat}

theorem insertBesideRead (done : torus.insertBeside anchor direction site = .ok after) :
    after = torus.insertedBeside anchor direction site := by
  obtain ⟨next, leads, done⟩ := bindOk.mp done
  obtain ⟨first, onward, done⟩ := bindOk.mp done
  obtain ⟨second, behind, done⟩ := bindOk.mp done
  obtain ⟨third, returns, last⟩ := bindOk.mp done
  have link : next = torus.link direction anchor := by
    obtain ⟨cell, found, same⟩ := bindOk.mp leads
    cases same
    unfold Torus.cell at found
    split at found
    · rename_i present
      cases found
      simp [Torus.link, present]
    · cases found
  rw [pointRead last, pointRead returns, pointRead behind, pointRead onward, link, insertedBeside]

structure Level (before after : Torus) : Prop where
  columns : after.columns = before.columns
  rows : after.rows = before.rows ∧ after.current = before.current
  cells : ∀ site, after.roleAt site = before.roleAt site ∧
    after.link .up site = before.link .up site ∧ after.link .down site = before.link .down site

theorem insertLevel (across : direction.isAcross = true)
    (done : torus.insertBeside anchor direction site = .ok after) : torus.Level after := by
  have aside : ∀ other : Direction, other.isAcross = false →
      (torus.insertedBeside anchor direction site).link other = torus.link other := by
    intro other aside
    refine linkInsertedAside ?_ ?_
    all_goals cases direction <;> cases other <;> simp_all [Direction.isAcross, Direction.opposite]
  have roles := torus.roleInserted anchor direction site
  rw [insertBesideRead done]
  refine ⟨?_, ?_, fun s => ⟨congrFun roles s, congrFun (aside .up rfl) s, congrFun (aside .down rfl) s⟩⟩
  all_goals rw [insertedKeeps]
  exact ⟨rfl, rfl⟩

theorem addColumnRead (done : torus.addColumn name isPrimary = .ok (index, after)) :
    after.columns = torus.columns.push ⟨name, torus.cells.size, 0, isPrimary, none⟩ ∧
      (after.rows = torus.rows ∧ after.current = torus.current) ∧
      ∀ site < torus.cells.size, after.roleAt site = torus.roleAt site ∧
        after.link .up site = torus.link .up site ∧ after.link .down site = torus.link .down site := by
  have settled : ∀ site < torus.cells.size,
      (torus.settle (.head torus.columns.size)).2.roleAt site = torus.roleAt site := by
    intro site inside
    rw [roleSettled, Function.update_of_ne (Nat.ne_of_lt inside)]
  have links := fun direction site =>
    congrFun (linkSettled torus (.head torus.columns.size) direction) site
  unfold addColumn at done
  cases isPrimary with
  | false =>
    cases done
    exact ⟨rfl, ⟨rfl, rfl⟩, fun site inside => ⟨settled site inside, links .up site, links .down site⟩⟩
  | true =>
    obtain ⟨opened, opens, same⟩ := bindOk.mp done
    cases same
    obtain ⟨columns, rows, cells⟩ : (torus.settle (.head torus.columns.size)).2.Level opened :=
      insertLevel rfl opens
    refine ⟨by rw [columns]; rfl, rows, fun site inside => ?_⟩
    obtain ⟨role, up, down⟩ := cells site
    exact ⟨role.trans (settled site inside), up.trans (links .up site), down.trans (links .down site)⟩

theorem Drafts.addColumnWidens (drafts : torus.Drafts sheet) (name : String) (isPrimary : Bool) :
    ∃ after, torus.addColumn name isPrimary = .ok (sheet.columns.length, after) ∧
      after.Drafts (sheet.addColumn name isPrimary) ∧ torus.Widens after name isPrimary := by
  obtain ⟨laid, added, holds⟩ := drafts.holds.addColumn drafts.sound name isPrimary
  rw [addColumnLaid] at added
  obtain ⟨⟨index, after⟩, done, same⟩ : ∃ answer, torus.addColumn name isPrimary = .ok answer ∧
      (answer.1, answer.2.laid) = (sheet.columns.length, laid) := by
    cases done : torus.addColumn name isPrimary with
    | error fault =>
      rw [done] at added
      cases added
    | ok answer =>
      rw [done] at added
      exact ⟨answer, rfl, Except.ok.inj added⟩
  cases same
  obtain ⟨columns, rows, cells⟩ := addColumnRead done
  have drafts' : after.Drafts (sheet.addColumn name isPrimary) :=
    ⟨drafts.sound.addColumnSound name isPrimary, drafts.bare, holds⟩
  refine ⟨after, done, drafts', columns, rows, fun row => ?_, cells⟩
  rcases Nat.lt_or_ge row sheet.rows.length with inside | outside
  · rw [drafts.storedRead inside, drafts'.storedRead inside]
    rfl
  · have none : torus.rows[row]? = none := Array.getElem?_eq_none (drafts.sizesRead.2 ▸ outside)
    simp [storedRow, firstEntry, rows, none, bind, Except.bind]

end Torus

structure Solver.Drafts (sheet : Sheet) (solver : Solver) : Prop where
  drafts : solver.torus.Drafts sheet
  names : ∀ name, solver.names.find? name = sheet.find? name

namespace Solver

def FailsFor (solver : Solver) (call : BuildCall) (reply : Reply Unit) : Prop := ∀ error,
  (reply.value = .error error ↔ solver.config.permissive = false ∧ solver.TurnsDown call error) ∧
    (reply.value = .error error → reply.solver = solver)

def Redrafts (solver after : Solver) : Prop :=
  (∃ sheet, after.Drafts sheet) ∧ after.config = solver.config

def Toggles (solver : Solver) (turn : Torus → Nat → Except Fault (Bool × Torus)) (row : Nat)
    (event : Event) (reply : Reply Unit) : Prop :=
  (row < solver.rowCount ∧ ∃ isChanged after, turn solver.torus row = .ok (isChanged, after) ∧
      reply = ⟨.ok (), solver.withTorus after, if isChanged then [event] else [], []⟩) ∨
    (solver.rowCount ≤ row ∧ reply = solver.reject (.rowOutOfRange row solver.rowCount))

variable {solver : Solver} {reply : Reply Unit} {row : Nat}

theorem togglesIf {turn : Torus → Nat → Except Fault (Bool × Torus)} {event : Event}
    (done : solver.toggleRow turn row event = .ok reply) : solver.Toggles turn row event reply := by
  unfold toggleRow at done
  split at done
  · rename_i inside
    obtain ⟨⟨isChanged, after⟩, turns, same⟩ := bindOk.mp done
    exact .inl ⟨inside, isChanged, after, turns, (Except.ok.inj same).symm⟩
  · rename_i outside
    exact .inr ⟨Nat.le_of_not_lt outside, (Except.ok.inj done).symm⟩

theorem disableRowToggles (done : solver.disableRow row = .ok reply) :
    solver.Toggles Torus.disableRow row (.disabled row) reply := togglesIf done

theorem enableRowToggles (done : solver.enableRow row = .ok reply) :
    solver.Toggles Torus.enableRow row (.enabled row) reply := togglesIf done

end Solver

namespace Solver.Drafts

variable {solver : Solver} {sheet : Sheet} {call : BuildCall} {reply : Reply Unit}

theorem countsRead (drafts : solver.Drafts sheet) :
    solver.columnCount = sheet.columns.length ∧ solver.rowCount = sheet.rows.length :=
  drafts.drafts.sizesRead

theorem columnNameRead (drafts : solver.Drafts sheet) (index : Nat) :
    solver.columnName index = (sheet.columns.map Prod.fst)[index]? := by
  obtain ⟨seat, resting, -⟩ := drafts.drafts.holds
  have listed := congrArg (List.map Prod.fst) resting.toWoven.namesListed
  rw [← listed]
  simp [columnName, Torus.laid, Function.comp_def]

theorem resolveRead (drafts : solver.Drafts sheet) (column : ColumnRef) :
    solver.resolve column = sheet.resolve column := by
  cases column with
  | named name => exact drafts.names name
  | numbered index => rw [resolve, Sheet.resolve, drafts.countsRead.1]

theorem columnIndexLatest (drafts : solver.Drafts sheet) (name : String) (index : Nat) :
    solver.columnIndex name = some index ↔ solver.columnName index = some name ∧
      ∀ later, index < later → solver.columnName later ≠ some name := by
  simp only [drafts.columnNameRead]
  rw [columnIndex, drafts.names]
  exact Sheet.findLatest

theorem columnIndexNone (drafts : solver.Drafts sheet) (name : String) :
    solver.columnIndex name = none ↔ ∀ index, solver.columnName index ≠ some name := by
  simp only [drafts.columnNameRead]
  rw [columnIndex, drafts.names, Sheet.findNone]
  constructor
  · exact fun absent index there => absent (List.mem_of_getElem? there)
  · intro absent member
    obtain ⟨index, there⟩ := List.getElem?_of_mem member
    exact absent index there

theorem addColumnAnswers (drafts : solver.Drafts sheet) (name : String) (isPrimary : Bool) :
    ∃ reply, solver.addColumn name isPrimary = .ok reply ∧
      ((solver.config.permissive = false ∧ (∃ index, solver.columnName index = some name) ∧
          reply = ⟨.error (.duplicateColumn name), solver, [], []⟩) ∨
        ((solver.config.permissive = true ∨ ∀ index, solver.columnName index ≠ some name) ∧
          reply.value = .ok solver.columnCount ∧ reply.solver.config = solver.config ∧
          solver.torus.Widens reply.solver.torus name isPrimary ∧
          reply.solver.Drafts (sheet.addColumn name isPrimary))) := by
  obtain ⟨after, added, held, widens⟩ := drafts.drafts.addColumnWidens name isPrimary
  have taken : (solver.names.find? name).isSome = true ↔ ∃ index, solver.columnName index = some name := by
    rw [Option.isSome_iff_ne_none, ne_eq, show solver.names.find? name = solver.columnIndex name from rfl,
      drafts.columnIndexNone]
    simp
  cases turned : (solver.names.find? name).isSome && !solver.config.permissive with
  | true =>
    obtain ⟨there, strict⟩ := Bool.and_eq_true_iff.mp turned
    refine ⟨_, ?_, .inl ⟨by simpa using strict, taken.mp there, rfl⟩⟩
    simp only [addColumn, turned, if_true]
    rfl
  | false =>
    refine ⟨⟨.ok sheet.columns.length,
      { solver.withTorus after with names := solver.names.record name sheet.columns.length },
      if (solver.names.find? name).isSome then [.ignored (.duplicateColumn name)] else [], []⟩, ?_,
      .inr ⟨?_, congrArg Except.ok drafts.countsRead.1.symm, rfl, widens, held,
        Sheet.namesRecorded drafts.names name isPrimary⟩⟩
    · simp only [addColumn, turned, Bool.false_eq_true, if_false, added, bind, Except.bind]
      rfl
    · refine (Bool.and_eq_false_iff.mp turned).symm.imp (by simp) fun free index there => ?_
      rw [taken.mpr ⟨index, there⟩] at free
      cases free

theorem setResolvedAnswers (drafts : solver.Drafts sheet) {column : ColumnRef} {index : Nat}
    (resolved : sheet.resolve column = some index) (done : solver.setColumn column = .ok reply) :
    (index ∈ sheet.columnsOf sheet.rowInProgress ∧
        reply = solver.reject (.duplicateEntry sheet.rowInProgress (sheet.nameOf index))) ∨
      (reply.value = .ok () ∧ reply.solver.config = solver.config ∧
        index ∉ sheet.columnsOf sheet.rowInProgress ∧ reply.solver.Drafts (sheet.placeOut index)) := by
  have known := Sheet.resolveKnown resolved
  have progress := drafts.drafts.buildingIff.1
  simp only [setColumn, (drafts.resolveRead column).trans resolved] at done
  obtain ⟨⟨placement, after⟩, placed, done⟩ := bindOk.mp done
  obtain ⟨header, listed, ⟨last, same, rfl⟩ | ⟨other, same, middle, written, noted⟩⟩ :=
    Torus.placeCases placed
  · subst same
    obtain ⟨column, found, done⟩ := bindOk.mp done
    have named : solver.columnName index = some header.name := by
      rw [columnName, listed]
      rfl
    rw [drafts.columnNameRead, Sheet.nameAt known, Option.some_inj] at named
    simp only [Torus.column, listed] at found
    cases found
    rw [← progress, named]
    exact .inl ⟨progress ▸ (drafts.drafts.lastHere listed).mp last, (Except.ok.inj done).symm⟩
  · subst same
    cases done
    have fresh := mt (drafts.drafts.lastHere listed).mpr other
    refine .inr ⟨rfl, rfl, fresh, drafts.drafts.placedDrafts known fresh written noted, fun name => ?_⟩
    have columns : (sheet.placeOut index).columns = sheet.columns := Sheet.placedColumns fresh
    rw [Sheet.find?, columns]
    exact (drafts.names name).trans (by simp only [Sheet.find?, Sheet.nameOf, columns])

theorem setColumnAnswers (drafts : solver.Drafts sheet) {column : ColumnRef}
    (done : solver.build (.setColumn column) = .ok reply) :
    (sheet.resolve column = none ∧ reply = solver.reject (.unknownColumn column)) ∨
      ∃ index, sheet.resolve column = some index ∧
        ((index ∈ sheet.columnsOf sheet.rowInProgress ∧
            reply = solver.reject (.duplicateEntry sheet.rowInProgress (sheet.nameOf index))) ∨
          (reply.value = .ok () ∧ reply.solver.config = solver.config ∧
            index ∉ sheet.columnsOf sheet.rowInProgress ∧ reply.solver.Drafts (sheet.placeOut index))) := by
  have done : solver.setColumn column = .ok reply := done
  cases resolved : sheet.resolve column with
  | none =>
    simp only [setColumn, (drafts.resolveRead column).trans resolved] at done
    exact .inl ⟨rfl, (Except.ok.inj done).symm⟩
  | some index => exact .inr ⟨index, rfl, drafts.setResolvedAnswers resolved done⟩

theorem rejectedFor (solver : Solver) (error reason : Error) :
    (solver.reject reason).value = .error error ↔ solver.config.permissive = false ∧ error = reason := by
  unfold reject
  cases solver.config.permissive with
  | true => simp
  | false => simp [eq_comm]

theorem unknownTurnsDown (drafts : solver.Drafts sheet) {column : ColumnRef}
    (none : sheet.resolve column = Option.none) (error : Error) :
    error = .unknownColumn column ↔ solver.TurnsDown (.setColumn column) error := by
  constructor
  · rintro rfl
    cases column with
    | named name =>
      have absent : solver.columnIndex name = Option.none := (drafts.names name).trans none
      exact .unnamed ((drafts.columnIndexNone name).mp absent)
    | numbered index =>
      refine .unnumbered (Nat.le_of_not_lt fun inside => ?_)
      rw [drafts.countsRead.1] at inside
      simp [Sheet.resolve, inside] at none
  · intro turned
    cases turned with
    | unnamed => rfl
    | unnumbered => rfl
    | again building resolved =>
      rw [drafts.resolveRead, none] at resolved
      cases resolved

theorem buildingRow (drafts : solver.Drafts sheet) (begun : sheet.columnsOf sheet.rowInProgress ≠ []) :
    solver.torus.current ≠ none ∧ solver.rowCount - 1 = sheet.rowInProgress ∧
      solver.torus.storedRow sheet.rowInProgress = .ok (sheet.columnsOf sheet.rowInProgress) := by
  obtain ⟨column, member⟩ := List.exists_mem_of_ne_nil _ begun
  have stored := Sheet.rowKnown member
  have bound := drafts.drafts.sound.progressBounds.2.1
  refine ⟨drafts.drafts.buildingIff.2.mpr begun, ?_, drafts.drafts.storedRead stored⟩
  rw [drafts.countsRead.2]
  omega

theorem repeatTurnsDown (drafts : solver.Drafts sheet) {column : ColumnRef} {index : Nat}
    (resolved : sheet.resolve column = some index) (error : Error) :
    (index ∈ sheet.columnsOf sheet.rowInProgress ∧
        error = .duplicateEntry sheet.rowInProgress (sheet.nameOf index)) ↔
      solver.TurnsDown (.setColumn column) error := by
  have found := (drafts.resolveRead column).trans resolved
  have known := Sheet.resolveKnown resolved
  have named := (drafts.columnNameRead index).trans (Sheet.nameAt known)
  constructor
  · rintro ⟨there, rfl⟩
    obtain ⟨current, last, stored⟩ := drafts.buildingRow (List.ne_nil_of_mem there)
    rw [← last] at stored ⊢
    exact .again current found stored (last ▸ there) named
  · intro turned
    cases turned with
    | unnamed unknown =>
      cases ((drafts.columnIndexNone _).mpr unknown).symm.trans found
    | unnumbered outside =>
      rw [resolve, if_neg (Nat.not_lt_of_le outside)] at found
      cases found
    | again current other stored there called =>
      cases found.symm.trans other
      cases named.symm.trans called
      obtain ⟨-, last, whole⟩ := drafts.buildingRow (drafts.drafts.buildingIff.2.mp current)
      rw [last] at stored ⊢
      cases whole.symm.trans stored
      exact ⟨there, rfl⟩

theorem failsRejected {reason : Error} (turned : ∀ error, error = reason ↔ solver.TurnsDown call error) :
    solver.FailsFor call (solver.reject reason) := by
  intro error
  rw [rejectedFor, turned]
  exact ⟨Iff.rfl, fun _ => Keeps.rejectUnchanged solver reason⟩

theorem failsNever {value : Unit} (well : reply.value = .ok value)
    (never : ∀ error, ¬ solver.TurnsDown call error) : solver.FailsFor call reply := by
  intro error
  simp [well, never]

theorem failsToggling {turn : Torus → Nat → Except Fault (Bool × Torus)} {row : Nat} {event : Event}
    (toggles : solver.Toggles turn row event reply)
    (turned : ∀ error, solver.TurnsDown call error ↔
      error = .rowOutOfRange row solver.rowCount ∧ solver.rowCount ≤ row) :
    solver.FailsFor call reply := by
  rcases toggles with ⟨inside, isChanged, after, -, rfl⟩ | ⟨outside, rfl⟩
  · exact failsNever rfl fun error failed => Nat.not_lt_of_le ((turned error).mp failed).2 inside
  · exact failsRejected fun error => (iff_self_and.mpr fun _ => outside).trans (turned error).symm

theorem buildFailsFor (drafts : solver.Drafts sheet) (done : solver.build call = .ok reply) :
    solver.FailsFor call reply := by
  cases call with
  | addColumn name isPrimary =>
    obtain ⟨answer, adds, same⟩ := bindOk.mp done
    cases same
    have reason : ∀ error, solver.TurnsDown (.addColumn name isPrimary) error ↔
        error = .duplicateColumn name ∧ ∃ index, solver.columnName index = some name := by
      intro error
      constructor
      · intro turned
        cases turned with
        | repeated taken => exact ⟨rfl, _, taken⟩
      · rintro ⟨rfl, index, taken⟩
        exact .repeated taken
    obtain ⟨reply, answered, ⟨strict, taken, rfl⟩ | ⟨allowed, value, -⟩⟩ :=
      drafts.addColumnAnswers name isPrimary
    all_goals cases answered.symm.trans adds
    · refine fun error => ⟨?_, fun _ => rfl⟩
      rw [reason]
      exact ⟨fun failed => ⟨strict, (Except.error.inj failed).symm, taken⟩,
        fun turned => congrArg Except.error turned.2.1.symm⟩
    · intro error
      rw [value, reason]
      refine ⟨⟨nofun, fun turned => ?_⟩, nofun⟩
      obtain ⟨strict, -, index, taken⟩ := turned
      rcases allowed with permissive | free
      · cases strict.symm.trans permissive
      · exact absurd taken (free index)
  | newRow =>
    cases done
    exact failsNever rfl nofun
  | setColumn column =>
    obtain ⟨unknown, rfl⟩ | ⟨index, resolved, ⟨there, rfl⟩ | ⟨well, -, fresh, -⟩⟩ :=
      drafts.setColumnAnswers done
    · exact failsRejected (drafts.unknownTurnsDown unknown)
    · exact failsRejected fun error =>
        (iff_and_self.mpr fun _ => there).trans (drafts.repeatTurnsDown resolved error)
    · exact failsNever well fun error turned => fresh ((drafts.repeatTurnsDown resolved error).mpr turned).1
  | disableRow row =>
    refine failsToggling (disableRowToggles done) fun error => ⟨fun turned => ?_, fun turned => ?_⟩
    · cases turned with
      | disables outside => exact ⟨rfl, outside⟩
    · exact turned.1 ▸ .disables turned.2
  | enableRow row =>
    refine failsToggling (enableRowToggles done) fun error => ⟨fun turned => ?_, fun turned => ?_⟩
    · cases turned with
      | enables outside => exact ⟨rfl, outside⟩
    · exact turned.1 ▸ .enables turned.2

theorem redraftsRejected (drafts : solver.Drafts sheet) (reason : Error) :
    Redrafts solver (solver.reject reason).solver := by
  rw [Keeps.rejectUnchanged]
  exact ⟨⟨sheet, drafts⟩, rfl⟩

theorem redraftsToggled (drafts : solver.Drafts sheet) {turn : Torus → Nat → Except Fault (Bool × Torus)}
    {row : Nat} {event : Event}
    (aside : ∀ {torus isChanged after}, turn torus row = .ok (isChanged, after) → after.laid = torus.laid)
    (toggles : solver.Toggles turn row event reply) : Redrafts solver reply.solver := by
  rcases toggles with ⟨-, isChanged, after, turns, rfl⟩ | ⟨-, rfl⟩
  · exact ⟨⟨sheet, drafts.drafts.draftsAside (aside turns), drafts.names⟩, rfl⟩
  · exact drafts.redraftsRejected _

theorem buildRedrafts (drafts : solver.Drafts sheet) (done : solver.build call = .ok reply) :
    Redrafts solver reply.solver := by
  cases call with
  | addColumn name isPrimary =>
    obtain ⟨answer, adds, same⟩ := bindOk.mp done
    cases same
    obtain ⟨reply, answered, ⟨-, -, rfl⟩ | ⟨-, -, config, -, held⟩⟩ := drafts.addColumnAnswers name isPrimary
    all_goals cases answered.symm.trans adds
    · exact ⟨⟨sheet, drafts⟩, rfl⟩
    · exact ⟨⟨_, held⟩, config⟩
  | newRow =>
    cases done
    exact ⟨⟨_, drafts.drafts.newRow, drafts.names⟩, rfl⟩
  | setColumn column =>
    obtain ⟨-, rfl⟩ | ⟨index, -, ⟨-, rfl⟩ | ⟨-, config, -, held⟩⟩ := drafts.setColumnAnswers done
    · exact drafts.redraftsRejected _
    · exact drafts.redraftsRejected _
    · exact ⟨⟨_, held⟩, config⟩
  | disableRow row => exact drafts.redraftsToggled Torus.disableRowAside (disableRowToggles done)
  | enableRow row => exact drafts.redraftsToggled Torus.enableRowAside (enableRowToggles done)

theorem draftsAnswers (drafts : solver.Drafts sheet) : solver.Answers where
  errors call reply done error := (drafts.buildFailsFor done error).1
  unchanged call reply error done := (drafts.buildFailsFor done error).2
  latest := drafts.columnIndexLatest
  unknown := drafts.columnIndexNone
  repeats name isPrimary permissive := by
    obtain ⟨reply, added, ⟨strict, -⟩ | ⟨-, value, -, widens, -⟩⟩ := drafts.addColumnAnswers name isPrimary
    · cases strict.symm.trans permissive
    · exact ⟨reply, added, value, widens⟩

end Solver.Drafts

theorem Solver.buildsDrafts {calls : List BuildCall} {solver after : Solver} {sheet : Sheet}
    (drafts : solver.Drafts sheet) (done : solver.builds calls = .ok after) :
    (∃ sheet', after.Drafts sheet') ∧ after.config = solver.config := by
  -- a call that goes through may leave another sheet drafted, so the sheet varies with the solver
  induction calls generalizing solver sheet with
  | nil =>
    cases done
    exact ⟨⟨sheet, drafts⟩, rfl⟩
  | cons call rest ih =>
    obtain ⟨reply, first, later⟩ := bindOk.mp done
    obtain ⟨⟨sheet', held⟩, config⟩ := drafts.buildRedrafts first
    obtain ⟨whole, same⟩ := ih held later
    exact ⟨whole, same.trans config⟩

namespace Solver

variable {solver after : Solver} {call : BuildCall} {reply : Reply Unit}

theorem rejectPermitted (solver : Solver) (error : Error) :
    (solver.permit.reject error).solver = (solver.reject error).solver.permit := by
  rw [Keeps.rejectUnchanged, Keeps.rejectUnchanged]

theorem togglePermitted (solver : Solver) (turn : Torus → Nat → Except Fault (Bool × Torus)) (row : Nat)
    (event : Event) :
    (solver.permit.toggleRow turn row event).map Reply.solver =
      ((solver.toggleRow turn row event).map Reply.solver).map permit := by
  unfold toggleRow
  rw [show solver.permit.rowCount = solver.rowCount from rfl,
    show solver.permit.torus = solver.torus from rfl]
  split
  · cases turn solver.torus row <;> rfl
  · exact congrArg Except.ok (rejectPermitted ..)

theorem buildPermitted (untaken : ∀ name, call.named? = some name → solver.columnIndex name = none) :
    (solver.permit.build call).map Reply.solver =
      ((solver.build call).map Reply.solver).map permit := by
  cases call with
  | addColumn name isPrimary =>
    have free : solver.names.find? name = none := untaken name rfl
    have free' : solver.permit.names.find? name = none := free
    simp only [build, addColumn, free, free', Option.isSome_none, Bool.false_and, Bool.false_eq_true,
      if_false, bind, Except.bind]
    rw [show solver.permit.torus = solver.torus from rfl]
    cases solver.torus.addColumn name isPrimary <;> rfl
  | newRow => rfl
  | setColumn column =>
    simp only [build, setColumn]
    rw [show solver.permit.resolve column = solver.resolve column by cases column <;> rfl]
    cases solver.resolve column with
    | none => exact congrArg Except.ok (rejectPermitted ..)
    | some index =>
      simp only [bind, Except.bind]
      rw [show solver.permit.torus = solver.torus from rfl]
      cases solver.torus.place index with
      | error fault => rfl
      | ok answer =>
        obtain ⟨placement, torus⟩ := answer
        cases placement with
        | placed => rfl
        | alreadyPresent row =>
          dsimp only
          cases torus.column index with
          | error fault => rfl
          | ok header => exact congrArg Except.ok (rejectPermitted (solver.withTorus torus) _)
  | disableRow row => exact solver.togglePermitted Torus.disableRow row (.disabled row)
  | enableRow row => exact solver.togglePermitted Torus.enableRow row (.enabled row)

theorem buildRecords (done : solver.build call = .ok reply) :
    reply.solver.config = solver.config ∧ (reply.solver.names = solver.names ∨
      ∃ name index, call.named? = some name ∧ reply.solver.names = solver.names.record name index) := by
  have toggled : ∀ {turn row event}, solver.Toggles turn row event reply →
      reply.solver.config = solver.config ∧ reply.solver.names = solver.names := by
    intro turn row event toggles
    rcases toggles with ⟨-, isChanged, after, -, rfl⟩ | ⟨-, rfl⟩
    · exact ⟨rfl, rfl⟩
    · rw [Keeps.rejectUnchanged]
      exact ⟨rfl, rfl⟩
  cases call with
  | addColumn name isPrimary =>
    obtain ⟨answer, adds, same⟩ := bindOk.mp done
    cases same
    unfold addColumn at adds
    dsimp only at adds
    split at adds
    · cases adds
      exact ⟨rfl, .inl rfl⟩
    · obtain ⟨⟨index, torus⟩, -, same⟩ := bindOk.mp adds
      cases same
      exact ⟨rfl, .inr ⟨name, index, rfl, rfl⟩⟩
  | newRow =>
    cases done
    exact ⟨rfl, .inl rfl⟩
  | setColumn column =>
    have done : solver.setColumn column = .ok reply := done
    unfold setColumn at done
    split at done
    · cases done
      rw [Keeps.rejectUnchanged]
      exact ⟨rfl, .inl rfl⟩
    · obtain ⟨⟨placement, torus⟩, -, done⟩ := bindOk.mp done
      cases placement with
      | placed =>
        cases done
        exact ⟨rfl, .inl rfl⟩
      | alreadyPresent row =>
        obtain ⟨header, -, same⟩ := bindOk.mp done
        cases same
        rw [Keeps.rejectUnchanged]
        exact ⟨rfl, .inl rfl⟩
  | disableRow row => exact (toggled (disableRowToggles done)).imp_right .inl
  | enableRow row => exact (toggled (enableRowToggles done)).imp_right .inl

theorem buildsCons (call : BuildCall) (rest : List BuildCall) (solver : Solver) :
    solver.builds (call :: rest) = ((solver.build call).map Reply.solver).bind (builds rest) := by
  cases done : solver.build call <;> simp [builds, done, bind, Except.bind, Except.map]

theorem buildsPermitted (calls : List BuildCall) (distinct : (calls.filterMap BuildCall.named?).Nodup)
    (fresh : ∀ name ∈ calls.filterMap BuildCall.named?, solver.columnIndex name = none) :
    solver.permit.builds calls = (solver.builds calls).map permit := by
  induction calls generalizing solver with
  | nil => rfl
  | cons call rest ih =>
    have untaken : ∀ name, call.named? = some name → solver.columnIndex name = none :=
      fun name named => fresh name (List.mem_filterMap.mpr ⟨call, List.mem_cons_self, named⟩)
    have other : ∀ name ∈ rest.filterMap BuildCall.named?, call.named? ≠ some name := by
      intro name member named
      rw [List.filterMap_cons_some named] at distinct
      exact (List.nodup_cons.mp distinct).1 member
    have distinct : (rest.filterMap BuildCall.named?).Nodup :=
      distinct.sublist ((List.sublist_cons_self call rest).filterMap _)
    rw [buildsCons, buildsCons, buildPermitted untaken]
    cases done : solver.build call with
    | error fault => rfl
    | ok reply =>
      refine ih distinct fun name member => ?_
      have before := fresh name (((List.sublist_cons_self call rest).filterMap _).subset member)
      rcases (buildRecords done).2 with kept | ⟨given, index, named, recorded⟩
      · rw [columnIndex, kept]
        exact before
      · have apart : name ≠ given := fun same => other name member (same ▸ named)
        rw [columnIndex, recorded, Names.findOther _ _ apart]
        exact before

end Solver

theorem rejectedCallsSkipped (calls : List BuildCall) :
    (∀ config solver, (Solver.ofConfig config).builds calls = .ok solver →
      solver.config = config ∧ solver.Answers) ∧
    ((calls.filterMap BuildCall.named?).Nodup → ∀ byFewest,
      (Solver.ofConfig ⟨byFewest, true⟩).builds calls =
        ((Solver.ofConfig ⟨byFewest, false⟩).builds calls).map Solver.permit) := by
  constructor
  · intro config solver done
    have drafts : (Solver.ofConfig config).Drafts .empty := ⟨.ofEmpty, fun _ => rfl⟩
    obtain ⟨⟨sheet, held⟩, same⟩ := Solver.buildsDrafts drafts done
    exact ⟨same, held.draftsAnswers⟩
  · intro distinct byFewest
    have fresh : ∀ name ∈ calls.filterMap BuildCall.named?,
        (Solver.ofConfig ⟨byFewest, false⟩).columnIndex name = none := fun _ _ => rfl
    exact Solver.buildsPermitted calls distinct fresh

def BuildCall.clumsy : List BuildCall :=
  [.setColumn (.named "a"), .addColumn "a" true, .setColumn (.numbered 1), .setColumn (.named "a"),
    .setColumn (.numbered 0), .disableRow 1, .disableRow 0, .addColumn "b" false, .setColumn (.named "b"),
    .setColumn (.named "b"), .enableRow 0, .enableRow 2]

theorem clumsySkipped : ∃ solver, (Solver.ofConfig .standard).builds BuildCall.clumsy = .ok solver ∧
    (solver.config = .standard ∧ solver.Answers) ∧
    (Solver.ofConfig ⟨true, true⟩).builds BuildCall.clumsy =
      ((Solver.ofConfig ⟨true, false⟩).builds BuildCall.clumsy).map Solver.permit := by
  obtain ⟨answers, skips⟩ := rejectedCallsSkipped BuildCall.clumsy
  have done : (Solver.ofConfig .standard).builds BuildCall.clumsy = .ok _ := rfl
  exact ⟨_, done, answers _ _ done, skips (by decide) true⟩

end DancingLinks
