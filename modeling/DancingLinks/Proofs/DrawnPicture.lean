import DancingLinks.Output.Picture
import DancingLinks.Proofs.SearchOutline
import DancingLinks.Proofs.WrittenTexts

/-! The picture of a solver is drawn from what its calls have put in: the names in order of creation and
the rows as they were placed. Rows out of play, torn columns and searches that went astray leave no trace
in it. The cells of a line are told apart by the widths of the names, so a line gives its row back. -/
namespace DancingLinks

/-- What the calls to a solver have put in, going by their answers. -/
structure Log where
  names : List String
  rows : List (List Nat)
  isOpen : Bool

namespace Log

def empty : Log := ⟨[], [], false⟩

def place (log : Log) (column : Nat) : Log :=
  if log.isOpen then { log with rows := log.rows.dropLast ++ [log.rows.getLastD [] ++ [column]] }
  else { log with rows := log.rows ++ [[column]], isOpen := true }

def note (log : Log) (solver : Solver) : Action → Log
  | .addColumn name isPrimary =>
    match (solver.addColumn name isPrimary).map Reply.value with
    | .ok (.ok _) => { log with names := log.names ++ [name] }
    | _ => log
  | .newRow => { log with isOpen := false }
  | .setColumn column =>
    match solver.resolve column with
    | some index =>
      match (solver.torus.place index).map Prod.fst with
      | .ok .placed => log.place index
      | _ => log
    | none => log
  | _ => log

def text (log : Log) (message : String) (lines : List String) : String :=
  (if message.isEmpty then "" else message ++ "\n") ++ " ".intercalate log.names ++ "\n" ++
    String.join (lines.map (· ++ "\n"))

def pieces (log : Log) (message : String) : List String :=
  let lines := " ".intercalate log.names :: log.rows.map (Picture.rowLine log.names)
  (if message.isEmpty then lines else message :: lines).flatMap fun line => [line, "\n"]

end Log

inductive Logged (config : Config) : Log → Solver → Prop where
  | made : Logged config .empty (.ofConfig config)
  | call {log solver after} (past : Logged config log solver) (action : Action)
      (performed : solver.perform action = .ok after) : Logged config (log.note solver action) after

def Action.isUnseen : Action → Bool
  | .disableRow _ | .enableRow _ | .solve | .enumerate _ => true
  | _ => false

namespace Picture

/-- One cell for each name, as wide as the name and at least one character wide, which ends in 1 if the
row has the column and in 0 if not. -/
def Aligns (names : List String) (columns : List Nat) (line : String) : Prop :=
  ∃ cells : List (List Char), line.toList = [' '].intercalate cells ∧ cells.length = names.length ∧
    ∀ (column : Nat) (name : String) (cell : List Char), names[column]? = some name →
      cells[column]? = some cell → cell.length = max 1 name.length ∧
        cell.getLast? = some (if column ∈ columns then '1' else '0') ∧ ∀ c ∈ cell.dropLast, c = ' '

def columnsIn : List String → Nat → List Char → List Nat
  | [], _, _ => []
  | name :: rest, column, chars =>
    let width := max 1 name.length
    (if chars[width - 1]? = some '1' then [column] else []) ++
      columnsIn rest (column + 1) (chars.drop (width + 1))

def decode (names : List String) (line : String) : List Nat := columnsIn names 0 line.toList

theorem pushedEach (c : Char) (count : Nat) (text : String) :
    (text.pushn c count).toList = text.toList ++ List.replicate count c := by
  unfold String.pushn
  induction count with
  | zero => simp [Nat.repeat]
  | succ count ih => simp [Nat.repeat, ih, List.replicate_succ']

theorem cellChars (name : String) (isFilled : Bool) : (cell name isFilled).toList =
    List.replicate (max 1 name.length - 1) ' ' ++ [if isFilled then '1' else '0'] := by
  have width : max 1 name.length - 1 = name.length - 1 := by omega
  rw [cell, String.toList_append, pushedEach, width]
  cases isFilled <;> rfl

theorem lineChars (names : List String) (columns : List Nat) : (rowLine names columns).toList =
    [' '].intercalate (names.zipIdx.map fun item => (cell item.1 (columns.contains item.2)).toList) := by
  rw [rowLine, String.toList_intercalate, List.map_map]
  rfl

theorem rowLineAligns (names : List String) (columns : List Nat) :
    Aligns names columns (rowLine names columns) := by
  refine ⟨_, lineChars names columns, by simp, fun column name chars named drawn => ?_⟩
  rw [List.getElem?_map, List.getElem?_zipIdx, named] at drawn
  obtain rfl := Option.some.inj drawn
  have filled : columns.contains (0 + column) = decide (column ∈ columns) := by simp
  simp only [cellChars, filled]
  refine ⟨?_, ?_, ?_⟩
  · simp only [List.length_append, List.length_replicate, List.length_singleton]
    omega
  · by_cases there : column ∈ columns <;> simp [there]
  · intro c member
    rw [List.dropLast_concat] at member
    exact List.eq_of_mem_replicate member

theorem columnsDrawn (names : List String) (columns : List Nat) (start : Nat) :
    columnsIn names start ([' '].intercalate
        ((names.zipIdx start).map fun item => (cell item.1 (columns.contains item.2)).toList)) =
      (List.range' start names.length).filter (· ∈ columns) := by
  induction names generalizing start with
  | nil => rfl
  | cons name rest ih =>
    obtain ⟨tail, split, others⟩ : ∃ tail, [' '].intercalate (((name :: rest).zipIdx start).map fun item =>
        (cell item.1 (columns.contains item.2)).toList) =
          (cell name (columns.contains start)).toList ++ tail ∧
        columnsIn rest (start + 1) (tail.drop 1) =
          (List.range' (start + 1) rest.length).filter (· ∈ columns) := by
      cases rest with
      | nil => exact ⟨[], by simp, rfl⟩
      | cons next later =>
        refine ⟨' ' :: [' '].intercalate _, ?_, ih (start + 1)⟩
        simp [List.zipIdx_cons, List.intercalate_cons_cons]
    have width : (List.replicate (max 1 name.length - 1) ' ').length = max 1 name.length - 1 := by simp
    have whole : max 1 name.length + 1 = (max 1 name.length - 1) + 2 := by omega
    have last : (cell name (columns.contains start)).toList ++ tail =
        List.replicate (max 1 name.length - 1) ' ' ++
          (if columns.contains start then '1' else '0') :: tail := by simp [cellChars]
    rw [split, columnsIn, last, List.length_cons, List.range'_succ, List.filter_cons, whole,
      ← List.drop_drop, List.drop_left' width, List.getElem?_append_right (Nat.le_of_eq width), width,
      Nat.sub_self]
    simp only [List.drop_succ_cons, List.getElem?_cons_zero, Option.some_inj]
    rw [others]
    by_cases there : start ∈ columns <;> simp [there]

theorem rowLineDecoded {names : List String} {columns : List Nat}
    (known : ∀ column ∈ columns, column < names.length)
    (once : columns.Nodup) : (decode names (rowLine names columns)).Perm columns := by
  rw [decode, lineChars, columnsDrawn, ← List.range_eq_range']
  refine (List.perm_ext_iff_of_nodup (List.nodup_range.filter _) once).mpr fun column => ?_
  rw [List.mem_filter, List.mem_range, decide_eq_true_iff]
  exact and_iff_right_of_imp (known column)

end Picture

namespace Torus.Bears

variable {torus : Torus} {sheet : Sheet}

theorem namesRead (bears : torus.Bears sheet) :
    torus.columns.toList.map Column.name = sheet.columns.map Prod.fst := by
  obtain ⟨seat, resting, -⟩ := bears.seatedOutline
  have listed := congrArg (List.map Prod.fst) resting.toWoven.namesListed
  rw [← listed]
  simp [outline, Function.comp_def]

theorem storedEach (bears : torus.Bears sheet) :
    (List.range torus.rows.size).mapM torus.storedRow = .ok sheet.rows := by
  have each : ((List.range torus.rows.size).map id).mapM torus.storedRow =
      .ok ((List.range torus.rows.size).map sheet.columnsOf) :=
    mapMOk fun row member => bears.storedRead (List.mem_range.mp member)
  have rows : (List.range torus.rows.size).map sheet.columnsOf = sheet.rows := by
    rw [bears.sizesRead.2]
    refine List.ext_getElem (by simp) fun row _ inside => ?_
    rw [List.getElem_map, List.getElem_range, Sheet.columnsOf, List.getD_eq_getElem?_getD,
      List.getElem?_eq_getElem inside, Option.getD_some]
  rw [← rows, ← each, List.map_id]

theorem linesRead (bears : torus.Bears sheet) : Picture.lines torus =
    .ok (" ".intercalate (sheet.columns.map Prod.fst) ::
      sheet.rows.map (Picture.rowLine (sheet.columns.map Prod.fst))) := by
  simp only [Picture.lines, bears.storedEach, bears.namesRead, bind, Except.bind]
  rfl

end Torus.Bears

namespace Log

variable {log : Log} {sheet : Sheet} {column : Nat}

structure Tells (log : Log) (sheet : Sheet) : Prop where
  names : sheet.columns.map Prod.fst = log.names
  rows : sheet.rows = log.rows
  isOpen : sheet.isBuilding = log.isOpen

theorem Tells.placeTells (tells : log.Tells sheet)
    (fresh : column ∉ sheet.columnsOf sheet.rowInProgress) :
    (log.place column).Tells (sheet.placeOut column) := by
  have rows : (sheet.placeOut column).rows = sheet.rows.take sheet.rowInProgress ++
      [sheet.columnsOf sheet.rowInProgress ++ [column]] := by
    simp only [Sheet.placeOut, Sheet.place, if_neg fresh]
  have building : (sheet.placeOut column).isBuilding = true := by
    simp only [Sheet.placeOut, Sheet.place, if_neg fresh]
  have columns : (sheet.placeOut column).columns = sheet.columns := Sheet.placedColumns fresh
  unfold Log.place
  cases begun : sheet.isBuilding with
  | false =>
    have idle : sheet.rowInProgress = sheet.rows.length := by simp [Sheet.rowInProgress, begun]
    rw [tells.isOpen] at begun
    rw [idle, List.take_length, Sheet.columnsOfNew (Nat.le_refl _)] at rows
    rw [begun, if_neg Bool.false_ne_true, ← tells.rows]
    exact ⟨columns ▸ tells.names, rows, building⟩
  | true =>
    have latest : sheet.rowInProgress = sheet.rows.length - 1 := by simp [Sheet.rowInProgress, begun]
    have last : sheet.columnsOf (sheet.rows.length - 1) = sheet.rows.getLastD [] := by
      rw [Sheet.columnsOf, List.getLastD_eq_getLast?, List.getLast?_eq_getElem?,
        List.getD_eq_getElem?_getD]
    rw [tells.isOpen] at begun
    rw [latest, last, ← List.dropLast_eq_take] at rows
    rw [begun, if_pos rfl, ← tells.rows]
    exact ⟨columns ▸ tells.names, rows, building⟩

end Log

theorem Log.piecesJoined (log : Log) (message : String) : String.join (log.pieces message) =
    log.text message (log.rows.map (Picture.rowLine log.names)) := by
  have lines : ∀ lines : List String, String.join (lines.flatMap fun line => [line, "\n"]) =
      String.join (lines.map (· ++ "\n")) := by
    intro lines
    induction lines with
    | nil => rfl
    | cons line rest ih => simp [ih, String.append_assoc]
  unfold Log.pieces Log.text
  dsimp only
  rw [lines]
  split <;> simp [String.append_assoc]

def Solver.Draws (solver : Solver) (writer : Writer) (message : String) (bytes : Bytes) : Prop :=
  (∀ capacity, writer.policy.Grants (writer.held.size + capacity) →
    ∃ answer after, solver.draw writer message = .ok (answer, after) ∧
      after.held.toList = writer.held.toList ++ bytes.take capacity ∧
      (answer = .ok () ↔ bytes.length ≤ capacity) ∧
      ((∃ reason, answer = .error (.output reason)) ↔ capacity < bytes.length)) ∧
  (writer.policy.Takes → ∃ after, solver.draw writer message = .ok (.ok (), after) ∧
    after.held.toList = writer.held.toList ++ bytes)

namespace Logged

variable {config : Config} {log : Log} {solver after : Solver} {action : Action} {sheet : Sheet}

theorem columnTells (bears : solver.torus.Bears sheet) (tells : log.Tells sheet) {name : String}
    {isPrimary : Bool} {reply : Reply Nat} (adds : solver.addColumn name isPrimary = .ok reply) :
    ∃ sheet', reply.solver.torus.Bears sheet' ∧
      (log.note solver (.addColumn name isPrimary)).Tells sheet' := by
  simp only [Log.note, adds, Except.map]
  unfold Solver.addColumn at adds
  dsimp only at adds
  split at adds
  · cases adds
    exact ⟨sheet, bears, tells⟩
  · obtain ⟨⟨index, torus⟩, added, same⟩ := bindOk.mp adds
    cases same
    refine ⟨_, (bears.addColumn added).1, ?_, tells.rows, tells.isOpen⟩
    simp [Sheet.addColumn, tells.names]

theorem entryTells (bears : solver.torus.Bears sheet) (tells : log.Tells sheet) {column : ColumnRef}
    {reply : Reply Unit} (sets : solver.setColumn column = .ok reply) :
    ∃ sheet', reply.solver.torus.Bears sheet' ∧ (log.note solver (.setColumn column)).Tells sheet' := by
  unfold Solver.setColumn at sets
  split at sets
  · rename_i unknown
    cases sets
    simp only [Log.note, unknown]
    rw [Solver.Keeps.rejectUnchanged]
    exact ⟨sheet, bears, tells⟩
  · rename_i index resolved
    obtain ⟨⟨placement, torus⟩, places, sets⟩ := bindOk.mp sets
    obtain ⟨header, listed, -⟩ := Torus.placeCases places
    have known := (Array.getElem?_eq_some_iff.mp listed).1
    simp only [Log.note, resolved, places, Except.map]
    by_cases there : index ∈ sheet.columnsOf sheet.rowInProgress
    · cases (bears.placedAgain known there).symm.trans places
      obtain ⟨column, -, same⟩ := bindOk.mp sets
      cases same
      rw [Solver.Keeps.rejectUnchanged]
      exact ⟨sheet, bears, tells⟩
    · obtain ⟨after, placed, -, held⟩ := bears.placeGains known there
      cases placed.symm.trans places
      cases sets
      exact ⟨_, held, tells.placeTells there⟩

theorem toggledBears (bears : solver.torus.Bears sheet)
    {turn : Torus → Nat → Except Fault (Bool × Torus)}
    (shifts : ∀ {row isChanged torus}, turn solver.torus row = .ok (isChanged, torus) →
      solver.torus.Shifts torus) {row : Nat} {event : Event} {reply : Reply Unit}
    (toggles : solver.Toggles turn row event reply) : reply.solver.torus.Bears sheet := by
  rcases toggles with ⟨-, isChanged, torus, turns, rfl⟩ | ⟨-, rfl⟩
  · exact bears.bearsShifted (shifts turns)
  · rw [Solver.Keeps.rejectUnchanged]
    exact bears

theorem performTells (bears : solver.torus.Bears sheet) (tells : log.Tells sheet)
    (done : solver.perform action = .ok after) :
    ∃ sheet', after.torus.Bears sheet' ∧ (log.note solver action).Tells sheet' := by
  cases action with
  | addColumn name isPrimary =>
    obtain ⟨reply, adds, same⟩ := bindOk.mp done
    cases same
    exact columnTells bears tells adds
  | newRow =>
    cases done
    exact ⟨_, bears.newRow, tells.names, tells.rows, rfl⟩
  | setColumn column =>
    obtain ⟨reply, sets, same⟩ := bindOk.mp done
    cases same
    exact entryTells bears tells sets
  | disableRow row =>
    obtain ⟨reply, disabled, same⟩ := bindOk.mp done
    cases same
    exact ⟨sheet, toggledBears bears bears.laned.disableRowShifts (Solver.disableRowToggles disabled), tells⟩
  | enableRow row =>
    obtain ⟨reply, enabled, same⟩ := bindOk.mp done
    cases same
    exact ⟨sheet, toggledBears bears bears.laned.enableRowShifts (Solver.enableRowToggles enabled), tells⟩
  | solve =>
    obtain ⟨reply, solves, same⟩ := bindOk.mp done
    cases same
    exact ⟨sheet, bears.bearsShifted (Solver.solveShifts bears.laned solves), tells⟩
  | enumerate count =>
    exact ⟨sheet, bears.bearsShifted (Solver.enumerateShifts bears.laned done), tells⟩
  | _ =>
    cases done
    exact ⟨sheet, bears, tells⟩

theorem loggedTells (logged : Logged config log solver) :
    ∃ sheet, solver.torus.Bears sheet ∧ log.Tells sheet := by
  induction logged with
  | made => exact ⟨.empty, .ofEmpty, rfl, rfl, rfl⟩
  | call past action performed ih =>
    obtain ⟨sheet, bears, tells⟩ := ih
    exact performTells bears tells performed

theorem drawnPieces (logged : Logged config log solver) (writer : Writer) (message : String) :
    solver.draw writer message = .ok (match writer.writeEach (log.pieces message) with
      | (some reason, writer) => (.error (.output reason), writer)
      | (none, writer) => (.ok (), writer)) := by
  obtain ⟨sheet, bears, tells⟩ := logged.loggedTells
  have lines := bears.linesRead
  rw [tells.names, tells.rows] at lines
  simp only [Solver.draw, Picture.pieces, lines, bind, Except.bind, pure, Except.pure, Log.pieces]
  generalize writer.writeEach _ = answer
  obtain ⟨failure, writer⟩ := answer
  cases failure <;> rfl

theorem drawsAlike (logged : Logged config log solver) (unseen : action.isUnseen = true)
    (done : solver.perform action = .ok after) (writer : Writer) (message : String) :
    after.draw writer message = solver.draw writer message := by
  have later : Logged config log after := by
    have called := logged.call action done
    cases action <;> first | exact called | cases unseen
  rw [later.drawnPieces, logged.drawnPieces]

theorem drawsText (logged : Logged config log solver) (writer : Writer) (message : String) :
    solver.Draws writer message
      (bytesOf (log.text message (log.rows.map (Picture.rowLine log.names)))) := by
  have bytes : (log.pieces message).flatMap bytesOf = _ := (bytesJoined _).symm
  rw [log.piecesJoined] at bytes
  have draws := logged.drawnPieces writer message
  rw [← bytes]
  constructor
  · intro capacity grants
    obtain ⟨held, fails⟩ := writer.fillsEach grants (Nat.le_add_right ..) (log.pieces message)
    rw [Nat.add_sub_cancel_left] at held
    rw [Nat.add_lt_add_iff_left] at fails
    generalize writer.writeEach (log.pieces message) = answer at draws held fails
    obtain ⟨failure, after⟩ := answer
    cases failure with
    | none =>
      have fits : ¬ _ := mt fails.mpr Bool.false_ne_true
      exact ⟨_, _, draws, held, iff_of_true rfl (Nat.le_of_not_lt fits), iff_of_false nofun fits⟩
    | some reason =>
      have excess := fails.mp rfl
      exact ⟨_, _, draws, held, iff_of_false nofun (Nat.not_le_of_lt excess), iff_of_true ⟨_, rfl⟩ excess⟩
  · intro takes
    obtain ⟨done, held⟩ := writer.takesEach takes (log.pieces message)
    generalize writer.writeEach (log.pieces message) = answer at draws done held
    obtain ⟨failure, after⟩ := answer
    cases done
    exact ⟨_, draws, held⟩

theorem drawsRows (logged : Logged config log solver) {columns : List Nat} (stored : columns ∈ log.rows) :
    Picture.Aligns log.names columns (Picture.rowLine log.names columns) ∧
      (Picture.decode log.names (Picture.rowLine log.names columns)).Perm columns := by
  obtain ⟨sheet, bears, tells⟩ := logged.loggedTells
  have sound := bears.drafts.sound
  obtain ⟨row, inside, found⟩ := List.getElem_of_mem (tells.rows ▸ stored)
  have own : sheet.columnsOf row = columns := Sheet.columnsAt (found ▸ List.getElem?_eq_getElem inside)
  refine ⟨Picture.rowLineAligns log.names columns,
    Picture.rowLineDecoded (fun column member => ?_) (own ▸ sound.distinct row)⟩
  rw [← tells.names, List.length_map]
  exact sound.known row column (own ▸ member)

end Logged

/-- The lines are those of the rows as built, each of which gives its row back, and they are drawn into
whatever writer is given. Taking rows out of play, putting them back and searching change no picture. -/
theorem drawnAsBuilt {config : Config} {log : Log} {solver : Solver} (logged : Logged config log solver) :
    (∃ lines : List String, lines.length = log.rows.length ∧ log.rows.length = solver.rowCount ∧
      (∀ (row : Nat) (columns : List Nat) (line : String), log.rows[row]? = some columns →
        lines[row]? = some line →
          Picture.Aligns log.names columns line ∧ (Picture.decode log.names line).Perm columns) ∧
      ∀ writer message, solver.Draws writer message (bytesOf (log.text message lines))) ∧
    ∀ action after, action.isUnseen = true → solver.perform action = .ok after →
      ∀ writer message, after.draw writer message = solver.draw writer message := by
  refine ⟨⟨log.rows.map (Picture.rowLine log.names), List.length_map .., ?_, ?_, logged.drawsText⟩,
    fun action after unseen done => logged.drawsAlike unseen done⟩
  · obtain ⟨sheet, bears, tells⟩ := logged.loggedTells
    rw [← tells.rows]
    exact bears.sizesRead.2.symm
  · intro row columns line stored drawn
    rw [List.getElem?_map, stored] at drawn
    obtain rfl := Option.some.inj drawn
    exact logged.drawsRows (List.mem_of_getElem? stored)

theorem tornDrawn : ∃ log solver, Logged .standard log solver ∧
    log = ⟨["one", "B"], [[1, 0], [1]], true⟩ ∧
    (∃ lines : List String, lines.length = log.rows.length ∧ log.rows.length = solver.rowCount ∧
      (∀ (row : Nat) (columns : List Nat) (line : String), log.rows[row]? = some columns →
        lines[row]? = some line →
          Picture.Aligns log.names columns line ∧ (Picture.decode log.names line).Perm columns) ∧
      ∀ writer message, solver.Draws writer message (bytesOf (log.text message lines))) ∧
    ∀ action after, action.isUnseen = true → solver.perform action = .ok after →
      ∀ writer message, after.draw writer message = solver.draw writer message := by
  have start : Logged .standard .empty (.ofConfig .standard) := .made
  have columns := (start.call (.addColumn "one" true) rfl).call (.addColumn "B" true) rfl
  have row := ((columns.call (.setColumn (.named "B")) rfl).call (.disableRow 0) rfl).call
    (.setColumn (.named "one")) rfl
  have rows := (row.call .newRow rfl).call (.setColumn (.numbered 1)) rfl
  have searched := (rows.call .solve rfl).call (.enumerate 2) rfl
  exact ⟨_, _, searched, rfl, drawnAsBuilt searched⟩

end DancingLinks
