import DancingLinks.Proofs.RingsRead

/-! Histories of a bare torus: columns and rows are added, entries placed, rows taken out of play and
put back. Such a history leaves an arena that shows the sheet of the same edits, as long as no entry
goes into a row that is out of play. The rows of that sheet are what was placed between two ends of a
row, each column counted once, and its columns list the row linked last on top. -/
namespace DancingLinks

inductive Edit where
  | addColumn (name : String) (isPrimary : Bool)
  | newRow
  | place (column : Nat)
  | disableRow (row : Nat)
  | enableRow (row : Nat)
  deriving DecidableEq, Repr

namespace Edit

def endsRow : Edit → Bool
  | .newRow => true
  | _ => false

def added? : Edit → Option (String × Bool)
  | .addColumn name isPrimary => some (name, isPrimary)
  | _ => none

def placed? : Edit → Option Nat
  | .place column => some column
  | _ => none

end Edit

namespace Torus

def edit (torus : Torus) : Edit → Except Fault Torus
  | .addColumn name isPrimary => do return (← torus.addColumn name isPrimary).2
  | .newRow => return torus.newRow
  | .place column => do return (← torus.place column).2
  | .disableRow row => do return (← torus.disableRow row).2
  | .enableRow row => do return (← torus.enableRow row).2

def Admits (torus : Torus) : Edit → Prop
  | .place column => ∀ after, torus.place column = .ok (.placed, after) →
    torus.isRowEnabled torus.rowInProgress ≠ .ok false
  | _ => True

def Has (torus : Torus) : Edit → Prop
  | .place column => column < torus.columns.size
  | .disableRow row | .enableRow row => row < torus.rows.size
  | _ => True

end Torus

inductive Edited : List Edit → Torus → Prop where
  | made : Edited [] .empty
  | edit {edits torus after} (past : Edited edits torus) (edit : Edit) (admitted : torus.Admits edit)
      (performed : torus.edit edit = .ok after) : Edited (edits ++ [edit]) after

namespace Sheet

def edit (sheet : Sheet) : Edit → Sheet
  | .addColumn name isPrimary => sheet.addColumn name isPrimary
  | .newRow => sheet.newRow
  | .place column => sheet.place column
  | .disableRow row => sheet.disable row
  | .enableRow row => sheet.enable row

def edited (edits : List Edit) : Sheet := edits.foldl edit .empty

def linked (sheet : Sheet) (column : Nat) : Edit → Option Nat
  | .place placed =>
    if placed = column ∧ column ∉ sheet.columnsOf sheet.rowInProgress then some sheet.rowInProgress
    else none
  | .enableRow row =>
    if sheet.isEnabled row = false ∧ column ∈ sheet.columnsOf row then some row else none
  | _ => none

theorem editedAppend (edits : List Edit) (edit : Edit) :
    edited (edits ++ [edit]) = (edited edits).edit edit := by
  simp [edited]

variable {sheet : Sheet} {edit : Edit} {column : Nat}

theorem columnsEdited (edits : List Edit) : (edited edits).columns = edits.filterMap Edit.added? := by
  induction edits using List.reverseRecOn with
  | nil => rfl
  | append_singleton edits edit ih =>
    rw [editedAppend, List.filterMap_append, ← ih]
    cases edit with
    | addColumn name isPrimary => rfl
    | place column => exact (columnsPlaced _ column).trans (List.append_nil _).symm
    | enableRow row => exact (columnsEnabled _ row).trans (List.append_nil _).symm
    | _ => exact (List.append_nil _).symm

theorem liveEdited (sheet : Sheet) (edit : Edit) (column : Nat) :
    ∃ kept, kept.Sublist (sheet.live column) ∧
      (sheet.edit edit).live column = (sheet.linked column edit).toList ++ kept := by
  cases edit with
  | addColumn name isPrimary => exact ⟨_, List.Sublist.refl _, rfl⟩
  | newRow => exact ⟨_, List.Sublist.refl _, rfl⟩
  | disableRow row => exact ⟨_, List.filter_sublist, rfl⟩
  | place placed =>
    refine ⟨sheet.live column, List.Sublist.refl _, ?_⟩
    by_cases there : placed ∈ sheet.columnsOf sheet.rowInProgress
    · have absent : ¬(placed = column ∧ column ∉ sheet.columnsOf sheet.rowInProgress) := by
        intro fresh
        exact fresh.2 (fresh.1 ▸ there)
      simp only [edit, place, if_pos there, linked, if_neg absent, Option.toList_none, List.nil_append]
    · rw [edit, placedLive there, linked]
      by_cases same : column = placed
      · subst same
        simp [there]
      · simp [same, Ne.symm same]
  | enableRow row =>
    refine ⟨sheet.live column, List.Sublist.refl _, ?_⟩
    simp only [edit, enable, linked]
    cases sheet.isEnabled row
    · by_cases there : column ∈ sheet.columnsOf row <;> simp [there]
    · simp

theorem Sound.linkedFresh (sound : sheet.Sound) {row : Nat} (linked : sheet.linked column edit = some row) :
    row ∉ sheet.live column := by
  cases edit with
  | addColumn name isPrimary => cases linked
  | newRow => cases linked
  | disableRow row => cases linked
  | place placed =>
    obtain ⟨⟨-, fresh⟩, same⟩ := Option.ite_none_right_eq_some.mp linked
    cases same
    exact fun live => fresh (sound.holds column _ live)
  | enableRow enabled =>
    obtain ⟨⟨out, -⟩, same⟩ := Option.ite_none_right_eq_some.mp linked
    cases same
    exact sound.liveNowhere out column

end Sheet

def run (edits : List Edit) : List Nat := (edits.filterMap Edit.placed?).eraseDups

def runs (edits : List Edit) : List (List Nat) := (edits.splitOnP Edit.endsRow).map run

theorem splitSnoc {α : Type} {p : α → Bool} {x : α} (inside : p x = false) {xs : List α}
    {done : List (List α)} {last : List α} (split : xs.splitOnP p = done ++ [last]) :
    (xs ++ [x]).splitOnP p = done ++ [last ++ [x]] := by
  induction xs generalizing done last with
  | nil =>
    have alone : [] ++ [[]] = done ++ [last] := split
    obtain ⟨rfl, same⟩ := List.append_inj' alone rfl
    cases same
    simp [List.splitOnP_cons_eq_if_modifyHead, inside]
  | cons y rest ih =>
    obtain none | ⟨earlier, latest, later⟩ := List.eq_nil_or_concat' (rest.splitOnP p)
    · exact absurd none (List.splitOnP_ne_nil p rest)
    rw [List.splitOnP_cons_eq_if_modifyHead, later] at split
    rw [List.cons_append, List.splitOnP_cons_eq_if_modifyHead, ih later]
    split at split
    · rename_i ends
      have appended : ([] :: earlier) ++ [latest] = done ++ [last] := split
      obtain ⟨rfl, same⟩ := List.append_inj' appended rfl
      cases same
      exact if_pos ends
    · rename_i goes
      rw [if_neg goes]
      cases earlier with
      | nil =>
        have appended : [] ++ [y :: latest] = done ++ [last] := split
        obtain ⟨rfl, same⟩ := List.append_inj' appended rfl
        cases same
        rfl
      | cons first others =>
        have appended : (y :: first) :: others ++ [latest] = done ++ [last] := split
        obtain ⟨rfl, same⟩ := List.append_inj' appended rfl
        cases same
        rfl

theorem runPlaced (edits : List Edit) (column : Nat) :
    run (edits ++ [Edit.place column]) =
      if column ∈ run edits then run edits else run edits ++ [column] := by
  have more : (edits ++ [Edit.place column]).filterMap Edit.placed? =
      edits.filterMap Edit.placed? ++ [column] := List.filterMap_append
  unfold run
  rw [more, List.eraseDups_append]
  by_cases there : column ∈ edits.filterMap Edit.placed?
  · simp [List.cons_removeAll, there]
  · simp [List.cons_removeAll, there, List.eraseDups_cons]

theorem runOther (edits : List Edit) {edit : Edit} (other : edit.placed? = none) :
    run (edits ++ [edit]) = run edits := by
  simp [run, other]

structure RunsTo (edits : List Edit) (ended : List (List Edit)) (latest : List Edit) (sheet : Sheet) :
    Prop where
  split : edits.splitOnP Edit.endsRow = ended ++ [latest]
  rows : sheet.rows = (ended.map run).filter (· ≠ []) ++ [run latest].filter (· ≠ [])
  building : sheet.isBuilding = true ↔ run latest ≠ []

namespace RunsTo

variable {edits latest : List Edit} {ended : List (List Edit)} {sheet : Sheet} {edit : Edit}

theorem latestRun (runs : RunsTo edits ended latest sheet) :
    sheet.columnsOf sheet.rowInProgress = run latest ∧
      sheet.rows.take sheet.rowInProgress = (ended.map run).filter (· ≠ []) :=
  Sheet.rowBegun runs.rows runs.building

theorem runsSame (runs : RunsTo edits ended latest sheet) {after : Sheet} (inside : edit.endsRow = false)
    (other : edit.placed? = none) (rows : after.rows = sheet.rows)
    (building : after.isBuilding = sheet.isBuilding) :
    RunsTo (edits ++ [edit]) ended (latest ++ [edit]) after := by
  refine ⟨splitSnoc inside runs.split, ?_, ?_⟩
  · rw [rows, runOther latest other, runs.rows]
  · rw [building, runOther latest other, runs.building]

theorem placeRuns (runs : RunsTo edits ended latest sheet) (column : Nat) :
    RunsTo (edits ++ [.place column]) ended (latest ++ [.place column]) (sheet.place column) := by
  obtain ⟨now, before⟩ := runs.latestRun
  refine ⟨splitSnoc rfl runs.split, ?_, ?_⟩
  all_goals
    rw [runPlaced, Sheet.place, now]
    split
  · exact runs.rows
  · simp [before]
  · exact runs.building
  · simp

end RunsTo

theorem runsTo (edits : List Edit) : ∃ ended latest, RunsTo edits ended latest (.edited edits) := by
  -- from the end: only the latest run can change, and only the end of a row adds one to those that ended
  induction edits using List.reverseRecOn with
  | nil => exact ⟨[], [], rfl, rfl, by simp [Sheet.edited, Sheet.empty, run]⟩
  | append_singleton edits edit ih =>
    obtain ⟨ended, latest, runs⟩ := ih
    rw [Sheet.editedAppend]
    cases edit with
    | newRow =>
      refine ⟨ended ++ [latest], [], ?_, ?_, by simp [Sheet.edit, Sheet.newRow, run]⟩
      · rw [List.splitOnP_append_cons _ _ rfl, runs.split]
        rfl
      · show (Sheet.edited edits).rows = _
        rw [runs.rows, List.map_append, List.filter_append]
        simp [run]
    | place column => exact ⟨ended, _, runs.placeRuns column⟩
    | addColumn name isPrimary => exact ⟨ended, _, runs.runsSame rfl rfl rfl rfl⟩
    | disableRow row => exact ⟨ended, _, runs.runsSame rfl rfl rfl rfl⟩
    | enableRow row =>
      refine ⟨ended, _, runs.runsSame rfl rfl ?_ ?_⟩
      all_goals
        simp only [Sheet.edit, Sheet.enable]
        split <;> rfl

theorem rowsEdited (edits : List Edit) :
    (Sheet.edited edits).rows = (runs edits).filter (· ≠ []) := by
  obtain ⟨ended, latest, runs⟩ := runsTo edits
  rw [DancingLinks.runs, runs.split, List.map_append, List.filter_append, runs.rows]
  rfl

def linkedAt (edits : List Edit) (column moment : Nat) : Option Nat :=
  edits[moment]?.bind ((Sheet.edited (edits.take moment)).linked column)

/-- At some moment the first row was linked, and the second one was not linked again since. -/
def LinkedLater (edits : List Edit) (column : Nat) (row other : Nat) : Prop :=
  ∃ moment, linkedAt edits column moment = some row ∧
    ∀ later, moment ≤ later → linkedAt edits column later ≠ some other

theorem linkedBefore {edits : List Edit} {moment : Nat} (before : moment < edits.length) (edit : Edit)
    (column : Nat) : linkedAt (edits ++ [edit]) column moment = linkedAt edits column moment := by
  rw [linkedAt, linkedAt, List.getElem?_append_left before, List.take_append_of_le_length before.le]

theorem linkedLatest (edits : List Edit) (edit : Edit) (column : Nat) :
    linkedAt (edits ++ [edit]) column edits.length = (Sheet.edited edits).linked column edit := by
  rw [linkedAt, List.getElem?_concat_length, List.take_left]
  rfl

theorem linkedNever {edits : List Edit} {moment : Nat} (beyond : edits.length ≤ moment) (column : Nat) :
    linkedAt edits column moment = none := by
  rw [linkedAt, List.getElem?_eq_none beyond]
  rfl

theorem linkedBeyond {edits : List Edit} {moment : Nat} (beyond : edits.length < moment) (edit : Edit)
    (column : Nat) : linkedAt (edits ++ [edit]) column moment = none :=
  linkedNever (by rw [List.length_append]; exact beyond) column

theorem LinkedLater.laterUnlessLinked {edits : List Edit} {column row other : Nat} {edit : Edit}
    (later : LinkedLater edits column row other)
    (apart : (Sheet.edited edits).linked column edit ≠ some other) :
    LinkedLater (edits ++ [edit]) column row other := by
  obtain ⟨moment, linked, since⟩ := later
  have inside : moment < edits.length := by
    by_contra beyond
    rw [linkedNever (Nat.le_of_not_lt beyond)] at linked
    cases linked
  refine ⟨moment, (linkedBefore inside edit column).trans linked, fun next onward => ?_⟩
  rcases Nat.lt_trichotomy next edits.length with before | rfl | beyond
  · rw [linkedBefore before]
    exact since next onward
  · rw [linkedLatest]
    exact apart
  · rw [linkedBeyond beyond]
    exact nofun

theorem linkedNow {edits : List Edit} {column row other : Nat} {edit : Edit}
    (linked : (Sheet.edited edits).linked column edit = some row) (apart : row ≠ other) :
    LinkedLater (edits ++ [edit]) column row other := by
  refine ⟨edits.length, (linkedLatest edits edit column).trans linked, fun next onward => ?_⟩
  rcases Nat.lt_or_eq_of_le onward with beyond | rfl
  · rw [linkedBeyond beyond]
    exact nofun
  · rw [linkedLatest, linked]
    exact fun same => apart (Option.some.inj same)

theorem liveOrdered {edits : List Edit} (edit : Edit) {column : Nat} (sound : (Sheet.edited edits).Sound)
    (ordered : ((Sheet.edited edits).live column).Pairwise (LinkedLater edits column)) :
    ((Sheet.edited (edits ++ [edit])).live column).Pairwise (LinkedLater (edits ++ [edit]) column) := by
  -- an edit leaves a part of the rows in their order, and puts at most one, which is not among them, on top
  obtain ⟨kept, inner, live⟩ := Sheet.liveEdited (.edited edits) edit column
  have apart : ∀ row ∈ kept, (Sheet.edited edits).linked column edit ≠ some row :=
    fun row member linked => sound.linkedFresh linked (inner.subset member)
  have below : kept.Pairwise (LinkedLater (edits ++ [edit]) column) :=
    (ordered.sublist inner).imp_of_mem fun _ lower later => later.laterUnlessLinked (apart _ lower)
  rw [Sheet.editedAppend, live]
  cases linked : (Sheet.edited edits).linked column edit with
  | none => exact below
  | some row =>
    refine List.pairwise_cons.mpr ⟨fun other member => ?_, below⟩
    exact linkedNow linked fun same => apart other member (same ▸ linked)

namespace Torus.Holds

variable {sheet : Sheet} {torus after : Torus} {edit : Edit}

theorem performedHas (holds : torus.Holds sheet) (sound : sheet.Sound)
    (performed : torus.edit edit = .ok after) :
    torus.Has edit := by
  cases edit with
  | addColumn name isPrimary => trivial
  | newRow => trivial
  | place column =>
    obtain ⟨_, placed, -⟩ := bindOk.mp performed
    obtain ⟨header, read, -⟩ := bindOk.mp placed
    by_contra outside
    have none : torus.columns[column]? = none := Array.getElem?_eq_none (Nat.le_of_not_lt outside)
    simp [Torus.column, none] at read
  | disableRow row =>
    obtain ⟨_, disabled, -⟩ := bindOk.mp performed
    obtain ⟨_, read, -⟩ := bindOk.mp disabled
    exact Nat.lt_of_lt_of_eq (holds.enabledStored sound read).1 (holds.holdsShows sound).stored.symm
  | enableRow row =>
    obtain ⟨_, enabled, -⟩ := bindOk.mp performed
    obtain ⟨_, read, -⟩ := bindOk.mp enabled
    exact Nat.lt_of_lt_of_eq (holds.enabledStored sound read).1 (holds.holdsShows sound).stored.symm

theorem editHolds (holds : torus.Holds sheet) (sound : sheet.Sound) (has : torus.Has edit) :
    ∃ after, torus.edit edit = .ok after ∧
      (torus.Admits edit → after.Holds (sheet.edit edit) ∧ (sheet.edit edit).Sound) := by
  have rows : torus.rows.size = sheet.rows.length := (holds.holdsShows sound).stored
  cases edit with
  | addColumn name isPrimary =>
    obtain ⟨after, added, held⟩ := holds.addColumn sound name isPrimary
    refine ⟨after, ?_, fun _ => ⟨held, sound.addColumnSound name isPrimary⟩⟩
    rw [Torus.edit, added]
    rfl
  | newRow => exact ⟨_, rfl, fun _ => ⟨holds.newRow, sound.newRowSound⟩⟩
  | place column =>
    have known : column < sheet.columns.length := Nat.lt_of_lt_of_eq has holds.columnsCounted
    by_cases there : column ∈ sheet.columnsOf sheet.rowInProgress
    · obtain ⟨header, -, again⟩ := holds.placeAgain sound known there
      have same : sheet.place column = sheet := if_pos there
      refine ⟨torus, ?_, fun _ => ?_⟩
      · rw [Torus.edit, again]
        rfl
      · rw [Sheet.edit, same]
        exact ⟨holds, sound⟩
    · obtain ⟨after, placed⟩ := holds.placeAnswered sound known there
      refine ⟨after, ?_, fun admitted => ?_⟩
      · rw [Torus.edit, placed]
        rfl
      · have inPlay := holds.rowInPlay sound (admitted _ placed)
        obtain ⟨after, again, held⟩ := holds.placeFresh sound known there inPlay
        cases placed.symm.trans again
        exact ⟨held, sound.placeSound known inPlay⟩
  | disableRow row =>
    obtain ⟨after, disabled, held⟩ := holds.disableRow sound (Nat.lt_of_lt_of_eq has rows)
    refine ⟨after, ?_, fun _ => ⟨held, sound.disableSound row⟩⟩
    rw [Torus.edit, disabled]
    rfl
  | enableRow row =>
    obtain ⟨after, enabled, held⟩ := holds.enableRow sound (Nat.lt_of_lt_of_eq has rows)
    refine ⟨after, ?_, fun _ => ⟨held, sound.enableSound row⟩⟩
    rw [Torus.edit, enabled]
    rfl

end Torus.Holds

namespace Edited

variable {edits : List Edit} {torus : Torus}

theorem editedHolds (history : Edited edits torus) :
    torus.Holds (.edited edits) ∧ (Sheet.edited edits).Sound := by
  induction history with
  | made => exact ⟨.ofEmpty, .emptySound⟩
  | edit past edit admitted performed ih =>
    obtain ⟨holds, sound⟩ := ih
    obtain ⟨after, answer, kept⟩ := holds.editHolds sound (holds.performedHas sound performed)
    cases answer.symm.trans performed
    rw [Sheet.editedAppend]
    exact kept admitted

theorem liveLinkedLater (history : Edited edits torus) (column : Nat) :
    ((Sheet.edited edits).live column).Pairwise (LinkedLater edits column) := by
  induction history with
  | made => exact List.Pairwise.nil
  | edit past edit admitted performed ih => exact liveOrdered edit past.editedHolds.2 ih

end Edited

theorem editsMirrorLists {edits : List Edit} {torus : Torus} (history : Edited edits torus) :
    torus.Shows (.edited edits) ∧
      (Sheet.edited edits).columns = edits.filterMap Edit.added? ∧
      (Sheet.edited edits).rows = (runs edits).filter (· ≠ []) ∧
      (∀ column, ((Sheet.edited edits).live column).Pairwise (LinkedLater edits column)) ∧
      ∀ edit, torus.Has edit → ∃ after, torus.edit edit = .ok after := by
  obtain ⟨holds, sound⟩ := history.editedHolds
  refine ⟨holds.holdsShows sound, Sheet.columnsEdited edits, rowsEdited edits, history.liveLinkedLater, ?_⟩
  intro edit has
  obtain ⟨after, answer, -⟩ := holds.editHolds sound has
  exact ⟨after, answer⟩

def toggling : List Edit :=
  [.addColumn "a" true, .addColumn "b" false, .place 0, .place 1, .newRow, .newRow, .place 0,
    .disableRow 0, .enableRow 0]

def Torus.toggled : Torus :=
  ⟨#[⟨1, 1, 0, 0, .root⟩, ⟨0, 0, 5, 3, .head 0⟩, ⟨2, 2, 4, 4, .head 1⟩, ⟨4, 4, 1, 5, .entry 0 0⟩,
    ⟨3, 3, 2, 2, .entry 0 1⟩, ⟨5, 5, 3, 1, .entry 1 0⟩],
    #[⟨"a", 1, 2, true, some 1⟩, ⟨"b", 2, 1, false, some 0⟩], #[3, 5], some 5, 0⟩

theorem toggledMade : Edited toggling .toggled := by
  have columns := (Edited.made.edit (.addColumn "a" true) trivial rfl).edit (.addColumn "b" false) trivial rfl
  have row := (columns.edit (.place 0) (fun _ _ => nofun) rfl).edit (.place 1) (fun _ _ => nofun) rfl
  have rows := ((row.edit .newRow trivial rfl).edit .newRow trivial rfl).edit (.place 0)
    (fun _ _ => nofun) rfl
  exact (rows.edit (.disableRow 0) trivial rfl).edit (.enableRow 0) trivial rfl

theorem toggledMirrored :
    Edited toggling .toggled ∧
      Torus.toggled.Shows (.edited toggling) ∧
      (Sheet.edited toggling).columns = toggling.filterMap Edit.added? ∧
      (Sheet.edited toggling).rows = (runs toggling).filter (· ≠ []) ∧
      (∀ column, ((Sheet.edited toggling).live column).Pairwise (LinkedLater toggling column)) ∧
      ∀ edit, Torus.toggled.Has edit → ∃ after, Torus.toggled.edit edit = .ok after :=
  ⟨toggledMade, editsMirrorLists toggledMade⟩

end DancingLinks
