import DancingLinks.Proofs.Placements
import DancingLinks.Proofs.StoppedSearch
import DancingLinks.Queens.Named

/-! The matrix of the queens that is built by hand. Its columns are the lines of the board under short
names, with the diagonals in turns, and its rows are all squares, so that it models the same problem as
the one that is encoded. No name is used twice, and every name that a square asks for is that of a column.
From both all placements are read, each of them once. -/
namespace DancingLinks.Queens

variable {n : Nat} {square : Square}

namespace Line

def name : Line → String
  | row index => named "R" index
  | column index => named "F" index
  | trailing index => named "A" index
  | leading index => named "B" index

def inTurns (n : Nat) : List Line :=
  (List.range n).map row ++ (List.range n).map column ++
    (List.range (2 * n - 1)).flatMap fun index => [trailing index, leading index]

theorem digitsInjective {first second : Nat} (same : Nat.toDigits 10 first = Nat.toDigits 10 second) :
    first = second := by
  rw [← Nat.ofDigitChars_ten_toDigits (n := first), same, Nat.ofDigitChars_ten_toDigits]

theorem nameInjective : Function.Injective name := by
  intro first second same
  have letters := congrArg String.toList same
  cases first <;> cases second <;> simp [name, named] at letters ⊢ <;> exact digitsInjective letters

theorem labelInjective : Function.Injective label := by
  intro first second same
  have letters := congrArg String.toList same
  cases first <;> cases second <;> simp [label, indexed, Text.record, Text.labelled] at letters ⊢ <;>
    exact digitsInjective letters

theorem inTurnsPerm (n : Nat) : (inTurns n).Perm (all n) := by
  have turns : ((List.range (2 * n - 1)).flatMap fun index => [trailing index, leading index]).Perm
      ((List.range (2 * n - 1)).map leading ++ (List.range (2 * n - 1)).map trailing) := by
    refine (List.map_append_flatMap_perm _ trailing fun index => [leading index]).symm.trans ?_
    rw [← List.map_eq_flatMap]
    exact List.perm_append_comm
  rw [all, List.append_assoc]
  exact turns.append_left _

theorem allNodup (n : Nat) : (all n).Nodup := by
  have rows : ((List.range n).map row).Nodup := List.nodup_range.map fun _ _ => row.inj
  have columns : ((List.range n).map column).Nodup := List.nodup_range.map fun _ _ => column.inj
  have falling : ((List.range (2 * n - 1)).map leading).Nodup := List.nodup_range.map fun _ _ => leading.inj
  have rising : ((List.range (2 * n - 1)).map trailing).Nodup := List.nodup_range.map fun _ _ => trailing.inj
  simp only [all, List.nodup_append, List.mem_append, List.mem_map, rows, columns, falling, rising, true_and]
  grind

theorem inTurnsNodup (n : Nat) : (inTurns n).Nodup := (inTurnsPerm n).nodup_iff.mpr (allNodup n)

theorem memInTurns (line : Line) : line ∈ inTurns n ↔ line ∈ all n := (inTurnsPerm n).mem_iff

end Line

theorem columnsListed (n : Nat) :
    namedColumns n = (Line.inTurns n).map fun line => (line.name, !line.isDiagonal) := by
  simp [namedColumns, Line.inTurns, Line.name, Line.isDiagonal, List.map_flatMap, Function.comp_def]

theorem namesListed (n : Nat) : (namedColumns n).map Prod.fst = (Line.inTurns n).map Line.name := by
  rw [columnsListed, List.map_map]
  rfl

theorem namesDistinct (n : Nat) : ((namedColumns n).map Prod.fst).Nodup := by
  rw [namesListed]
  exact (Line.inTurnsNodup n).map Line.nameInjective

theorem linesNodup (n : Nat) (square : Square) : (square.lines n).Nodup := by
  simp [Square.lines]

structure WellNamed (n : Nat) : Prop where
  side : 1 ≤ n
  diagonals : 1 ≤ 2 * n
  corner : ∀ square ∈ squares n, square.row ≤ n - 1 + square.column
  above : ∀ square ∈ squares n, n - 1 + square.column < 2 * n
  trailing : ∀ square ∈ squares n, square.trailing < 2 * n - 1
  leading : ∀ square ∈ squares n, square.leading n < 2 * n - 1
  distinct : ((namedColumns n).map Prod.fst).Nodup
  known : ∀ square ∈ squares n, ∀ name ∈ columnsOf n square, name ∈ (namedColumns n).map Prod.fst
  apart : ∀ square ∈ squares n, (columnsOf n square).Nodup

theorem wellNamed (some : 0 < n) : WellNamed n where
  side := some
  diagonals := by omega
  corner square member := by
    have inside := memSquares.mp member
    omega
  above square member := by
    have inside := memSquares.mp member
    omega
  trailing square member := by
    have inside := memSquares.mp member
    rw [Square.trailing]
    omega
  leading square member := by
    have inside := memSquares.mp member
    rw [Square.leading]
    omega
  distinct := namesDistinct n
  known square member name listed := by
    obtain ⟨line, through, rfl⟩ := List.mem_map.mp (show name ∈ (square.lines n).map Line.name from listed)
    rw [namesListed]
    exact List.mem_map_of_mem ((Line.memInTurns line).mpr (linesKnown member through))
  apart square _ := (linesNodup n square).map Line.nameInjective

def entriesOf (n : Nat) (square : Square) : List Nat := (square.lines n).map (Line.inTurns n).idxOf

theorem placeOf (on : square ∈ squares n) {line : Line} (through : line ∈ square.lines n) :
    (Line.inTurns n)[(Line.inTurns n).idxOf line]? = some line :=
  List.getElem?_idxOf ((Line.memInTurns line).mpr (linesKnown on through))

theorem entriesNodup (on : square ∈ squares n) : (entriesOf n square).Nodup := by
  refine (linesNodup n square).map_on fun first inFirst second _ same => ?_
  exact (List.idxOf_inj ((Line.memInTurns first).mpr (linesKnown on inFirst))).mp same

theorem namesResolved (on : square ∈ squares n) :
    ((columnsOf n square).map .named).map (Sheet.empty.withColumns (namedColumns n)).resolve =
      (entriesOf n square).map some := by
  rw [show columnsOf n square = (square.lines n).map Line.name from rfl, entriesOf, List.map_map,
    List.map_map, List.map_map]
  apply List.map_congr_left
  intro line through
  refine Sheet.findListed (namesDistinct n) ?_
  rw [show (Sheet.empty.withColumns (namedColumns n)).columns = namedColumns n from rfl, namesListed,
    List.getElem?_map, placeOf on through]
  rfl

theorem entriesMeet (n : Nat) (position column : Nat) :
    (listing n (Line.inTurns n) Line.name).Meets position column ↔
      ∃ entries, ((squares n).map (entriesOf n))[position]? = some entries ∧ column ∈ entries := by
  simp only [List.getElem?_map, Option.map_eq_some_iff]
  constructor
  · intro met
    obtain ⟨square, line, here, (listed : (Line.inTurns n)[column]? = some line), contains⟩ := met
    refine ⟨_, ⟨square, here, rfl⟩, List.mem_map.mpr ⟨line, memLines.mpr contains, ?_⟩⟩
    obtain ⟨inside, rfl⟩ := List.getElem?_eq_some_iff.mp listed
    exact (Line.inTurnsNodup n).idxOf_getElem column inside
  · intro member
    obtain ⟨_, ⟨square, here, rfl⟩, there⟩ := member
    obtain ⟨line, through, rfl⟩ := List.mem_map.mp there
    exact ⟨square, line, here, placeOf (List.mem_of_getElem? here) through, memLines.mp through⟩

theorem placesFilled (n : Nat) : filledPlaces ((squares n).map (entriesOf n)) = List.range (n * n) := by
  rw [filledAll]
  · rw [squares, rowsIndexed, List.length_map, List.length_map, List.length_range]
  · intro row member
    obtain ⟨square, -, rfl⟩ := List.mem_map.mp member
    exact List.cons_ne_nil _ _

theorem addsColumn (column : String × Bool) (solver : Solver) :
    (match column with | (name, isPrimary) => solver.addColumn name isPrimary) =
      solver.addColumn (id column).1 (id column).2 := rfl

theorem addsSquare (n : Nat) (square : Square) (solver : Solver) : addSquare n square solver =
    Reply.each (fun column solver => solver.setColumn column) ((columnsOf n square).map .named)
      solver.newRow :=
  (Reply.eachMap (fun column solver => solver.setColumn column) _ _ _).symm

theorem solverLoads (n : Nat) : ∃ reply sheet, solver n = .ok reply ∧ reply.value = .ok () ∧
    reply.solver.Keeps sheet ∧ sheet.Loaded (namedColumns n) ((squares n).map (entriesOf n)) := by
  obtain ⟨columns, added, -, kept, value⟩ :=
    (Solver.Keeps.ofConfig .standard).loadsColumns (namedColumns n) addsColumn
  rw [List.map_id] at kept
  have fresh : firstTaken [] ((namedColumns n).map Prod.fst) = none :=
    takenNone.mpr ⟨namesDistinct n, fun _ _ => List.not_mem_nil⟩
  have value : columns.value = .ok () := value.trans (answerFresh fresh)
  obtain ⟨rows, sheet, filled, well, holds, loaded, -⟩ := (kept _ value).loadsRows (squares n) (addsSquare n)
    (fun _ on => namesResolved on) fun _ on => entriesNodup on
  refine ⟨{ rows with events := columns.events ++ rows.events }, sheet, ?_, well, holds, loaded⟩
  simp only [solver, added, value, filled, bind, Except.bind]
  rfl

theorem loadedModels {sheet : Sheet} (loaded : sheet.Loaded (namedColumns n) ((squares n).map (entriesOf n))) :
    sheet.Models (listing n (Line.inTurns n) Line.name) (List.range (n * n)) := by
  have models := loaded.modelsProblem (by simp [columnsListed, listing, problem]) (entriesMeet n)
  rwa [placesFilled] at models

theorem searchPlaces {solver : Solver} {sheet : Sheet} (keeps : solver.Keeps sheet)
    (models : sheet.Models (listing n (Line.inTurns n) Line.name) (List.range (n * n))) :
    Exhausts (Placement n) ((sheet.search solver.config.byFewest).solutions.map fun solution =>
      solution.rows.map (Square.ofIndex n)) := by
  have placed := placementsListed Line.memInTurns (models.searchExhausts solver.config.byFewest)
  rw [List.map_map] at placed
  refine (congrArg (Exhausts (Placement n)) (List.map_congr_left fun solution member => ?_)).mp placed
  have completes := ((keeps.sound.searchExhausts solver.config.byFewest).exact _).mp
    (List.mem_map_of_mem (List.mem_map_of_mem member))
  refine List.map_map.trans (List.map_congr_left fun row there => ?_)
  have inside := Finset.mem_range.mp (models.rowsInside completes (List.mem_toFinset.mpr there))
  rw [List.length_range] at inside
  rw [Function.comp, List.getD_eq_getElem?_getD, List.getElem?_range inside, Option.getD_some]

theorem solverPlaces {solver : Solver} {sheet : Sheet} (keeps : solver.Keeps sheet)
    (models : sheet.Models (listing n (Line.inTurns n) Line.name) (List.range (n * n))) :
    ∃ solutions removals, solver.Lists solutions removals ∧
      Exhausts (Placement n) (solutions.map fun solution => solution.rows.map (Square.ofIndex n)) :=
  ⟨_, _, keeps.searchLists, searchPlaces keeps models⟩

theorem encodingPlaces {encoding : Encoding Square Line} (reads : encoding.ReadsSolutions (problem n)) :
    ∃ reading boards, encoding.allSolutions = .ok reading ∧ reading.value = .ok boards ∧
      Exhausts (Placement n) boards := by
  obtain ⟨reading, boards, positions, read, value, same, exhausts⟩ := reads
  have known : ∀ line, line ∈ Line.all n ↔ line ∈ Line.all n := fun _ => Iff.rfl
  have squaresRead : positions.map (·.map ((squares n)[·]?)) =
      (positions.map (·.map (Square.ofIndex n))).map (·.map some) := by
    rw [List.map_map]
    apply List.map_congr_left
    intro list member
    have solution := (exhausts.exact _).mp (List.mem_map_of_mem member)
    refine (List.map_congr_left fun position there => ?_).trans List.map_map.symm
    have inside := (solutionPlaces known solution).1 (List.mem_toFinset.mpr there)
    exact squareAt.mpr ⟨Finset.mem_range.mp inside, rfl⟩
  have injective : Function.Injective (List.map (List.map (some : Square → Option Square))) :=
    List.map_injective_iff.mpr (List.map_injective_iff.mpr (Option.some_injective Square))
  rw [injective (same.trans squaresRead)] at value
  exact ⟨reading, _, read, value, placementsListed known exhausts⟩

theorem queensPlaced {n : Nat} (some : 0 < n) : WellNamed n ∧
    (∃ reply solutions removals, solver n = .ok reply ∧ reply.value = .ok () ∧
      reply.solver.Lists solutions removals ∧
      Exhausts (Placement n) (solutions.map fun solution => solution.rows.map (Square.ofIndex n))) ∧
    ∃ encoding events reading boards,
      Encoding.ofProblem (problem n) .standard = .ok (.ok (encoding, events)) ∧
      encoding.allSolutions = .ok reading ∧ reading.value = .ok boards ∧ Exhausts (Placement n) boards := by
  obtain ⟨reply, sheet, made, value, keeps, loaded⟩ := solverLoads n
  obtain ⟨solutions, removals, lists, placed⟩ := solverPlaces keeps (loadedModels loaded)
  obtain ⟨answer, encoded, encodes, distinct⟩ := Encoding.ofProblemEncodes (problem n) .standard
  obtain ⟨encoding, events, rfl⟩ := distinct (.inr ((Line.allNodup n).map Line.labelInjective))
  obtain ⟨reading, boards, read, all, placed'⟩ :=
    encodingPlaces (encodes encoding events rfl).readsSolutions
  exact ⟨wellNamed some, ⟨reply, solutions, removals, made, value, lists, placed⟩,
    encoding, events, reading, boards, encoded, read, all, placed'⟩

def fourQueens : Finset Square := {⟨0, 1⟩, ⟨1, 3⟩, ⟨2, 0⟩, ⟨3, 2⟩}

theorem fourPlaced : 0 < 4 ∧ ∃ reply solutions removals, solver 4 = .ok reply ∧
    reply.solver.Lists solutions removals ∧
    fourQueens ∈ (solutions.map fun solution => solution.rows.map (Square.ofIndex 4)).map List.toFinset := by
  have some : 0 < 4 := by decide
  obtain ⟨-, ⟨reply, solutions, removals, made, -, lists, placed⟩, -⟩ := queensPlaced some
  have placement : Placement 4 fourQueens := ⟨by decide, by decide, by decide⟩
  exact ⟨some, reply, solutions, removals, made, lists, (placed.exact fourQueens).mpr placement⟩

end DancingLinks.Queens
