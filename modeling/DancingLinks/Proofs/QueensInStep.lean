import DancingLinks.Proofs.EnumerationLockstep
import DancingLinks.Proofs.QueensMatrix
import DancingLinks.Proofs.Renumbering

/-! The two matrices of the queens are the same up to the numbers of the diagonals: the one built by hand
takes both kinds of them in turns, and the encoded one takes one kind after the other. The other lines
come first in both. So searches of the two go in step. -/
namespace DancingLinks

theorem Sheet.primariesFirst {sheet : Sheet} {main spare : List (String × Bool)}
    (columns : sheet.columns = main ++ spare) (needed : ∀ column ∈ main, column.2 = true)
    (optional : ∀ column ∈ spare, column.2 = false) : sheet.primaries = List.range main.length := by
  have before : ∀ index ∈ List.range main.length, sheet.isPrimary index = true := by
    intro index member
    have inside := List.mem_range.mp member
    rw [isPrimary, columns, List.getElem?_append_left inside, List.getElem?_eq_getElem inside]
    exact needed _ (List.getElem_mem inside)
  have after : ∀ index ∈ (List.range spare.length).map (main.length + ·), ¬ sheet.isPrimary index = true := by
    intro index member
    obtain ⟨offset, within, rfl⟩ := List.mem_map.mp member
    have inside := List.mem_range.mp within
    rw [isPrimary, columns, List.getElem?_append_right (Nat.le_add_right ..), Nat.add_sub_cancel_left,
      List.getElem?_eq_getElem inside, Option.map_some, Option.getD_some, optional _ (List.getElem_mem inside)]
    exact Bool.false_ne_true
  rw [primaries, columns, List.length_append, List.range_add, List.filter_append,
    List.filter_eq_self.mpr before, List.filter_eq_nil_iff.mpr after, List.append_nil]

theorem Solver.Keeps.setByFewest {solver : Solver} {sheet : Sheet} (keeps : solver.Keeps sheet)
    (byFewest : Bool) : (solver.setByFewest byFewest).Keeps sheet :=
  ⟨keeps.sound, keeps.holds, keeps.path, keeps.names⟩

def Solver.HasColumns (solver : Solver) (columns : List (String × Bool)) : Prop :=
  ∃ sheet, solver.Keeps sheet ∧ sheet.columns = columns

structure Solver.Produces (solver : Solver) (solutions : List Solution) (removals : Nat) : Prop where
  told : solver.Lists solutions removals
  drawn : ∀ count, ∃ search, solver.enumeration.calls count =
      .ok ((List.range count).map fun place => solutions[place]?, search) ∧
    solver.Follows solutions removals count search

theorem Solver.Keeps.producesSearch {solver : Solver} {sheet : Sheet} (keeps : solver.Keeps sheet) :
    solver.Produces (sheet.search solver.config.byFewest).solutions
      (sheet.search solver.config.byFewest).work :=
  ⟨keeps.searchLists, keeps.callsFollow⟩

def Solver.GoesWith (first second : Solver) : Prop :=
  ∃ solutions solutions' removals, first.Produces solutions removals ∧ second.Produces solutions' removals ∧
    solutions'.map Solution.choice = solutions.map Solution.choice

theorem Solver.Keeps.goesWith {solver other : Solver} {sheet sheet' : Sheet} {place : Nat → Nat}
    (keeps : solver.Keeps sheet) (keeps' : other.Keeps sheet') (renumbers : sheet.Renumbers place sheet')
    (byFewest : Bool) : (solver.setByFewest byFewest).GoesWith (other.setByFewest byFewest) := by
  obtain ⟨same, work⟩ := renumbers.searchMatches keeps.sound keeps'.sound byFewest
  exact ⟨_, _, _, (keeps.setByFewest byFewest).producesSearch,
    work ▸ (keeps'.setByFewest byFewest).producesSearch, same⟩

namespace Queens

variable {n : Nat} {square : Square}

def mainLines (n : Nat) : List Line := (List.range n).map .row ++ (List.range n).map .column

def slantedLines (n : Nat) : List Line :=
  (List.range (2 * n - 1)).map .leading ++ (List.range (2 * n - 1)).map .trailing

def slantedInTurns (n : Nat) : List Line :=
  (List.range (2 * n - 1)).flatMap fun index => [.trailing index, .leading index]

theorem allLinesSplit (n : Nat) : Line.all n = mainLines n ++ slantedLines n := by
  simp [Line.all, mainLines, slantedLines]

theorem inTurnsSplit (n : Nat) : Line.inTurns n = mainLines n ++ slantedInTurns n := rfl

theorem mainNeeded : ∀ line ∈ mainLines n, line.isDiagonal = false := by
  simp [mainLines, Line.isDiagonal, or_imp, forall_and]

theorem slantedSpare : ∀ line ∈ slantedLines n, line.isDiagonal = true := by
  simp [slantedLines, Line.isDiagonal, or_imp, forall_and]

theorem turnsSpare : ∀ line ∈ slantedInTurns n, line.isDiagonal = true := by
  intro line member
  obtain ⟨index, -, turn⟩ := List.mem_flatMap.mp member
  obtain rfl | rfl := List.mem_pair.mp turn <;> rfl

def placeOfColumn (n column : Nat) : Nat := (Line.all n).idxOf ((Line.inTurns n).getD column (.row 0))

theorem placeOfLine {line : Line} (known : line ∈ Line.all n) :
    placeOfColumn n ((Line.inTurns n).idxOf line) = (Line.all n).idxOf line := by
  rw [placeOfColumn, List.getD_eq_getElem?_getD, List.getElem?_idxOf ((Line.memInTurns line).mpr known),
    Option.getD_some]

theorem placeApart {first second : Nat} (inside : first < (Line.inTurns n).length)
    (within : second < (Line.inTurns n).length) (same : placeOfColumn n first = placeOfColumn n second) :
    first = second := by
  simp only [placeOfColumn, List.getD_eq_getElem?_getD, List.getElem?_eq_getElem inside,
    List.getElem?_eq_getElem within, Option.getD_some] at same
  have known := (Line.memInTurns _).mp (List.getElem_mem inside)
  exact (Line.inTurnsNodup n).getElem_inj_iff.mp ((List.idxOf_inj known).mp same)

theorem placeMain {column : Nat} (inside : column < (mainLines n).length) :
    placeOfColumn n column = column := by
  have there : (Line.all n)[column]? = some (mainLines n)[column] := by
    rw [allLinesSplit, List.getElem?_append_left inside, List.getElem?_eq_getElem inside]
  obtain ⟨within, same⟩ := List.getElem?_eq_some_iff.mp there
  rw [placeOfColumn, inTurnsSplit, List.getD_eq_getElem?_getD, List.getElem?_append_left inside,
    List.getElem?_eq_getElem inside, Option.getD_some, ← same]
  exact (Line.allNodup n).idxOf_getElem column within

theorem placesSatisfied (n : Nat) :
    filledPlaces ((squares n).map (problem n).satisfied) = List.range (n * n) := by
  rw [filledAll]
  · rw [squares, rowsIndexed, List.length_map, List.length_map, List.length_range]
  · intro row member
    obtain ⟨square, on, rfl⟩ := List.mem_map.mp member
    have known := linesKnown on (show Line.row square.row ∈ square.lines n by simp [Square.lines])
    refine List.ne_nil_of_mem ((Problem.memSatisfied square).mpr ⟨_, List.getElem?_idxOf known, ?_⟩)
    exact beq_self_eq_true square.row

theorem entriesPlaced (on : square ∈ squares n) :
    ((problem n).satisfied square).Perm ((entriesOf n square).map (placeOfColumn n)) := by
  have placed : (entriesOf n square).map (placeOfColumn n) = (square.lines n).map (Line.all n).idxOf := by
    rw [entriesOf, List.map_map]
    exact List.map_congr_left fun line through => placeOfLine (linesKnown on through)
  have distinct : ((square.lines n).map (Line.all n).idxOf).Nodup := by
    refine (linesNodup n square).map_on fun first inFirst second _ same => ?_
    exact (List.idxOf_inj (linesKnown on inFirst)).mp same
  rw [placed]
  refine (List.perm_ext_iff_of_nodup ((problem n).satisfiedNodup square) distinct).mpr fun column => ?_
  rw [Problem.memSatisfied, List.mem_map]
  constructor
  · intro satisfied
    obtain ⟨line, there, contains⟩ := satisfied
    obtain ⟨inside, rfl⟩ := List.getElem?_eq_some_iff.mp there
    exact ⟨_, memLines.mpr contains, (Line.allNodup n).idxOf_getElem column inside⟩
  · intro listed
    obtain ⟨line, through, rfl⟩ := listed
    exact ⟨line, List.getElem?_idxOf (linesKnown on through), memLines.mp through⟩

theorem columnsSplit : namedColumns n = (mainLines n).map (fun line => (line.name, !line.isDiagonal)) ++
    (slantedInTurns n).map fun line => (line.name, !line.isDiagonal) := by
  rw [columnsListed, inTurnsSplit, List.map_append]

theorem encodedSplit : (Line.all n).map (Encoding.columnOf (problem n)) =
    (mainLines n).map (Encoding.columnOf (problem n)) ++
      (slantedLines n).map (Encoding.columnOf (problem n)) := by
  rw [allLinesSplit, List.map_append]

section Loaded

variable {first second : Sheet} (named : first.Loaded (namedColumns n) ((squares n).map (entriesOf n)))
  (encoded : second.Loaded ((Line.all n).map (Encoding.columnOf (problem n)))
    ((squares n).map (problem n).satisfied))

include named in
theorem namedPrimaries : first.primaries = List.range (mainLines n).length := by
  refine (Sheet.primariesFirst (named.columns.trans columnsSplit) ?_ ?_).trans (by rw [List.length_map])
  · exact List.forall_mem_map.mpr fun line member => congrArg not (mainNeeded line member)
  · exact List.forall_mem_map.mpr fun line member => congrArg not (turnsSpare line member)

include encoded in
theorem encodedPrimaries : second.primaries = List.range (mainLines n).length := by
  refine (Sheet.primariesFirst (encoded.columns.trans encodedSplit) ?_ ?_).trans (by rw [List.length_map])
  · exact List.forall_mem_map.mpr fun line member => congrArg not (mainNeeded line member)
  · exact List.forall_mem_map.mpr fun line member => congrArg not (slantedSpare line member)

include named encoded

theorem rowsRenumbered (row : Nat) :
    (second.columnsOf row).Perm ((first.columnsOf row).map (placeOfColumn n)) := by
  by_cases inside : row < n * n
  · have here : (List.range (n * n))[row]? = some row := List.getElem?_range inside
    have there : (squares n)[row]? = some (Square.ofIndex n row) := squareAt.mpr ⟨inside, rfl⟩
    have byHand := named.rowAt (placesFilled n ▸ here)
    have byTable := encoded.rowAt (placesSatisfied n ▸ here)
    rw [List.getElem?_map, there, Option.map_some, Option.some_inj] at byHand byTable
    rw [← byHand, ← byTable]
    exact entriesPlaced (List.mem_of_getElem? there)
  · have past : first.rows.length ≤ row := by
      rw [← named.rowsCounted, placesFilled, List.length_range]
      exact Nat.le_of_not_lt inside
    have past' : second.rows.length ≤ row := by
      rw [← encoded.rowsCounted, placesSatisfied, List.length_range]
      exact Nat.le_of_not_lt inside
    rw [Sheet.columnsOfNew past, Sheet.columnsOfNew past', List.map_nil]

theorem boardsRenumbered : first.Renumbers (placeOfColumn n) second := by
  have width : first.columns.length = (Line.inTurns n).length := by
    rw [named.columns, columnsListed, List.length_map]
  have kept : ∀ column ∈ List.range (mainLines n).length, placeOfColumn n column = column :=
    fun column member => placeMain (List.mem_range.mp member)
  refine .ofLoaded named encoded ?_ ?_ (rowsRenumbered named encoded)
  · intro x inside y within same
    exact placeApart (width ▸ inside) (width ▸ within) same
  · rw [namedPrimaries named, encodedPrimaries encoded, List.map_congr_left kept, List.map_id']

end Loaded

theorem ordersDiffer (some : 0 < n) : Line.inTurns n ≠ Line.all n := by
  intro same
  -- the first column where they part is that of the first diagonal
  rw [inTurnsSplit, allLinesSplit, List.append_cancel_left_eq] at same
  obtain ⟨last, count⟩ : ∃ last, 2 * n - 1 = last + 1 := ⟨2 * n - 2, by omega⟩
  rw [slantedInTurns, slantedLines, count, List.range_succ_eq_map] at same
  exact Line.noConfusion (List.head_eq_of_cons_eq same)

theorem boardsInStep {n : Nat} (some : 0 < n) (byFewest : Bool) : ∃ reply encoding events,
    solver n = .ok reply ∧ reply.value = .ok () ∧
    Encoding.ofProblem (problem n) .standard = .ok (.ok (encoding, events)) ∧
    reply.solver.HasColumns ((Line.inTurns n).map fun line => (line.name, !line.isDiagonal)) ∧
    encoding.solver.HasColumns ((Line.all n).map fun line => (line.label, !line.isDiagonal)) ∧
    Line.inTurns n ≠ Line.all n ∧
    (reply.solver.setByFewest byFewest).GoesWith (encoding.solver.setByFewest byFewest) := by
  obtain ⟨reply, sheet, made, value, keeps, named⟩ := solverLoads n
  have fresh : firstTaken [] ((Line.all n).map Line.label) = none :=
    takenNone.mpr ⟨(Line.allNodup n).map Line.labelInjective, fun _ _ => List.not_mem_nil⟩
  obtain ⟨answer, encoded, ⟨name, -, -, taken⟩ | ⟨encoding, events, rfl, stores, -⟩⟩ :=
    Encoding.ofProblemStores (problem n) .standard
  · exact absurd (fresh.symm.trans taken) nofun
  · obtain ⟨sheet', keeps', loaded⟩ := stores.sheet
    exact ⟨reply, encoding, events, made, value, encoded,
      ⟨sheet, keeps, named.columns.trans (columnsListed n)⟩, ⟨sheet', keeps', loaded.columns⟩,
      ordersDiffer some, keeps.goesWith keeps' (boardsRenumbered named loaded) byFewest⟩

theorem fourInStep : 0 < 4 ∧ ∃ reply encoding events,
    solver 4 = .ok reply ∧ Encoding.ofProblem (problem 4) .standard = .ok (.ok (encoding, events)) ∧
    (reply.solver.setByFewest false).GoesWith (encoding.solver.setByFewest false) := by
  have some : 0 < 4 := by decide
  obtain ⟨reply, encoding, events, made, -, encoded, -, -, -, goes⟩ := boardsInStep some false
  exact ⟨some, reply, encoding, events, made, encoded, goes⟩

end Queens

end DancingLinks
