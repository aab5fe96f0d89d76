import DancingLinks.Proofs.EncodingMeaning
import DancingLinks.Proofs.OutOfPlay

/-! The solver of an encoding can be changed after the problem was loaded, and the table of rows cannot.
Mapping a solution passes over the rows that are not in the table; reading solutions stops at the first
such row. As long as every row of the solutions is in the table, and so as long as no row was added, the
two give the same lists. -/
namespace DancingLinks

namespace Encoding

variable {P C : Type} {problem : Problem P C} {config : Config} {encoding : Encoding P C}

inductive Used (problem : Problem P C) (config : Config) : Encoding P C → Prop where
  | loaded {encoding events} (made : ofProblem problem config = .ok (.ok (encoding, events))) :
      Used problem config encoding
  | call {encoding solver} (used : Used problem config encoding) (action : Action)
      (admitted : encoding.solver.Admits action)
      (performed : encoding.solver.perform action = .ok solver) :
      Used problem config { encoding with solver }
  | read {encoding reading} (used : Used problem config encoding) (limit : Nat)
      (done : encoding.solutions limit = .ok reading) : Used problem config reading.encoding

def Covers (encoding : Encoding P C) (solutions : List Solution) : Prop :=
  ∀ solution ∈ solutions, ∀ row ∈ solution.rows, row < encoding.table.size

/-- Reading gives what mapping gives, one list for each solution, up to the first row that is not in the
table; with that row it ends. -/
structure Maps (encoding : Encoding P C) (solutions : List Solution) (reading : Reading P C) : Prop where
  covered : encoding.Covers solutions →
    reading.value = .ok (solutions.map encoding.possibilitiesOf)
  strays : ∀ before solution after earlier row later, solutions = before ++ solution :: after →
    encoding.Covers before → solution.rows = earlier ++ row :: later →
    (∀ known ∈ earlier, known < encoding.table.size) → encoding.table.size ≤ row →
    reading.value = .error row

structure Serves (encoding : Encoding P C) (sheet : Sheet) : Prop where
  table : encoding.table = .ofProblem encoding.problem
  keeps : encoding.solver.Keeps sheet

theorem possibilityKnown {sheet : Sheet} {row : Nat} (serves : encoding.Serves sheet)
    (inside : row < encoding.table.size) : ∃ possibility, encoding.possibility row = some possibility := by
  have listed : (RowTable.ofProblem encoding.problem).positions[row]? =
    some encoding.table.positions[row] := by
    rw [← serves.table]
    exact Array.getElem?_eq_getElem inside
  have member := Array.mem_toList_iff.mpr (Array.mem_of_getElem? listed)
  obtain ⟨⟨possibility, place⟩, kept, same⟩ := List.mem_map.mp member
  have there := List.mem_zipIdx_iff_getElem?.mp (List.mem_of_mem_filter kept)
  refine ⟨possibility, ?_⟩
  rw [Encoding.possibility, RowTable.positionOf, serves.table, listed, ← same, Option.bind_some, there]

theorem possibilityNone {row : Nat} (outside : encoding.table.size ≤ row) :
    encoding.possibility row = none := by
  rw [Encoding.possibility, RowTable.positionOf, Array.getElem?_eq_none outside, Option.bind_none]

def lookUp (encoding : Encoding P C) (row : Nat) : Except Nat P :=
  match encoding.possibility row with
  | some possibility => .ok possibility
  | none => .error row

theorem interpretRows (encoding : Encoding P C) (solution : Solution) :
    encoding.interpret solution = solution.rows.mapM encoding.lookUp := rfl

theorem readsKnown {sheet : Sheet} (serves : encoding.Serves sheet) {rows : List Nat}
    (inside : ∀ row ∈ rows, row < encoding.table.size) :
    rows.mapM encoding.lookUp = .ok (rows.filterMap encoding.possibility) := by
  induction rows with
  | nil => rfl
  | cons row rest ih =>
    obtain ⟨possibility, found⟩ := possibilityKnown serves (inside row List.mem_cons_self)
    have later := ih fun other member => inside other (List.mem_cons_of_mem _ member)
    rw [List.mapM_cons, later, List.filterMap_cons, lookUp, found]
    rfl

theorem readsStray {sheet : Sheet} (serves : encoding.Serves sheet) {solution : Solution}
    {earlier later : List Nat} {row : Nat} (rows : solution.rows = earlier ++ row :: later)
    (inside : ∀ known ∈ earlier, known < encoding.table.size) (outside : encoding.table.size ≤ row) :
    encoding.interpret solution = .error row := by
  rw [interpretRows, rows, List.mapM_append, readsKnown serves inside, List.mapM_cons, lookUp,
    possibilityNone outside]
  rfl

theorem readsCovered {sheet : Sheet} (serves : encoding.Serves sheet) {solutions : List Solution}
    (covers : encoding.Covers solutions) :
    solutions.mapM encoding.interpret = .ok (solutions.map encoding.possibilitiesOf) := by
  induction solutions with
  | nil => rfl
  | cons solution rest ih =>
    have first : encoding.interpret solution = .ok (encoding.possibilitiesOf solution) :=
      readsKnown serves (covers solution List.mem_cons_self)
    have later := ih fun other member => covers other (List.mem_cons_of_mem _ member)
    rw [List.mapM_cons, first, later]
    rfl

theorem valueMaps {sheet : Sheet} (serves : encoding.Serves sheet) {solutions : List Solution}
    {reading : Reading P C} (value : reading.value = solutions.mapM encoding.interpret) :
    encoding.Maps solutions reading where
  covered covers := value.trans (readsCovered serves covers)
  strays before solution after earlier row later split covers rows inside outside := by
    rw [value, split, List.mapM_append, readsCovered serves covers, List.mapM_cons,
      readsStray serves rows inside outside]
    rfl

theorem readServes {sheet : Sheet} (serves : encoding.Serves sheet) {limit : Nat}
    {reading : Reading P C} (done : encoding.solutions limit = .ok reading) :
    reading.encoding.Serves sheet ∧ reading.encoding.problem = encoding.problem := by
  have begun : Poised sheet encoding.solver.torus encoding.solver.config.byFewest
    encoding.solver.enumeration _ := .fresh
  obtain ⟨last, left, collected, rests⟩ :=
    begun.collectReads encoding.interpret serves.keeps.sound serves.keeps.holds limit
  obtain ⟨events, closed⟩ := rests.closeAbandons
  simp only [solutions, collected, closed, bind, Except.bind] at done
  cases done
  exact ⟨⟨serves.table, serves.keeps.keepsSearched ..⟩, rfl⟩

theorem Used.usedServes (used : Used problem config encoding) :
    encoding.problem = problem ∧ ∃ sheet, encoding.Serves sheet := by
  induction used with
  | loaded made =>
    obtain ⟨answer, same, encodes, -⟩ := ofProblemEncodes problem config
    have encoded := encodes _ _ (Except.ok.inj (same.symm.trans made))
    obtain ⟨sheet, keeps, -⟩ := encoded.models
    exact ⟨encoded.original, sheet, encoded.table.trans (encoded.original ▸ rfl), keeps⟩
  | call used action admitted performed ih =>
    obtain ⟨original, sheet, serves⟩ := ih
    obtain ⟨solver, done, kept, -⟩ := serves.keeps.performKeeps admitted
    cases done.symm.trans performed
    exact ⟨original, _, serves.table, kept⟩
  | read used limit done ih =>
    obtain ⟨original, sheet, serves⟩ := ih
    obtain ⟨serves, same⟩ := readServes serves done
    exact ⟨same.trans original, sheet, serves⟩

theorem Serves.servesCovers {sheet : Sheet} (serves : encoding.Serves sheet) {byFewest : Bool}
    (fixed : encoding.solver.rowCount = encoding.table.size) :
    encoding.Covers (sheet.search byFewest).solutions := by
  intro solution found row member
  have enabled := serves.keeps.solutionInPlay found row member
  by_contra outside
  rw [Solver.isRowEnabled, fixed, if_neg outside] at enabled
  cases enabled

end Encoding

theorem readingsMap {P C : Type} {problem : Problem P C} {config : Config} {encoding : Encoding P C}
    (used : encoding.Used problem config) :
    ∃ listed : List Solution,
      (∀ count, ∃ search, encoding.solver.enumeration.calls count =
        .ok ((List.range count).map fun place => listed[place]?, search)) ∧
      (∀ limit, ∃ reading, encoding.solutions limit = .ok reading ∧
        encoding.Maps (listed.take limit) reading) ∧
      (∃ reading, encoding.allSolutions = .ok reading ∧ encoding.Maps listed reading) ∧
      (encoding.solver.rowCount = encoding.table.size → encoding.Covers listed) := by
  obtain ⟨-, sheet, serves⟩ := used.usedServes
  have begun : Poised sheet encoding.solver.torus encoding.solver.config.byFewest
    encoding.solver.enumeration _ := .fresh
  refine ⟨(sheet.search encoding.solver.config.byFewest).solutions, ?_, ?_, ?_, serves.servesCovers⟩
  · intro count
    obtain ⟨search, left, calls, -⟩ := begun.callsAnswer serves.keeps.sound serves.keeps.holds count
    exact ⟨search, calls⟩
  · intro limit
    obtain ⟨reading, read, value⟩ := Encoding.solutionsRead serves.keeps limit
    exact ⟨reading, read, Encoding.valueMaps serves value⟩
  · obtain ⟨reading, read, value⟩ := Encoding.readsAll serves.keeps
    exact ⟨reading, read, Encoding.valueMaps serves value⟩

def Table.lone : Table := ⟨["possibility"], ["constraint"], [], [[0]]⟩

def Encoding.strayed : Encoding (Nat × String) (Nat × String) where
  problem := Table.lone.problem
  solver :=
    { config := .standard
      position := .ofTorus ⟨#[⟨1, 1, 0, 0, .root⟩, ⟨0, 0, 2, 3, .head 0⟩, ⟨2, 2, 3, 1, .entry 0 0⟩,
        ⟨3, 3, 1, 2, .entry 1 0⟩], #[⟨"constraint", 1, 2, true, some 1⟩], #[2, 3], some 3, 0⟩
      names := ⟨[("constraint", 0)]⟩
      listener := none
      sink := none }
  table := ⟨#[0]⟩

theorem Encoding.strayedUsed : Encoding.Used Table.lone.problem .standard .strayed := by
  have loaded : Encoding.ofProblem Table.lone.problem .standard = .ok (.ok (_, _)) := rfl
  exact ((Used.loaded loaded).call .newRow trivial rfl).call (.setColumn (.named "constraint"))
    (fun _ _ _ _ => nofun) rfl

theorem strayedMaps :
    Encoding.Used Table.lone.problem .standard .strayed ∧ ∃ listed : List Solution,
      (∀ count, ∃ search, Encoding.strayed.solver.enumeration.calls count =
        .ok ((List.range count).map fun place => listed[place]?, search)) ∧
      (∀ limit, ∃ reading, Encoding.strayed.solutions limit = .ok reading ∧
        Encoding.strayed.Maps (listed.take limit) reading) ∧
      (∃ reading, Encoding.strayed.allSolutions = .ok reading ∧ Encoding.strayed.Maps listed reading) ∧
      (Encoding.strayed.solver.rowCount = Encoding.strayed.table.size → Encoding.strayed.Covers listed) :=
  ⟨Encoding.strayedUsed, readingsMap Encoding.strayedUsed⟩

theorem strayedNotMapped :
    Encoding.Used Table.lone.problem .standard .strayed ∧
      (Encoding.strayed.solver.enumeration.calls 3).map (fun answer => answer.1.map (·.map fun solution =>
        Encoding.strayed.possibilitiesOf solution)) = .ok [some [], some [(0, "possibility")], none] ∧
      (Encoding.strayed.solutions 2).map (fun reading => reading.value) = .ok (.error 1) ∧
      Encoding.strayed.allSolutions.map (fun reading => reading.value) = .ok (.error 1) ∧
      ¬ ∃ reading lists, Encoding.strayed.allSolutions = .ok reading ∧ reading.value = .ok lists := by
  have all : Encoding.strayed.allSolutions.map (fun reading => reading.value) = .ok (.error 1) := rfl
  refine ⟨Encoding.strayedUsed, rfl, rfl, all, fun mapped => ?_⟩
  obtain ⟨reading, lists, read, value⟩ := mapped
  rw [read, Except.map, value] at all
  cases all

end DancingLinks
