import DancingLinks.Problem.Table
import DancingLinks.Proofs.CollectedReadings
import DancingLinks.Proofs.ExhaustiveSearch
import DancingLinks.Proofs.LoadedSolver

/-! What the solutions of a problem are, told by positions alone, and that an encoding reads these and no
others. A sheet models a problem when its rows are the possibilities that satisfy anything, under the
positions these have, and its columns are the constraints; the labels of the constraints do not matter. -/
namespace DancingLinks

theorem zipIdxRising {α : Type} (items : List α) : (items.zipIdx.map Prod.snd).Pairwise (· < ·) := by
  rw [List.zipIdx_map_snd]
  exact List.pairwise_lt_range'

namespace Problem

variable {P C : Type} {problem : Problem P C} {position column : Nat}

def Meets (problem : Problem P C) (position column : Nat) : Prop :=
  ∃ possibility constraint, problem.possibilities[position]? = some possibility ∧
    problem.constraints[column]? = some constraint ∧ problem.satisfies possibility constraint = true

/-- Every constraint that is not optional is satisfied by exactly one of the chosen possibilities, an
optional one by at most one, and each chosen possibility satisfies one that is not optional. -/
structure IsSolution (problem : Problem P C) (chosen : Finset Nat) : Prop where
  needed : ∀ column constraint, problem.constraints[column]? = some constraint →
    problem.isOptional constraint = false → ∃! position, position ∈ chosen ∧ problem.Meets position column
  optional : ∀ column constraint, problem.constraints[column]? = some constraint →
    problem.isOptional constraint = true → ∀ first ∈ chosen, ∀ second ∈ chosen,
      problem.Meets first column → problem.Meets second column → first = second
  useful : ∀ position ∈ chosen, ∃ column constraint, problem.constraints[column]? = some constraint ∧
    problem.isOptional constraint = false ∧ problem.Meets position column

theorem memSatisfied (possibility : P) : column ∈ problem.satisfied possibility ↔
    ∃ constraint, problem.constraints[column]? = some constraint ∧
      problem.satisfies possibility constraint = true := by
  simp only [satisfied, List.mem_map, List.mem_filter, List.mem_zipIdx_iff_getElem?, Prod.exists]
  constructor
  · intro listed
    obtain ⟨constraint, _, ⟨there, satisfies⟩, rfl⟩ := listed
    exact ⟨constraint, there, satisfies⟩
  · intro satisfied
    obtain ⟨constraint, there, satisfies⟩ := satisfied
    exact ⟨constraint, column, ⟨there, satisfies⟩, rfl⟩

theorem satisfiedKnown {possibility : P} (member : column ∈ problem.satisfied possibility) :
    column < problem.constraints.length := by
  obtain ⟨constraint, there, -⟩ := (memSatisfied possibility).mp member
  exact (List.getElem?_eq_some_iff.mp there).1

theorem meetsIff : problem.Meets position column ↔
    ∃ entries, (problem.possibilities.map problem.satisfied)[position]? = some entries ∧
      column ∈ entries := by
  simp only [List.getElem?_map, Option.map_eq_some_iff, Meets]
  constructor
  · intro met
    obtain ⟨possibility, constraint, there, listed, satisfies⟩ := met
    exact ⟨_, ⟨possibility, there, rfl⟩, (memSatisfied possibility).mpr ⟨constraint, listed, satisfies⟩⟩
  · intro member
    obtain ⟨_, ⟨possibility, there, rfl⟩, inside⟩ := member
    obtain ⟨constraint, listed, satisfies⟩ := (memSatisfied possibility).mp inside
    exact ⟨possibility, constraint, there, listed, satisfies⟩

theorem satisfiedRising (problem : Problem P C) (possibility : P) :
    (problem.satisfied possibility).Pairwise (· < ·) :=
  (zipIdxRising _).sublist (List.filter_sublist.map Prod.snd)

theorem satisfiedNodup (problem : Problem P C) (possibility : P) :
    (problem.satisfied possibility).Nodup := (problem.satisfiedRising possibility).imp Nat.ne_of_lt

end Problem

def filledPlaces (rows : List (List Nat)) : List Nat :=
  (rows.zipIdx.filter fun row => !row.1.isEmpty).map Prod.snd

theorem filledRising (rows : List (List Nat)) : (filledPlaces rows).Pairwise (· < ·) :=
  (zipIdxRising rows).sublist (List.filter_sublist.map Prod.snd)

theorem memFilled {rows : List (List Nat)} {position : Nat} :
    position ∈ filledPlaces rows ↔ ∃ entries, rows[position]? = some entries ∧ entries ≠ [] := by
  simp [filledPlaces, List.mem_zipIdx_iff_getElem?]

theorem filledAll {rows : List (List Nat)} (filled : ∀ row ∈ rows, row ≠ []) :
    filledPlaces rows = List.range rows.length := by
  have all : (rows.zipIdx.filter fun row => !row.1.isEmpty) = rows.zipIdx := by
    refine List.filter_eq_self.mpr fun row member => ?_
    simpa using filled row.1 (List.fst_mem_of_mem_zipIdx member)
  rw [filledPlaces, all, List.zipIdx_map_snd, List.range_eq_range']

theorem RowTable.positionsFilled {P C : Type} (problem : Problem P C) :
    (RowTable.ofProblem problem).positions.toList =
      filledPlaces (problem.possibilities.map problem.satisfied) := by
  simp only [ofProblem, filledPlaces, List.zipIdx_map, List.filter_map, List.map_map]
  rfl

structure Sheet.Models {P C : Type} (problem : Problem P C) (positions : List Nat) (sheet : Sheet) :
    Prop where
  sound : sheet.Sound
  full : ∀ row, ∀ column ∈ sheet.columnsOf row, row ∈ sheet.live column
  kinds : sheet.columns.map Prod.snd = problem.constraints.map fun constraint =>
    !problem.isOptional constraint
  count : positions.length = sheet.rows.length
  distinct : positions.Nodup
  listed : ∀ position column, problem.Meets position column → position ∈ positions
  entries : ∀ row position, positions[row]? = some position →
    ∀ column, column ∈ sheet.columnsOf row ↔ problem.Meets position column

namespace Sheet.Loaded

variable {columns : List (String × Bool)} {rows : List (List Nat)} {sheet : Sheet}

theorem rowsPlaced (loaded : sheet.Loaded columns rows) :
    sheet.rows = (rows.zipIdx.filter fun row => !row.1.isEmpty).map Prod.fst := by
  have same : (fun row : List Nat × Nat => !row.1.isEmpty) = (fun row => decide (row ≠ [])) ∘ Prod.fst := by
    funext row
    obtain ⟨entries, _⟩ := row
    cases entries <;> simp
  rw [loaded.rows, same, ← List.filter_map, List.zipIdx_map_fst]

theorem rowsCounted (loaded : sheet.Loaded columns rows) : (filledPlaces rows).length = sheet.rows.length := by
  rw [loaded.rowsPlaced, filledPlaces, List.length_map, List.length_map]

theorem rowAt (loaded : sheet.Loaded columns rows) {row position : Nat}
    (there : (filledPlaces rows)[row]? = some position) : rows[position]? = some (sheet.columnsOf row) := by
  rw [filledPlaces, List.getElem?_map, Option.map_eq_some_iff] at there
  obtain ⟨⟨entries, _⟩, found, rfl⟩ := there
  have stored : sheet.columnsOf row = entries := by
    rw [Sheet.columnsOf, List.getD_eq_getElem?_getD, loaded.rowsPlaced, List.getElem?_map, found]
    rfl
  rw [stored]
  exact List.mem_zipIdx_iff_getElem?.mp (List.mem_of_mem_filter (List.mem_of_getElem? found))

theorem modelsProblem {P C : Type} {problem : Problem P C} (loaded : sheet.Loaded columns rows)
    (kinds : columns.map Prod.snd = problem.constraints.map fun constraint =>
      !problem.isOptional constraint)
    (meets : ∀ position column, problem.Meets position column ↔
      ∃ entries, rows[position]? = some entries ∧ column ∈ entries) :
    sheet.Models problem (filledPlaces rows) where
  sound := loaded.sound
  full := loaded.full
  kinds := (congrArg _ loaded.columns).trans kinds
  count := loaded.rowsCounted
  distinct := (filledRising rows).imp Nat.ne_of_lt
  listed position column met := by
    obtain ⟨entries, there, member⟩ := (meets position column).mp met
    exact memFilled.mpr ⟨entries, there, List.ne_nil_of_mem member⟩
  entries row position there column := by
    have place := loaded.rowAt there
    rw [meets]
    constructor
    · exact fun member => ⟨_, place, member⟩
    · intro listed
      obtain ⟨others, same, member⟩ := listed
      cases place.symm.trans same
      exact member

end Sheet.Loaded

namespace Sheet.Models

variable {P C : Type} {problem : Problem P C} {positions : List Nat} {sheet : Sheet} {row column : Nat}

theorem placeAt (row : Nat) (inside : row < positions.length) :
    positions[row]? = some (positions.getD row 0) := by
  rw [List.getD_eq_getElem?_getD, List.getElem?_eq_getElem inside]
  rfl

theorem placeInjective (models : sheet.Models problem positions) :
    Set.InjOn (fun row => positions.getD row 0) (Finset.range positions.length : Finset Nat) := by
  intro row inRow other inOther same
  have inside := Finset.mem_range.mp inRow
  have there := placeAt other (Finset.mem_range.mp inOther)
  rw [← show positions.getD row 0 = positions.getD other 0 from same] at there
  exact (List.getElem?_inj inside models.distinct).mp ((placeAt row inside).trans there.symm)

theorem primaryIff (models : sheet.Models problem positions) : column ∈ sheet.primaries ↔
    ∃ constraint, problem.constraints[column]? = some constraint ∧
      problem.isOptional constraint = false := by
  have kind := congrArg (·[column]?) models.kinds
  simp only [List.getElem?_map] at kind
  rw [memPrimaries, Sheet.isPrimary, kind]
  have width := congrArg List.length models.kinds
  simp only [List.length_map] at width
  rw [width]
  constructor
  · intro primary
    obtain ⟨inside, flag⟩ := primary
    rw [List.getElem?_eq_getElem inside] at flag ⊢
    exact ⟨_, rfl, by simpa using flag⟩
  · intro needed
    obtain ⟨constraint, there, flag⟩ := needed
    rw [there]
    exact ⟨(List.getElem?_eq_some_iff.mp there).1, by simp [flag]⟩

theorem entryIff (models : sheet.Models problem positions) (inside : row < positions.length) :
    column ∈ sheet.columnsOf row ↔ problem.Meets (positions.getD row 0) column :=
  models.entries row _ (placeAt row inside) column

variable {rows : Finset Nat}

theorem rowsInside (models : sheet.Models problem positions) (completes : sheet.Completes [] rows) :
    rows ⊆ Finset.range positions.length := by
  intro row member
  obtain ⟨column, inRow, -⟩ := completes.useful row member
  exact Finset.mem_range.mpr (models.count ▸ rowKnown inRow)

theorem rowPossible (models : sheet.Models problem positions) (completes : sheet.Completes [] rows)
    (member : row ∈ rows) : row < positions.length ∧
      ∃ possibility, problem.possibilities[positions.getD row 0]? = some possibility := by
  have inRange := Finset.mem_range.mp (models.rowsInside completes member)
  obtain ⟨column, inRow, -⟩ := completes.useful row member
  obtain ⟨possibility, -, there, -⟩ := (models.entryIff inRange).mp inRow
  exact ⟨inRange, possibility, there⟩

theorem completesSolves (models : sheet.Models problem positions) (completes : sheet.Completes [] rows) :
    problem.IsSolution (rows.image fun row => positions.getD row 0) := by
  have entry : ∀ row ∈ rows, ∀ column,
      column ∈ sheet.columnsOf row ↔ problem.Meets (positions.getD row 0) column := fun row member _ =>
    models.entryIff (Finset.mem_range.mp (models.rowsInside completes member))
  have apart : ∀ column, ∀ first ∈ rows, ∀ second ∈ rows, problem.Meets (positions.getD first 0) column →
      problem.Meets (positions.getD second 0) column → first = second := by
    intro column first inFirst second inSecond here there
    exact completes.apart first inFirst second inSecond column ((entry first inFirst column).mpr here)
      ((entry second inSecond column).mpr there)
  refine ⟨?_, ?_, ?_⟩
  · intro column constraint there needed
    obtain ⟨row, member, inRow⟩ :=
      completes.whole column (models.primaryIff.mpr ⟨constraint, there, needed⟩) List.not_mem_nil
    have met := (entry row member column).mp inRow
    refine ⟨positions.getD row 0, ⟨Finset.mem_image_of_mem _ member, met⟩, ?_⟩
    intro other chosen
    obtain ⟨again, inside, rfl⟩ := Finset.mem_image.mp chosen.1
    rw [apart column again inside row member chosen.2 met]
  · intro column _ _ _ first inFirst second inSecond here there
    obtain ⟨row, member, rfl⟩ := Finset.mem_image.mp inFirst
    obtain ⟨other, member', rfl⟩ := Finset.mem_image.mp inSecond
    rw [apart column row member other member' here there]
  · intro position chosen
    obtain ⟨row, member, rfl⟩ := Finset.mem_image.mp chosen
    obtain ⟨column, inRow, primary⟩ := completes.useful row member
    obtain ⟨constraint, there, needed⟩ := models.primaryIff.mp primary
    exact ⟨column, constraint, there, needed, (entry row member column).mp inRow⟩

theorem solutionCompletes (models : sheet.Models problem positions)
    (inside : rows ⊆ Finset.range positions.length)
    (solution : problem.IsSolution (rows.image fun row => positions.getD row 0)) :
    sheet.Completes [] rows := by
  have entry : ∀ row ∈ rows, ∀ column,
      column ∈ sheet.columnsOf row ↔ problem.Meets (positions.getD row 0) column := fun row member _ =>
    models.entryIff (Finset.mem_range.mp (inside member))
  have useful : ∀ row ∈ rows, ∃ column ∈ sheet.columnsOf row, column ∈ sheet.primaries := by
    intro row member
    obtain ⟨column, constraint, there, needed, met⟩ :=
      solution.useful _ (Finset.mem_image_of_mem _ member)
    exact ⟨column, (entry row member column).mpr met, models.primaryIff.mpr ⟨constraint, there, needed⟩⟩
  refine ⟨?_, fun _ _ _ _ => List.not_mem_nil, ?_, useful, ?_⟩
  · intro row member
    obtain ⟨column, inRow, -⟩ := useful row member
    exact (models.sound.enabledIff inRow).mpr (models.full row column inRow)
  · intro row member other member' column inRow inOther
    have here := (entry row member column).mp inRow
    have there := (entry other member' column).mp inOther
    have ⟨_, constraint, _, listed, _⟩ := here
    refine models.placeInjective (inside member) (inside member') ?_
    cases kind : problem.isOptional constraint with
    | true =>
      exact solution.optional column constraint listed kind _ (Finset.mem_image_of_mem _ member) _
        (Finset.mem_image_of_mem _ member') here there
    | false =>
      obtain ⟨_, -, only⟩ := solution.needed column constraint listed kind
      exact (only _ ⟨Finset.mem_image_of_mem _ member, here⟩).trans
        (only _ ⟨Finset.mem_image_of_mem _ member', there⟩).symm
  · intro column primary _
    obtain ⟨constraint, there, needed⟩ := models.primaryIff.mp primary
    obtain ⟨_, ⟨chosen, met⟩, -⟩ := solution.needed column constraint there needed
    obtain ⟨row, member, rfl⟩ := Finset.mem_image.mp chosen
    exact ⟨row, member, (entry row member column).mpr met⟩

theorem solutionIff (models : sheet.Models problem positions) (chosen : Finset Nat) :
    problem.IsSolution chosen ↔
      ∃ rows, sheet.Completes [] rows ∧ rows.image (fun row => positions.getD row 0) = chosen := by
  constructor
  · intro solution
    have back : ((Finset.range positions.length).filter fun row => positions.getD row 0 ∈ chosen).image
        (fun row => positions.getD row 0) = chosen := by
      ext position
      rw [Finset.mem_image]
      constructor
      · intro kept
        obtain ⟨row, member, rfl⟩ := kept
        exact (Finset.mem_filter.mp member).2
      · intro member
        obtain ⟨column, -, -, -, met⟩ := solution.useful position member
        obtain ⟨row, there⟩ := List.getElem?_of_mem (models.listed position column met)
        have bound := (List.getElem?_eq_some_iff.mp there).1
        have same : positions.getD row 0 = position :=
          Option.some.inj ((placeAt row bound).symm.trans there)
        exact ⟨row, Finset.mem_filter.mpr ⟨Finset.mem_range.mpr bound, same ▸ member⟩, same⟩
    exact ⟨_, models.solutionCompletes (Finset.filter_subset ..) (back.symm ▸ solution), back⟩
  · intro covered
    obtain ⟨rows, completes, rfl⟩ := covered
    exact models.completesSolves completes

theorem searchExhausts (models : sheet.Models problem positions) (byFewest : Bool) :
    Exhausts problem.IsSolution ((sheet.search byFewest).solutions.map fun solution =>
      solution.rows.map fun row => positions.getD row 0) := by
  have listed := (models.sound.searchExhausts byFewest).exhaustsImage models.placeInjective
    (fun _ => models.rowsInside)
    models.solutionIff
  rwa [List.map_map] at listed

end Sheet.Models

namespace Encoding

variable {P C : Type} {problem : Problem P C} {config : Config} {encoding : Encoding P C}

structure Encodes (problem : Problem P C) (config : Config) (encoding : Encoding P C) : Prop where
  original : encoding.problem = problem
  table : encoding.table = .ofProblem problem
  config : encoding.solver.config = config
  models : ∃ sheet, encoding.solver.Keeps sheet ∧
    sheet.Models problem (RowTable.ofProblem problem).positions.toList

def columnOf (problem : Problem P C) (constraint : C) : String × Bool :=
  (problem.label constraint, !problem.isOptional constraint)

theorem addsConstraint (problem : Problem P C) (constraint : C) (solver : Solver) :
    addConstraint problem constraint solver =
      solver.addColumn (columnOf problem constraint).1 (columnOf problem constraint).2 := rfl

theorem resolvesSatisfied (problem : Problem P C) (possibility : P) :
    ((problem.satisfied possibility).map .numbered).map
        (Sheet.empty.withColumns (problem.constraints.map (columnOf problem))).resolve =
      (problem.satisfied possibility).map some := by
  rw [List.map_map]
  apply List.map_congr_left
  intro index member
  have inside := Problem.satisfiedKnown member
  simp [Sheet.resolve, Sheet.withColumns, Sheet.empty, inside]

theorem addsPossibility (problem : Problem P C) (possibility : P) (solver : Solver) :
    addPossibility problem possibility solver =
      Reply.each (fun column solver => solver.setColumn column)
        ((problem.satisfied possibility).map .numbered) solver.newRow :=
  (Reply.eachMap (fun column solver => solver.setColumn column) _ _ _).symm

/-- All solutions can be read, and they are the solutions of the problem: what is read stands for
lists of positions, and these list every set of positions that is a solution once. -/
def ReadsSolutions (problem : Problem P C) (encoding : Encoding P C) : Prop :=
  ∃ reading lists positions, encoding.allSolutions = .ok reading ∧ reading.value = .ok lists ∧
    lists.map (·.map some) = positions.map (·.map (problem.possibilities[·]?)) ∧
    Exhausts problem.IsSolution positions

structure Stores (problem : Problem P C) (config : Config) (encoding : Encoding P C) : Prop where
  original : encoding.problem = problem
  table : encoding.table = .ofProblem problem
  config : encoding.solver.config = config
  sheet : ∃ sheet, encoding.solver.Keeps sheet ∧ sheet.Loaded (problem.constraints.map (columnOf problem))
    (problem.possibilities.map problem.satisfied)

theorem Stores.storesEncodes (stores : encoding.Stores problem config) : encoding.Encodes problem config := by
  obtain ⟨sheet, keeps, loaded⟩ := stores.sheet
  have models := loaded.modelsProblem (by simp [columnOf]) fun _ _ => Problem.meetsIff
  rw [← RowTable.positionsFilled] at models
  exact ⟨stores.original, stores.table, stores.config, sheet, keeps, models⟩

theorem ofProblemStores (problem : Problem P C) (config : Config) :
    ∃ answer, ofProblem problem config = .ok answer ∧
      ((∃ name, answer = .error (.duplicateColumn name) ∧ config.permissive = false ∧
          firstTaken [] (problem.constraints.map problem.label) = some name) ∨
        ∃ encoding events, answer = .ok (encoding, events) ∧ encoding.Stores problem config ∧
          (config.permissive = true ∨ firstTaken [] (problem.constraints.map problem.label) = none)) := by
  obtain ⟨columns, added, same, kept, named⟩ :=
    (Solver.Keeps.ofConfig config).loadsColumns problem.constraints (addsConstraint problem)
  change columns.value = columnsAnswer config.permissive [] (problem.constraints.map problem.label) at named
  cases value : columns.value with
  | error error =>
    obtain ⟨name, rfl, strict, taken⟩ := answerError (named.symm.trans value)
    refine ⟨.error (.duplicateColumn name), ?_, .inl ⟨name, rfl, strict, taken⟩⟩
    simp only [ofProblem, added, value, bind, Except.bind]
    rfl
  | ok _ =>
    obtain ⟨rows, sheet, filled, well, holds, loaded, same'⟩ := (kept _ value).loadsRows
      problem.possibilities (addsPossibility problem)
      (fun possibility _ => resolvesSatisfied problem possibility)
      fun possibility _ => problem.satisfiedNodup possibility
    have made : ∃ events, ofProblem problem config =
        .ok (.ok (⟨problem, rows.solver, .ofProblem problem⟩, events)) := by
      simp only [ofProblem, added, value, filled, well, bind, Except.bind]
      exact ⟨_, rfl⟩
    obtain ⟨events, made⟩ := made
    exact ⟨_, made, .inr ⟨_, events, rfl, ⟨rfl, rfl, same'.trans same, sheet, holds, loaded⟩,
      answerOk (named.symm.trans value)⟩⟩

theorem ofProblemEncodes (problem : Problem P C) (config : Config) :
    ∃ answer, ofProblem problem config = .ok answer ∧
      (∀ encoding events, answer = .ok (encoding, events) → encoding.Encodes problem config) ∧
      (config.permissive = true ∨ (problem.constraints.map problem.label).Nodup →
        ∃ encoding events, answer = .ok (encoding, events)) := by
  obtain ⟨answer, made, failed | loaded⟩ := ofProblemStores problem config
  · obtain ⟨name, rfl, strict, taken⟩ := failed
    refine ⟨_, made, fun _ _ => nofun, fun allowed => ?_⟩
    rcases allowed with permissive | distinct
    · rw [strict] at permissive
      cases permissive
    · rw [takenNone.mpr ⟨distinct, fun _ _ => List.not_mem_nil⟩] at taken
      cases taken
  · obtain ⟨encoding, events, rfl, stores, -⟩ := loaded
    refine ⟨_, made, fun other told same => ?_, fun _ => ⟨encoding, events, rfl⟩⟩
    cases same
    exact stores.storesEncodes

namespace Encodes

theorem interpretRead {positions : List Nat} {sheet : Sheet} {solution : Solution}
    (encodes : encoding.Encodes problem config)
    (listed : (RowTable.ofProblem problem).positions.toList = positions)
    (models : sheet.Models problem positions) (completes : sheet.Completes [] solution.rows.toFinset) :
    ∃ list, encoding.interpret solution = .ok list ∧
      list.map some = solution.rows.map fun row => problem.possibilities[positions.getD row 0]? := by
  refine mapRead fun row member => ?_
  obtain ⟨inside, possibility, there⟩ := models.rowPossible completes (List.mem_toFinset.mpr member)
  have place := Sheet.Models.placeAt row inside
  rw [← listed, Array.getElem?_toList] at place
  refine ⟨possibility, ?_, there.symm⟩
  simp only [Encoding.possibility, RowTable.positionOf, encodes.table, encodes.original, place, listed,
    there, Option.bind_some]

theorem readsSolutions (encodes : encoding.Encodes problem config) : encoding.ReadsSolutions problem := by
  obtain ⟨sheet, keeps, models⟩ := encodes.models
  obtain ⟨reading, read, value⟩ := readsAll keeps
  have exhausts := keeps.sound.searchExhausts encoding.solver.config.byFewest
  have positions := models.searchExhausts encoding.solver.config.byFewest
  obtain ⟨lists, interpreted, same⟩ := mapRead fun solution member =>
    encodes.interpretRead rfl models ((exhausts.exact _).mp
      (List.mem_map_of_mem (List.mem_map_of_mem member)))
  refine ⟨reading, lists, _, read, value.trans interpreted, ?_, positions⟩
  rw [same, List.map_map]
  exact List.map_congr_left fun solution _ => List.map_map.symm

end Encodes

end Encoding

theorem encodingKeepsMeaning {P C : Type} (problem : Problem P C) (config : Config) :
    (config.permissive = true ∨ (problem.constraints.map problem.label).Nodup →
      ∃ encoding events, Encoding.ofProblem problem config = .ok (.ok (encoding, events))) ∧
    (∀ encoding events, Encoding.ofProblem problem config = .ok (.ok (encoding, events)) →
      encoding.ReadsSolutions problem) ∧
    ∀ encoding events, Encoding.ofProblem problem.delegate config = .ok (.ok (encoding, events)) →
      encoding.ReadsSolutions problem := by
  obtain ⟨answer, made, encodes, named⟩ := Encoding.ofProblemEncodes problem config
  have reads : ∀ encoding events, Encoding.ofProblem problem config = .ok (.ok (encoding, events)) →
      encoding.ReadsSolutions problem := by
    intro encoding events same
    exact (encodes encoding events (Except.ok.inj (made.symm.trans same))).readsSolutions
  refine ⟨fun allowed => ?_, reads, reads⟩
  obtain ⟨encoding, events, rfl⟩ := named allowed
  exact ⟨encoding, events, made⟩

def Table.twins : Table := ⟨["none", "both"], ["cell", "cell"], [], [[], [0, 1]]⟩

theorem twinsRead : ¬(Table.twins.constraints).Nodup ∧ ∃ encoding events,
    Encoding.ofProblem Table.twins.problem ⟨false, true⟩ = .ok (.ok (encoding, events)) ∧
      encoding.ReadsSolutions Table.twins.problem := by
  obtain ⟨named, reads, -⟩ := encodingKeepsMeaning Table.twins.problem ⟨false, true⟩
  obtain ⟨encoding, events, made⟩ := named (.inl rfl)
  exact ⟨by decide, encoding, events, made, reads encoding events made⟩

end DancingLinks
