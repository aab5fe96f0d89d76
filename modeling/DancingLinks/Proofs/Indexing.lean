import DancingLinks.Proofs.RingsRead
import DancingLinks.Proofs.EncodingChanges

/-! The table of rows and the rows of the solver are two numberings of the same possibilities. They are
made apart: the table counts the possibilities that satisfy anything, and the solver starts a row only
with its first entry. Wherever possibilities are skipped, the two agree, and since the positions in the
table rise, halving finds the row of a position whenever it has one. -/
namespace DancingLinks

namespace RowTable

variable {table : RowTable} {position entry row other : Nat}

def Rises (table : RowTable) : Prop := table.positions.toList.Pairwise (· < ·)

theorem Rises.rowsInOrder (rises : table.Rises) (here : table.positionOf row = some position)
    (there : table.positionOf other = some entry) : row < other ↔ position < entry := by
  rw [positionOf, ← Array.getElem?_toList] at here there
  obtain ⟨inside, rfl⟩ := List.getElem?_eq_some_iff.mp here
  obtain ⟨within, rfl⟩ := List.getElem?_eq_some_iff.mp there
  have rising := List.pairwise_iff_getElem.mp rises
  constructor
  · exact rising row other inside within
  · intro less
    rcases Nat.lt_trichotomy row other with before | rfl | after
    · exact before
    · exact absurd less (Nat.lt_irrefl _)
    · exact absurd less (Nat.not_lt.mpr (rising other row within inside after).le)

theorem Rises.rowUnique (rises : table.Rises) (here : table.positionOf row = some position)
    (there : table.positionOf other = some position) : row = other := by
  have onward := rises.rowsInOrder here there
  have back := rises.rowsInOrder there here
  omega

theorem searchIff (rises : table.Rises) {bound lo hi : Nat} (inside : hi ≤ table.size)
    (enough : hi - lo ≤ bound) (within : ∀ row, table.positionOf row = some position → lo ≤ row ∧ row < hi)
    (row : Nat) : table.search position bound lo hi = some row ↔ table.positionOf row = some position := by
  -- between the bounds are all rows that could have the position, and each look leaves fewer of them
  induction bound generalizing lo hi with
  | zero =>
    refine ⟨nofun, fun there => ?_⟩
    have between := within row there
    omega
  | succ bound ih =>
    rw [search]
    split
    · have bounds : lo ≤ (lo + hi) / 2 ∧ (lo + hi) / 2 < hi := by omega
      generalize (lo + hi) / 2 = middle at bounds ⊢
      obtain ⟨entry, listed⟩ : ∃ entry, table.positionOf middle = some entry :=
        ⟨_, Array.getElem?_eq_getElem (Nat.lt_of_lt_of_le bounds.2 inside)⟩
      simp only [listed]
      split
      · rename_i same
        subst same
        constructor
        · intro found
          cases found
          exact listed
        · exact fun there => congrArg some (rises.rowUnique listed there)
      · split
        · rename_i low
          refine ih inside (by omega) fun other there => ?_
          have after := (rises.rowsInOrder listed there).mpr low
          have between := within other there
          omega
        · rename_i apart high
          refine ih (by omega) (by omega) fun other there => ?_
          have before := (rises.rowsInOrder there listed).mpr (by omega)
          have between := within other there
          omega
    · refine ⟨nofun, fun there => ?_⟩
      have between := within row there
      omega

theorem rowIff (rises : table.Rises) : table.rowOf position = some row ↔
    table.positionOf row = some position := by
  have within : ∀ other, table.positionOf other = some position → 0 ≤ other ∧ other < table.size :=
    fun other there => ⟨Nat.zero_le _, (Array.getElem?_eq_some_iff.mp there).1⟩
  exact searchIff rises (Nat.le_refl _) (Nat.sub_le _ _) within row

end RowTable

namespace Encoding

variable {P C : Type} {problem : Problem P C} {config : Config} {encoding : Encoding P C}

structure Indexes (problem : Problem P C) (encoding : Encoding P C) : Prop where
  width : encoding.solver.columnCount = problem.constraints.length
  columns : ∀ (column : Nat) (constraint : C), problem.constraints[column]? = some constraint →
    encoding.solver.columnName column = some (problem.label constraint) ∧
      encoding.solver.isPrimary (.numbered column) = some (!problem.isOptional constraint)
  rising : encoding.table.positions.toList.Pairwise (· < ·)
  listed : ∀ position, position ∈ encoding.table.positions ↔ ∃ column, problem.Meets position column
  height : encoding.solver.rowCount = encoding.table.size
  rows : ∀ row position, encoding.table.positions[row]? = some position →
    ∃ columns, encoding.solver.torus.storedRow row = .ok columns ∧ columns.Pairwise (· < ·) ∧
      ∀ column, column ∈ columns ↔ problem.Meets position column
  found : ∀ position row, encoding.rowOf position = some row ↔ encoding.table.positions[row]? = some position
  absent : ∀ position, encoding.rowOf position = none ↔ position ∉ encoding.table.positions
  possible : ∀ row position, encoding.table.positions[row]? = some position →
    ∃ possibility, problem.possibilities[position]? = some possibility ∧
      encoding.possibility row = some possibility
  beyond : ∀ row, encoding.table.size ≤ row → encoding.possibility row = none

namespace Stores

theorem tableRises (stores : encoding.Stores problem config) : encoding.table.Rises := by
  rw [stores.table, RowTable.Rises, RowTable.positionsFilled]
  exact filledRising _

theorem positionsFilled (stores : encoding.Stores problem config) (row : Nat) :
    encoding.table.positions[row]? = (filledPlaces (problem.possibilities.map problem.satisfied))[row]? := by
  rw [stores.table, ← RowTable.positionsFilled, Array.getElem?_toList]

theorem positionListed (stores : encoding.Stores problem config) (position : Nat) :
    position ∈ encoding.table.positions ↔ ∃ column, problem.Meets position column := by
  rw [stores.table, ← Array.mem_toList_iff, RowTable.positionsFilled, memFilled]
  simp only [Problem.meetsIff]
  constructor
  · intro filled
    obtain ⟨entries, there, some⟩ := filled
    obtain ⟨column, member⟩ := List.exists_mem_of_ne_nil entries some
    exact ⟨column, entries, there, member⟩
  · intro met
    obtain ⟨column, entries, there, member⟩ := met
    exact ⟨entries, there, List.ne_nil_of_mem member⟩

theorem columnsStored (stores : encoding.Stores problem config) {column : Nat} {constraint : C}
    (there : problem.constraints[column]? = some constraint) :
    encoding.solver.columnName column = some (problem.label constraint) ∧
      encoding.solver.isPrimary (.numbered column) = some (!problem.isOptional constraint) := by
  obtain ⟨sheet, keeps, loaded⟩ := stores.sheet
  obtain ⟨seat, resting, -⟩ := keeps.holds
  have known : column < encoding.solver.columnCount := by
    rw [keeps.countsRead.1, loaded.columns, List.length_map]
    exact (List.getElem?_eq_some_iff.mp there).1
  have names := congrArg (·[column]?) (resting.namesListed.trans loaded.columns)
  simp only [List.getElem?_map, there, Option.map_some, Array.getElem?_toList] at names
  obtain ⟨header, present, same⟩ := Option.map_eq_some_iff.mp names
  obtain ⟨name, kind⟩ := Prod.mk.inj same
  refine ⟨?_, ?_⟩
  · rw [Solver.columnName, present, Option.map_some, name]
  · rw [Solver.isPrimary, Solver.columnAt, Solver.resolve, if_pos known, Option.bind_some, present,
      Option.map_some, kind]

theorem rowsStored (stores : encoding.Stores problem config) {row position : Nat}
    (there : encoding.table.positions[row]? = some position) :
    ∃ columns, encoding.solver.torus.storedRow row = .ok columns ∧ columns.Pairwise (· < ·) ∧
      ∀ column, column ∈ columns ↔ problem.Meets position column := by
  obtain ⟨sheet, keeps, loaded⟩ := stores.sheet
  obtain ⟨seat, resting, listed⟩ := keeps.holds
  rw [stores.positionsFilled] at there
  have inside : row < sheet.rows.length :=
    Nat.lt_of_lt_of_eq (List.getElem?_eq_some_iff.mp there).1 loaded.rowsCounted
  have entries := loaded.rowAt there
  refine ⟨_, rowStored resting listed keeps.sound inside, ?_, fun column => ?_⟩
  · obtain ⟨possibility, -, same⟩ := List.mem_map.mp (List.mem_of_getElem? entries)
    exact same ▸ problem.satisfiedRising possibility
  · rw [Problem.meetsIff, entries]
    simp

theorem possibilityStored (stores : encoding.Stores problem config) {row position : Nat}
    (there : encoding.table.positions[row]? = some position) :
    ∃ possibility, problem.possibilities[position]? = some possibility ∧
      encoding.possibility row = some possibility := by
  obtain ⟨column, possibility, constraint, placed, -, -⟩ :=
    (stores.positionListed position).mp (Array.mem_of_getElem? there)
  refine ⟨possibility, placed, ?_⟩
  rw [Encoding.possibility, RowTable.positionOf, there, stores.original, Option.bind_some, placed]

theorem rowOfIff (stores : encoding.Stores problem config) {position row : Nat} :
    encoding.rowOf position = some row ↔ encoding.table.positions[row]? = some position :=
  RowTable.rowIff stores.tableRises

theorem storesIndexes (stores : encoding.Stores problem config) : encoding.Indexes problem where
  width := by
    obtain ⟨sheet, keeps, loaded⟩ := stores.sheet
    rw [keeps.countsRead.1, loaded.columns, List.length_map]
  columns _ _ there := stores.columnsStored there
  rising := stores.tableRises
  listed := stores.positionListed
  height := by
    obtain ⟨sheet, keeps, loaded⟩ := stores.sheet
    rw [keeps.countsRead.2, ← loaded.rowsCounted, stores.table, ← RowTable.positionsFilled]
    rfl
  rows _ _ there := stores.rowsStored there
  found position row := stores.rowOfIff
  absent position := by
    rw [Option.eq_none_iff_forall_ne_some, Array.mem_iff_getElem?, not_exists]
    exact forall_congr' fun row => not_congr stores.rowOfIff
  possible _ _ there := stores.possibilityStored there
  beyond _ outside := possibilityNone outside

end Stores

end Encoding

theorem Problem.labelTaken {P C : Type} {problem : Problem P C} {name : String} :
    firstTaken [] (problem.constraints.map problem.label) = some name ↔
      ∃ before constraint after, problem.constraints = before ++ constraint :: after ∧
        (before.map problem.label).Nodup ∧ problem.label constraint ∈ before.map problem.label ∧
        name = problem.label constraint := by
  rw [takenFirst]
  constructor
  · intro split
    obtain ⟨before, after, same, fresh, member⟩ := split
    obtain ⟨first, others, whole, rfl, later⟩ := List.map_eq_append_iff.mp same
    obtain ⟨constraint, rest, rfl, rfl, rfl⟩ := List.map_eq_cons_iff.mp later
    exact ⟨first, constraint, rest, whole, (takenNone.mp fresh).1, member, rfl⟩
  · intro split
    obtain ⟨before, constraint, after, whole, distinct, member, rfl⟩ := split
    refine ⟨before.map problem.label, after.map problem.label, by rw [whole, List.map_append, List.map_cons],
      takenNone.mpr ⟨distinct, fun _ _ => List.not_mem_nil⟩, member⟩

theorem encodingIndexes {P C : Type} (problem : Problem P C) (config : Config) :
    ∃ answer, Encoding.ofProblem problem config = .ok answer ∧
      (∀ error, answer = .error error ↔ config.permissive = false ∧ ∃ before constraint after,
        problem.constraints = before ++ constraint :: after ∧ (before.map problem.label).Nodup ∧
        problem.label constraint ∈ before.map problem.label ∧
        error = .duplicateColumn (problem.label constraint)) ∧
      ((∃ error, answer = .error error) ↔
        config.permissive = false ∧ ¬(problem.constraints.map problem.label).Nodup) ∧
      ∀ encoding events, answer = .ok (encoding, events) → encoding.Indexes problem := by
  have clash : firstTaken [] (problem.constraints.map problem.label) = none ↔
      (problem.constraints.map problem.label).Nodup :=
    takenNone.trans (and_iff_left fun _ _ => List.not_mem_nil)
  obtain ⟨answer, made, failed | loaded⟩ := Encoding.ofProblemStores problem config
  · obtain ⟨name, rfl, strict, taken⟩ := failed
    refine ⟨_, made, fun error => ?_, ?_, fun _ _ => nofun⟩
    · constructor
      · intro same
        cases same
        obtain ⟨before, constraint, after, split, distinct, member, rfl⟩ := Problem.labelTaken.mp taken
        exact ⟨strict, before, constraint, after, split, distinct, member, rfl⟩
      · intro failing
        obtain ⟨-, before, constraint, after, split, distinct, member, rfl⟩ := failing
        have first := Problem.labelTaken.mpr ⟨before, constraint, after, split, distinct, member, rfl⟩
        rw [Option.some.inj (taken.symm.trans first)]
    · refine ⟨fun _ => ⟨strict, fun distinct => ?_⟩, fun _ => ⟨_, rfl⟩⟩
      rw [clash.mpr distinct] at taken
      cases taken
  · obtain ⟨encoding, events, rfl, stores, allowed⟩ := loaded
    have free : config.permissive = false → firstTaken [] (problem.constraints.map problem.label) = none :=
      fun strict => allowed.resolve_left (strict ▸ Bool.false_ne_true)
    refine ⟨_, made, fun error => ⟨nofun, fun failing => ?_⟩, ⟨nofun, fun failing => ?_⟩,
      fun other told same => ?_⟩
    · obtain ⟨strict, before, constraint, after, split, distinct, member, -⟩ := failing
      have taken := Problem.labelTaken.mpr ⟨before, constraint, after, split, distinct, member, rfl⟩
      exact absurd ((free strict).symm.trans taken) nofun
    · exact absurd (clash.mp (free failing.1)) failing.2
    · cases same
      exact stores.storesIndexes

def Table.gapped : Table :=
  ⟨["first", "none", "last"], ["needed", "spare"], [1], [[0], [], [1, 0]]⟩

theorem gappedIndexed : (Table.gapped.problem.constraints.map Table.gapped.problem.label).Nodup ∧
    ∃ encoding events, Encoding.ofProblem Table.gapped.problem .standard = .ok (.ok (encoding, events)) ∧
      encoding.Indexes Table.gapped.problem := by
  have distinct : (Table.gapped.problem.constraints.map Table.gapped.problem.label).Nodup := by decide
  obtain ⟨answer, made, -, fails, indexes⟩ := encodingIndexes Table.gapped.problem .standard
  cases answer with
  | error error => exact absurd distinct (fails.mp ⟨error, rfl⟩).2
  | ok pair =>
    obtain ⟨encoding, events⟩ := pair
    exact ⟨distinct, encoding, events, made, indexes encoding events rfl⟩

end DancingLinks
