import DancingLinks.Proofs.SolveAnswers
import DancingLinks.Proofs.ExhaustiveSearch
import Mathlib.Data.Set.Card

/-! What an exact cover is to someone who asks a solver for its rows and columns, and that a solve reports
these and no other sets of rows. A row counts if it is in play and has a primary column; rows without one
are never chosen, although leaving them out covers nothing twice. -/
namespace DancingLinks

namespace Solver

def HasEntry (solver : Solver) (row column : Nat) : Prop :=
  ∃ columns, solver.torus.storedRow row = .ok columns ∧ column ∈ columns

structure IsExactCover (solver : Solver) (rows : Finset Nat) : Prop where
  enabled : ∀ row ∈ rows, solver.isRowEnabled row = .ok (some true)
  primary : ∀ column, solver.isPrimary (.numbered column) = some true →
    ∃! row, row ∈ rows ∧ solver.HasEntry row column
  secondary : ∀ column, solver.isPrimary (.numbered column) = some false →
    ∀ row ∈ rows, ∀ other ∈ rows, solver.HasEntry row column → solver.HasEntry other column → row = other
  useful : ∀ row ∈ rows, ∃ column, solver.isPrimary (.numbered column) = some true ∧
    solver.HasEntry row column

variable {solver : Solver} {sheet : Sheet} {row column : Nat}

theorem enabledShown (rows : solver.torus.rows.size = sheet.rows.length)
    (read : row < sheet.rows.length → solver.torus.isRowEnabled row = .ok (sheet.isEnabled row)) :
    solver.isRowEnabled row = .ok (some true) ↔ sheet.isEnabled row = true := by
  rw [isRowEnabled, show solver.rowCount = sheet.rows.length from rows]
  by_cases inside : row < sheet.rows.length
  · rw [if_pos inside, read inside]
    cases sheet.isEnabled row <;> simp [bind, Except.bind, pure, Except.pure]
  · have none : sheet.isEnabled row = false := by
      rw [Sheet.isEnabled, Sheet.columnsOfNew (Nat.le_of_not_lt inside)]
      rfl
    rw [if_neg inside, none]
    simp [pure, Except.pure]

theorem entryShown (rows : solver.torus.rows.size = sheet.rows.length)
    (read : row < sheet.rows.length → solver.torus.storedRow row = .ok (sheet.columnsOf row)) :
    solver.HasEntry row column ↔ column ∈ sheet.columnsOf row := by
  by_cases inside : row < sheet.rows.length
  · rw [HasEntry, read inside]
    simp
  · have outside : solver.torus.rows[row]? = none :=
      Array.getElem?_eq_none (rows ▸ Nat.le_of_not_lt inside)
    rw [Sheet.columnsOfNew (Nat.le_of_not_lt inside)]
    simp [HasEntry, Torus.storedRow, Torus.firstEntry, outside, bind, Except.bind]

namespace Keeps

theorem enabledIff (keeps : solver.Keeps sheet) :
    solver.isRowEnabled row = .ok (some true) ↔ sheet.isEnabled row = true := by
  obtain ⟨seat, resting, listed⟩ := keeps.holds
  exact enabledShown listed.rows fun inside => enabledRead resting listed keeps.sound inside

theorem primaryIff (keeps : solver.Keeps sheet) {isPrimary : Bool} :
    solver.isPrimary (.numbered column) = some isPrimary ↔
      column < sheet.columns.length ∧ sheet.isPrimary column = isPrimary := by
  have count := keeps.countsRead.1
  obtain ⟨seat, resting, -⟩ := keeps.holds
  unfold Solver.isPrimary columnAt resolve
  rw [count]
  by_cases known : column < sheet.columns.length
  · obtain ⟨header, present, -, -, -⟩ := resting.headerOf known
    have listed := (resting.headers column header present).1
    have flag : sheet.isPrimary column = header.isPrimary := by rw [Sheet.isPrimary, listed]; rfl
    simp [known, present, flag]
  · simp [known]

theorem entryIff (keeps : solver.Keeps sheet) :
    solver.HasEntry row column ↔ column ∈ sheet.columnsOf row := by
  obtain ⟨seat, resting, listed⟩ := keeps.holds
  exact entryShown listed.rows fun inside => rowStored resting listed keeps.sound inside

theorem coverIff (keeps : solver.Keeps sheet) {rows : Finset Nat} :
    solver.IsExactCover rows ↔ sheet.Completes [] rows := by
  constructor
  · intro cover
    refine ⟨fun row member => keeps.enabledIff.mp (cover.enabled row member), by simp, ?_, ?_, ?_⟩
    · intro row member other member' y inRow inOther
      have known := keeps.sound.known row y inRow
      have here := keeps.entryIff.mpr inRow
      have there := keeps.entryIff.mpr inOther
      cases kind : sheet.isPrimary y with
      | true =>
        obtain ⟨single, -, unique⟩ := cover.primary y (keeps.primaryIff.mpr ⟨known, kind⟩)
        exact (unique row ⟨member, here⟩).trans (unique other ⟨member', there⟩).symm
      | false =>
        exact cover.secondary y (keeps.primaryIff.mpr ⟨known, kind⟩) row member other member' here there
    · intro row member
      obtain ⟨y, primary, inRow⟩ := cover.useful row member
      exact ⟨y, keeps.entryIff.mp inRow, Sheet.memPrimaries.mpr (keeps.primaryIff.mp primary)⟩
    · intro y primary _
      obtain ⟨row, ⟨member, inRow⟩, -⟩ :=
        cover.primary y (keeps.primaryIff.mpr (Sheet.memPrimaries.mp primary))
      exact ⟨row, member, keeps.entryIff.mp inRow⟩
  · intro completes
    have apart : ∀ y, ∀ row ∈ rows, ∀ other ∈ rows, solver.HasEntry row y → solver.HasEntry other y →
        row = other := fun y row member other member' inRow inOther =>
      completes.apart row member other member' y (keeps.entryIff.mp inRow) (keeps.entryIff.mp inOther)
    refine ⟨fun row member => keeps.enabledIff.mpr (completes.enabled row member), ?_,
      fun y _ => apart y, ?_⟩
    · intro y primary
      obtain ⟨row, member, inRow⟩ :=
        completes.whole y (Sheet.memPrimaries.mpr (keeps.primaryIff.mp primary)) List.not_mem_nil
      exact ⟨row, ⟨member, keeps.entryIff.mpr inRow⟩, fun other there =>
        apart y other there.1 row member there.2 (keeps.entryIff.mpr inRow)⟩
    · intro row member
      obtain ⟨y, inRow, primary⟩ := completes.useful row member
      exact ⟨y, keeps.primaryIff.mpr (Sheet.memPrimaries.mp primary), keeps.entryIff.mpr inRow⟩

end Keeps

theorem IsExactCover.onlyEmpty {solver : Solver}
    (none : ∀ column, solver.isPrimary (.numbered column) ≠ some true) (rows : Finset Nat) :
    solver.IsExactCover rows ↔ rows = ∅ := by
  constructor
  · intro cover
    refine Finset.eq_empty_of_forall_notMem fun row member => ?_
    obtain ⟨column, primary, -⟩ := cover.useful row member
    exact none column primary
  · intro same
    subst same
    refine ⟨by simp, fun column primary => absurd primary (none column), by simp, by simp⟩

end Solver

/-- The solutions of a solve are the exact covers, and whoever is told of any is told of all of them. -/
structure Reply.ListsExactCovers (solver : Solver) (solutions : List Solution) (reply : Reply Nat) :
    Prop where
  listener : reply.solver.listener = solver.listener.map (·.told solutions)
  received : ∀ sink, solver.sink = some sink → ∃ after, reply.solver.sink = some after ∧
    sink.Received (sink.texts solutions) after
  reported : solver.listener.isSome ∨ solver.sink.isSome → reply.reported = solutions.map Solution.rows
  distinct : ∀ solution ∈ solutions, solution.rows.Nodup
  once : (solutions.map fun solution => solution.rows.toFinset).Nodup
  exact : ∀ rows, (∃ solution ∈ solutions, solution.rows.toFinset = rows) ↔ solver.IsExactCover rows
  empty : (∀ column, solver.isPrimary (.numbered column) ≠ some true) → solutions.map Solution.rows = [[]]
  counted : solutions.length = {rows | solver.IsExactCover rows}.ncard
  value : reply.value = match solver.sink.bind fun sink =>
      sink.writer.policy.refuseFlush sink.writer.flushes with
    | some reason => .error (.output reason)
    | none => .ok {rows | solver.IsExactCover rows}.ncard

theorem Exhausts.exhaustsCount {wanted : Finset Nat → Prop} {lists : List (List Nat)}
    (exhausts : Exhausts wanted lists) : lists.length = {rows | wanted rows}.ncard := by
  have same : {rows | wanted rows} = ((lists.map List.toFinset).toFinset : Set (Finset Nat)) := by
    ext rows
    simpa using (exhausts.exact rows).symm
  rw [same, Set.ncard_coe_finset, List.toFinset_card_of_nodup exhausts.once, List.length_map]

theorem Exhausts.exhaustsEmptyOnly {lists : List (List Nat)} (exhausts : Exhausts (· = ∅) lists) :
    lists = [[]] := by
  have count := exhausts.exhaustsCount
  rw [show {rows : Finset Nat | rows = ∅} = {∅} from rfl, Set.ncard_singleton] at count
  obtain ⟨rows, rfl⟩ := List.length_eq_one_iff.mp count
  have none : rows.toFinset = ∅ := (exhausts.exact _).mp List.mem_cons_self
  rw [(List.toFinset_eq_empty_iff rows).mp none]

theorem Reply.Delivers.listsCovers {solver : Solver} {sheet : Sheet} {reply : Reply Nat} {byFewest : Bool}
    (delivers : reply.Delivers solver (sheet.search byFewest)) (keeps : solver.Keeps sheet) :
    reply.ListsExactCovers solver (sheet.search byFewest).solutions := by
  have exhausts : Exhausts solver.IsExactCover _ :=
    (keeps.sound.searchExhausts byFewest).congr fun rows => keeps.coverIff.symm
  have count : (sheet.search byFewest).solutions.length = {rows | solver.IsExactCover rows}.ncard := by
    rw [← exhausts.exhaustsCount, List.length_map]
  refine ⟨delivers.listener, delivers.received, ?_, ?_, ?_, ?_, ?_, count, count ▸ delivers.value⟩
  · intro someone
    rw [delivers.reported, if_neg]
    rcases someone with heard | written
    · simp [Option.isSome_iff_ne_none.mp heard]
    · simp [Option.isSome_iff_ne_none.mp written]
  · exact fun solution member => exhausts.distinct _ (List.mem_map_of_mem member)
  · simpa [List.map_map, Function.comp_def] using exhausts.once
  · intro rows
    simpa using exhausts.exact rows
  · exact fun none => (exhausts.congr (Solver.IsExactCover.onlyEmpty none)).exhaustsEmptyOnly

theorem solveFindsExactCovers {solver : Solver} (built : WellBuilt solver) :
    ∃ reply, solver.solve = .ok reply ∧
      (solver.Unstopped reply → ∃ solutions, reply.ListsExactCovers solver solutions) := by
  obtain ⟨sheet, keeps⟩ := built.keepsSheet
  exact ⟨_, Solver.solveAnswers keeps, fun unstopped =>
    ⟨_, (Solver.answeredDelivers unstopped).listsCovers keeps⟩⟩

theorem choiceCovers : WellBuilt .choice ∧ ∃ reply, Solver.choice.solve = .ok reply ∧
    ∃ solutions, reply.ListsExactCovers .choice solutions := by
  have built : WellBuilt .choice := ⟨_, _, Solver.choiceMade⟩
  obtain ⟨reply, solved, covers⟩ := solveFindsExactCovers built
  exact ⟨built, reply, solved, covers (Solver.choiceUnstopped solved)⟩

end DancingLinks
