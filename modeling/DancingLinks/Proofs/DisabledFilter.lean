import DancingLinks.Proofs.ExhaustiveSearch
import DancingLinks.Proofs.StoppedSearch

/-! Rows out of play take their solutions with them. A search that always branches on the first open
column goes on as before among the rows that are left, in the same order: which columns are open does not
depend on the rows in play, and a row that is covered is covered for the sake of a column that it has.
Only the branches below the rows out of play are missing, and all their solutions had such a row. With the
fewest rows to choose from, taking rows out can change the column that is branched on. -/
namespace DancingLinks

def Sheet.without (sheet : Sheet) (out : List Nat) : Sheet :=
  { sheet with live := fun column => (sheet.live column).filter (· ∉ out) }

namespace Solution

def contents (solution : Solution) : List Nat × List (List String) := (solution.rows, solution.columns)

def avoids (out : List Nat) (solution : Solution) : Bool := ∀ row ∈ out, row ∉ solution.rows

end Solution

/-- What is found without some rows is what was found before and has none of them. -/
def Yield.Thins (out : List Nat) (whole rest : Yield) : Prop :=
  rest.solutions.map Solution.contents =
    (whole.solutions.filter (Solution.avoids out)).map Solution.contents

structure Roster.Thins (out : List Nat) (whole rest : Roster) : Prop where
  pending : rest.pending = whole.pending
  live : ∀ column, rest.live column = (whole.live column).filter (· ∉ out)

theorem Yield.thinsInTurn {explore explore' : (row found work : Nat) → Yield} {out rows : List Nat}
    (kept : ∀ row ∈ rows, row ∉ out → ∀ found work found' work',
      (explore row found work).Thins out (explore' row found' work'))
    (gone : ∀ row ∈ rows, row ∈ out → ∀ found work,
      (explore row found work).solutions.filter (Solution.avoids out) = [])
    (found work found' work' : Nat) :
    (inTurn explore rows found work).Thins out
      (inTurn explore' (rows.filter (· ∉ out)) found' work') := by
  induction rows generalizing found work found' work' with
  | nil => rfl
  | cons row rest ih =>
    have later := ih (fun other member => kept other (List.mem_cons_of_mem _ member))
      (fun other member => gone other (List.mem_cons_of_mem _ member))
      (found + (explore row found work).solutions.length) (explore row found work).work
    unfold Thins at later ⊢
    rw [inTurn, followed, List.filter_append, List.map_append]
    by_cases absent : row ∈ out
    · rw [gone row List.mem_cons_self absent, List.filter_cons_of_neg (by simpa using absent)]
      exact later found' work'
    · have here := kept row List.mem_cons_self absent found work found' work'
      rw [List.filter_cons_of_pos (by simpa using absent), inTurn, followed, List.map_append, ← later, ← here]

namespace Roster

variable {sheet : Sheet} {whole rest : Roster} {covered out columns : List Nat} {row column : Nat}

namespace Thins

theorem withWork (thins : whole.Thins out rest) (work work' : Nat) :
    ({ whole with work }).Thins out { rest with work := work' } := ⟨thins.pending, thins.live⟩

theorem coverThins (thins : whole.Thins out rest) (sheet sheet' : Sheet) (column : Nat) :
    (whole.cover sheet column).Thins out (rest.cover sheet' column) where
  pending := by simp only [Roster.cover, thins.pending]
  live other := by
    simp only [Roster.cover, thins.live]
    split
    · rfl
    · rw [List.filter_filter, List.filter_filter]
      refine List.filter_congr fun row _ => ?_
      by_cases absent : row ∈ out <;> simp [absent]

theorem coverEach (thins : whole.Thins out rest) (sheet sheet' : Sheet) (columns : List Nat) :
    (whole.coverEach sheet columns).Thins out (rest.coverEach sheet' columns) := by
  induction columns generalizing whole rest with
  | nil => exact thins
  | cons column later ih => exact ih (thins.coverThins sheet sheet' column)

theorem commitThins (thins : whole.Thins out rest) (sheet : Sheet) (column row work work' : Nat) :
    (whole.commit sheet column row work).Thins out
      (rest.commit (sheet.without out) column row work') :=
  ((thins.coverThins sheet (sheet.without out) column).withWork work work').coverEach sheet _ _

theorem branchSame (thins : whole.Thins out rest) : rest.branch false = whole.branch false :=
  congrArg List.head? thins.pending

end Thins

theorem searchAvoidsNot (sound : sheet.Sound) (remains : whole.Remains sheet covered) (byFewest : Bool)
    (path : List (Nat × Nat)) (found : Nat) (absent : row ∈ out) :
    (whole.search sheet byFewest ((row, column) :: path) found).solutions.filter
      (Solution.avoids out) = [] := by
  obtain ⟨lists, rows, -⟩ := searchExhausts sound remains byFewest ((row, column) :: path) found
  refine List.filter_eq_nil_iff.mpr fun solution met avoids => ?_
  obtain ⟨list, -, same⟩ := List.mem_map.mp (rows ▸ List.mem_map_of_mem (f := Solution.rows) met)
  exact of_decide_eq_true avoids row absent (by simp [← same])

theorem Thins.searchThins (thins : whole.Thins out rest) (sound : sheet.Sound)
    (remains : whole.Remains sheet covered) (path : List (Nat × Nat))
    (clear : ∀ entry ∈ path, entry.1 ∉ out) (found found' : Nat) :
    (whole.search sheet false path found).Thins out
      (rest.search (sheet.without out) false path found') := by
  induction path, found, whole using Roster.search.induct sheet false
    generalizing covered rest found' with
  | case1 path found whole chosen =>
    have avoids : Solution.avoids out (sheet.solution path (found + 1) whole.work) = true := by
      refine decide_eq_true fun row absent member => ?_
      obtain ⟨entry, inside, rfl⟩ := List.mem_map.mp member
      exact clear entry (List.mem_reverse.mp inside) absent
    rw [searchOver chosen, searchOver (thins.branchSame.trans chosen), Yield.Thins,
      List.filter_cons_of_pos avoids]
    rfl
  | case2 path found whole column chosen ih =>
    have outside := (remains.memPending.mp (branchPending chosen)).2
    rw [searchBranch chosen, searchBranch (thins.branchSame.trans chosen), thins.live]
    refine Yield.thinsInTurn (fun row live left found work found' work' => ?_)
      (fun row live absent found work => ?_) ..
    · refine ih row found work (thins.commitThins sheet column row work work')
        (remains.commitRemains sound outside live work) ?_ found'
      exact List.forall_mem_cons.mpr ⟨left, clear⟩
    · exact searchAvoidsNot sound (remains.commitRemains sound outside live work) false path found absent

end Roster

theorem Sheet.Sound.searchThins {sheet : Sheet} (sound : sheet.Sound) (out : List Nat) :
    (sheet.search false).Thins out ((sheet.without out).search false) := by
  have start : sheet.roster.Thins out (sheet.without out).roster := ⟨rfl, fun _ => rfl⟩
  exact start.searchThins sound (.ofSheet sheet) [] (by simp) 0 0

namespace Sheet

variable {sheet : Sheet}

theorem withoutNone (sheet : Sheet) : sheet.without [] = sheet := by simp [without]

theorem withoutMore (sheet : Sheet) (first later : List Nat) :
    (sheet.without first).without later = sheet.without (first ++ later) := by
  simp only [without, List.filter_filter, Sheet.mk.injEq, true_and]
  funext column
  refine List.filter_congr fun row _ => ?_
  by_cases absent : row ∈ later <;> simp [absent]

theorem Sound.withoutRow (sound : sheet.Sound) (row : Nat) :
    (if row < sheet.rows.length then sheet.disable row else sheet) = sheet.without [row] := by
  have single : sheet.without [row] = sheet.disable row := by simp only [without, List.mem_singleton]; rfl
  rw [single]
  split
  · rfl
  · rename_i outside
    have out : sheet.isEnabled row = false := by
      rw [isEnabled, columnsOfNew (Nat.le_of_not_lt outside)]
      rfl
    exact (sound.disableIdle out).symm

end Sheet

namespace Solver

def disableEach (solver : Solver) (rows : List Nat) : Except Fault Solver :=
  rows.foldlM (fun solver row => do return (← solver.disableRow row).solver) solver

structure Yields (solver : Solver) (yield : Yield) : Prop where
  lists : solver.Lists yield.solutions yield.work
  delivers : ∀ listener sink, ∃ reply, Solver.solve { solver with listener, sink } = .ok reply ∧
    (Solver.Unstopped { solver with listener, sink } reply →
      reply.Delivers { solver with listener, sink } yield)

variable {solver : Solver} {sheet : Sheet}

theorem Keeps.searchYields (keeps : solver.Keeps sheet) :
    solver.Yields (sheet.search solver.config.byFewest) where
  lists := keeps.searchLists
  delivers listener sink := ⟨_, solveAnswers (keeps.keptForAudience listener sink), Solver.answeredDelivers⟩

theorem Keeps.disablesEach (keeps : solver.Keeps sheet) (rows : List Nat) :
    ∃ after, solver.disableEach rows = .ok after ∧ after.Keeps (sheet.without rows) ∧
      after.config = solver.config := by
  induction rows generalizing solver sheet with
  | nil => exact ⟨solver, rfl, sheet.withoutNone.symm ▸ keeps, rfl⟩
  | cons row rest ih =>
    have reads : solver.disableRow row = solver.toggleRow Torus.disableRow row (.disabled row) := rfl
    obtain ⟨reply, disabled, kept, config⟩ := keeps.togglesRow (.disabled row) reads
      (fun inside => ⟨_, keeps.holds.disableRow keeps.sound inside⟩) (keeps.sound.disableSound row) rfl
    rw [keeps.sound.withoutRow] at kept
    obtain ⟨after, done, held, same⟩ := ih kept
    rw [Sheet.withoutMore] at held
    refine ⟨after, ?_, held, same.trans config⟩
    rw [disableEach, List.foldlM_cons, disabled]
    exact done

end Solver

theorem disablingFilters {solver : Solver} (built : WellBuilt solver)
    (leftmost : solver.config.byFewest = false) (rows : List Nat) :
    ∃ after yield rest, solver.disableEach rows = .ok after ∧ solver.Yields yield ∧ after.Yields rest ∧
      rest.solutions.map Solution.contents =
        (yield.solutions.filter fun solution => ∀ row ∈ rows, row ∉ solution.rows).map
          Solution.contents := by
  obtain ⟨sheet, keeps⟩ := built.keepsSheet
  obtain ⟨after, done, kept, config⟩ := keeps.disablesEach rows
  have before := keeps.searchYields
  have later := kept.searchYields
  rw [config, leftmost] at later
  rw [leftmost] at before
  exact ⟨after, _, _, done, before, later, keeps.sound.searchThins rows⟩

theorem choiceFiltered : WellBuilt (Solver.choice.setByFewest false) ∧
    (Solver.choice.setByFewest false).config.byFewest = false ∧
    ∃ after yield rest, (Solver.choice.setByFewest false).disableEach [5, 9] = .ok after ∧
      (Solver.choice.setByFewest false).Yields yield ∧ after.Yields rest ∧
      rest.solutions.map Solution.contents =
        (yield.solutions.filter fun solution => ∀ row ∈ [5, 9], row ∉ solution.rows).map
          Solution.contents := by
  have built : WellBuilt (Solver.choice.setByFewest false) :=
    ⟨_, _, Solver.choiceMade.call (.setByFewest false) trivial rfl⟩
  exact ⟨built, rfl, disablingFilters built rfl [5, 9]⟩

end DancingLinks
