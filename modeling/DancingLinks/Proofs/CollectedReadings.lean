import DancingLinks.Encoding
import DancingLinks.Proofs.PartialEnumeration

/-! Reading solutions while they are taken. What is read is what reading them afterwards gives, and the
first that cannot be read ends it either way. The bound on the steps of a search bounds its solutions
too, since every solution but one is met below a row that is tried. -/
namespace DancingLinks

theorem mapRead {ε α β γ : Type} {read : α → Except ε β} {given : β → γ} {expected : α → γ}
    {items : List α} (each : ∀ item ∈ items, ∃ b, read item = .ok b ∧ given b = expected item) :
    ∃ list, items.mapM read = .ok list ∧ list.map given = items.map expected := by
  induction items with
  | nil => exact ⟨[], rfl, rfl⟩
  | cons item rest ih =>
    obtain ⟨first, here, same⟩ := each item List.mem_cons_self
    obtain ⟨list, later, others⟩ := ih fun other member => each other (List.mem_cons_of_mem _ member)
    refine ⟨first :: list, ?_, List.cons_eq_cons.mpr ⟨same, others⟩⟩
    simp only [List.mapM_cons, here, later, bind, Except.bind]
    rfl

theorem Yield.inTurnFew {explore : Nat → Nat → Nat → Yield} {rows : List Nat} {bound : Nat}
    (few : ∀ row ∈ rows, ∀ found work, (explore row found work).solutions.length ≤ bound)
    (found work : Nat) : (inTurn explore rows found work).solutions.length ≤ rows.length * bound := by
  induction rows generalizing found work with
  | nil => exact Nat.zero_le _
  | cons row rest ih =>
    have here := few row List.mem_cons_self found work
    have later := ih (fun other member => few other (List.mem_cons_of_mem _ member))
      (found + (explore row found work).solutions.length) (explore row found work).work
    have total : (rest.length + 1) * bound = rest.length * bound + bound := Nat.succ_mul ..
    simp only [inTurn, followed, List.length_append, List.length_cons]
    omega

theorem Roster.searchFew {sheet : Sheet} {covered : List Nat} {roster : Roster} (sound : sheet.Sound)
    (remains : roster.Remains sheet covered) (byFewest : Bool) (path : List (Nat × Nat)) (found : Nat) :
    (roster.search sheet byFewest path found).solutions.length ≤
      stepsBelow sheet.height roster.pending.length + 1 := by
  induction path, found, roster using Roster.search.induct sheet byFewest generalizing covered with
  | case1 path found roster chosen =>
    rw [searchOver chosen]
    exact Nat.le_add_left 1 _
  | case2 path found roster column chosen ih =>
    have pending := branchPending chosen
    have outside := (remains.memPending.mp pending).2
    have known := Woven.pendingKnown remains pending
    have columns : (roster.pending.length - 1).succ = roster.pending.length :=
      Nat.succ_pred_eq_of_pos (List.length_pos_of_mem pending)
    have each : ∀ row ∈ roster.live column, ∀ found work,
        (search sheet byFewest ((row, column) :: path) found
          (roster.commit sheet column row work)).solutions.length ≤
            1 + stepsBelow sheet.height (roster.pending.length - 1) := by
      intro row live found work
      have below := ih row found work (remains.commitRemains sound outside live work)
      have fewer : (roster.commit sheet column row work).pending.length < _ :=
        commitShortens pending row work
      have mono := stepsMono sheet.height (Nat.le_sub_one_of_lt fewer)
      omega
    have few := Yield.inTurnFew each found (roster.cover sheet column).work
    have short : (roster.live column).length ≤ sheet.height :=
      (remains.within column).length_le.trans (sheet.liveHeight known)
    have one : 1 + stepsBelow sheet.height (roster.pending.length - 1) ≤
        2 + stepsBelow sheet.height (roster.pending.length - 1) := Nat.add_le_add_right (by decide) _
    have all := Nat.mul_le_mul short one
    rw [← stepsBelow, columns] at all
    rw [searchBranch chosen]
    exact (few.trans all).trans (Nat.le_succ _)

namespace Poised

variable {sheet : Sheet} {base : Torus} {byFewest : Bool} {search : Enumeration} {yield : Yield}

theorem collectReads {ε α : Type} (read : Solution → Except ε α)
    (poised : Poised sheet base byFewest search yield) (sound : sheet.Sound) (holds : base.Holds sheet)
    (limit : Nat) :
    ∃ last left, search.collect read limit = .ok ((yield.solutions.take limit).mapM read, last) ∧
      Poised sheet base byFewest last left := by
  induction limit generalizing search yield with
  | zero => exact ⟨search, yield, rfl, poised⟩
  | succ limit ih =>
    obtain ⟨outcome, next, left, answer, rests, answered⟩ := poised.nextAnswers sound holds
    cases outcome with
    | none =>
      have none : yield.solutions = [] := answered.solutions.trans (answered.ended rfl).1
      refine ⟨next, left, ?_, rests⟩
      simp only [Enumeration.collect, answer, none, bind, Except.bind]
      rfl
    | some solution =>
      have split : yield.solutions = solution :: left.solutions := answered.solutions
      cases item : read solution with
      | error reason =>
        refine ⟨next, left, ?_, rests⟩
        simp only [Enumeration.collect, answer, item, split, List.take_succ_cons, List.mapM_cons, bind,
          Except.bind]
        rfl
      | ok first =>
        obtain ⟨last, rest, collected, rests⟩ := ih rests
        refine ⟨last, rest, ?_, rests⟩
        simp only [Enumeration.collect, answer, item, collected, split, List.take_succ_cons,
          List.mapM_cons, bind, Except.bind]
        cases (left.solutions.take limit).mapM read <;> rfl

end Poised

namespace Encoding

variable {P C : Type} {encoding : Encoding P C} {sheet : Sheet}

theorem solutionsRead (keeps : encoding.solver.Keeps sheet) (limit : Nat) :
    ∃ reading, encoding.solutions limit = .ok reading ∧ reading.value =
      ((sheet.search encoding.solver.config.byFewest).solutions.take limit).mapM encoding.interpret := by
  have begun : Poised sheet encoding.solver.torus encoding.solver.config.byFewest
    encoding.solver.enumeration _ := .fresh
  obtain ⟨last, left, collected, rests⟩ :=
    begun.collectReads encoding.interpret keeps.sound keeps.holds limit
  obtain ⟨events, closed⟩ := rests.closeAbandons
  simp only [solutions, collected, closed, bind, Except.bind]
  exact ⟨_, rfl, rfl⟩

theorem readsAll (keeps : encoding.solver.Keeps sheet) :
    ∃ reading, encoding.allSolutions = .ok reading ∧ reading.value =
      (sheet.search encoding.solver.config.byFewest).solutions.mapM encoding.interpret := by
  obtain ⟨reading, read, value⟩ := solutionsRead keeps (Enumeration.stepBound encoding.solver.torus)
  refine ⟨reading, read, ?_⟩
  obtain ⟨seat, resting, -⟩ := keeps.holds
  have columns : sheet.roster.pending.length ≤ sheet.columns.length := by
    have fewer := List.length_filter_le sheet.isPrimary (List.range sheet.columns.length)
    rwa [List.length_range] at fewer
  have few := Roster.searchFew keeps.sound (.ofSheet sheet) encoding.solver.config.byFewest [] 0
  have room := resting.toWoven.stepRoom keeps.sound (stepsMono sheet.height columns)
  rw [value, List.take_of_length_le]
  exact few.trans room

end Encoding

end DancingLinks
