import DancingLinks.Proofs.SuspendedSearch
import DancingLinks.Proofs.SheetSolve
import DancingLinks.Solver.Enumerate

/-! Taking the solutions of a sheet one at a time. Whatever number has been taken, those still to come
are the rest of what a search on lists finds, and giving up leaves the arena as it was. -/
namespace DancingLinks

def Enumeration.calls : Nat → Enumeration → Except Fault (List (Option Solution) × Enumeration)
  | 0, search => return ([], search)
  | count + 1, search => do
    let (outcome, search) ← search.next
    let (others, search) ← calls count search
    return (outcome :: others, search)

/-- A search that has not begun or rests between two requests, and what it has still to find. -/
inductive Poised (sheet : Sheet) (base : Torus) (byFewest : Bool) : Enumeration → Yield → Prop where
  | fresh : Poised sheet base byFewest ⟨⟨base.withRemovals 0, [], 0⟩, byFewest, [], false⟩
      (sheet.search byFewest)
  | underway {seat position stack stages}
      (suspended : Woven.Suspended seat sheet base byFewest ⟨position, byFewest, stack, true⟩ stages)
      (light : Stage.loads sheet.height stages ≤ stepsBelow sheet.height sheet.columns.length) :
      Poised sheet base byFewest ⟨position, byFewest, stack, true⟩
        (Woven.ahead sheet ⟨position, byFewest, stack, true⟩ stages)

structure Answered (base : Torus) (byFewest : Bool) (yield left : Yield) (search next : Enumeration)
    (outcome : Option Solution) : Prop where
  solutions : yield.solutions = outcome.toList ++ left.solutions
  work : yield.work = left.work
  counted : next.position.found = search.position.found + outcome.toList.length
  read : ∀ solution, outcome = some solution → solution.number = next.position.found ∧
    solution.removals = next.position.torus.removals ∧ solution.rows.length = next.position.depth
  ended : outcome = none → left.solutions = [] ∧
    next = ⟨⟨base.withRemovals yield.work, [], search.position.found⟩, byFewest, [], true⟩

namespace Poised

variable {sheet : Sheet} {base : Torus} {byFewest : Bool} {search : Enumeration} {yield : Yield}
  {seat : Role → Site} {stages stages' : List Stage} {outcome : Option Solution}

theorem poisedSettled {next : Enumeration} (suspended : Woven.Suspended seat sheet base byFewest next stages)
    (started : next.started = true)
    (light : Stage.loads sheet.height stages ≤ stepsBelow sheet.height sheet.columns.length) :
    Poised sheet base byFewest next (Woven.ahead sheet next stages) := by
  have same := suspended.stackFrames.2
  obtain ⟨position, _, stack, _⟩ := next
  cases same
  cases started
  exact .underway suspended light

theorem accountsAnswered {next : Enumeration}
    (suspended : Woven.Suspended seat sheet base byFewest next stages)
    (started : next.started = true) (ended : outcome = none → stages = [])
    (accounts : Woven.Accounts sheet yield search.position.found outcome next stages) :
    Answered base byFewest yield (Woven.ahead sheet next stages) search next outcome := by
  refine ⟨accounts.solutions, accounts.work, accounts.counted, accounts.read, fun none => ?_⟩
  have empty := ended none
  subst empty none
  have counted := accounts.counted
  have work := accounts.work
  have last := suspended.endedAtBase
  rw [started] at last
  refine ⟨rfl, ?_⟩
  rw [last, work, show next.position.found = search.position.found from counted]
  rfl

theorem nextAnswers (poised : Poised sheet base byFewest search yield) (sound : sheet.Sound)
    (holds : base.Holds sheet) :
    ∃ outcome next left, search.next = .ok (outcome, next) ∧ Poised sheet base byFewest next left ∧
      Answered base byFewest yield left search next outcome := by
  cases poised with
  | underway suspended light =>
    obtain ⟨roster, woven⟩ := suspended.suspendedWoven sound
    obtain ⟨outcome, next, stages', resumed, rests, started, accounts, lighter, ended⟩ :=
      suspended.resumeAnswers sound (woven.stepRoom sound light)
    exact ⟨outcome, next, _, resumed, poisedSettled rests started (lighter.trans light),
      accountsAnswered rests started ended accounts⟩
  | fresh =>
    obtain ⟨seat, resting, -⟩ := holds
    have entered := Woven.Entered.root resting.toWoven (atRest sheet base.removals)
    obtain ⟨outcome, middle, stages, descends, suspended, started, accounts, light⟩ :=
      entered.descendSettles sound byFewest 0 0 true
    have whole : ((sheet.search byFewest).followed 0 (Stage.ahead sheet byFewest [])) =
        sheet.search byFewest := by simp [Yield.followed, Stage.ahead]
    have few := List.length_filter_le sheet.isPrimary (List.range sheet.columns.length)
    rw [List.length_range] at few
    have light' : Stage.loads sheet.height stages ≤ stepsBelow sheet.height sheet.columns.length :=
      (Nat.le_of_lt_succ light).trans (stepsMono sheet.height few)
    have accounts' : Woven.Accounts sheet (sheet.search byFewest) 0 outcome middle stages := by
      rw [← whole]
      exact accounts
    have first : Enumeration.descend ⟨⟨base.withRemovals 0, [], 0⟩, byFewest, [], true⟩ =
        .ok (outcome, middle) := descends
    cases outcome with
    | some solution =>
      refine ⟨some solution, middle, _, ?_, poisedSettled suspended started light',
        accountsAnswered suspended started (fun none => absurd none (Option.some_ne_none _)) accounts'⟩
      simp only [Enumeration.next, Bool.false_eq_true, if_false, first, bind, Except.bind]
      rfl
    | none =>
      have enough := (resting.toWoven.withRemovals 0).stepRoom sound light'
      obtain ⟨outcome, next, stages', resumed, rests, same, later, lighter, ended⟩ :=
        suspended.resumeAnswers sound enough
      refine ⟨outcome, next, _, ?_, poisedSettled rests (same.trans started) (lighter.trans light'),
        accountsAnswered rests (same.trans started) ended (accounts'.accountsOnward later)⟩
      simp only [Enumeration.next, Bool.false_eq_true, if_false, first, bind, Except.bind]
      exact resumed

end Poised

theorem Poised.abandonUndoes {sheet : Sheet} {base : Torus} {byFewest : Bool} {search : Enumeration}
    {yield : Yield} (poised : Poised sheet base byFewest search yield) :
    search.abandon =
      .ok ⟨base.withRemovals search.position.torus.removals, [], search.position.found⟩ := by
  cases poised with
  | fresh => rfl
  | underway suspended light => exact suspended.abandonUndoes

theorem Poised.closeAbandons {sheet : Sheet} {solver : Solver} {byFewest : Bool} {search : Enumeration}
    {yield : Yield} (poised : Poised sheet solver.torus byFewest search yield) :
    ∃ events, solver.close search = .ok ({ solver with
      position := ⟨solver.torus.withRemovals search.position.torus.removals, [], search.position.found⟩ },
      events) := by
  simp only [Solver.close, poised.abandonUndoes, bind, Except.bind]
  exact ⟨_, rfl⟩

structure Taken (base : Torus) (byFewest : Bool) (yield : Yield) (found count : Nat)
    (search : Enumeration) : Prop where
  counted : search.position.found = found + min count yield.solutions.length
  read : ∀ solution, 0 < count → yield.solutions[count - 1]? = some solution →
    solution.number = search.position.found ∧ solution.removals = search.position.torus.removals ∧
      solution.rows.length = search.position.depth
  ended : yield.solutions.length < count → search =
    ⟨⟨base.withRemovals yield.work, [], found + yield.solutions.length⟩, byFewest, [], true⟩

theorem Taken.takenOneMore {base : Torus} {byFewest : Bool} {yield left last : Yield} {found count : Nat}
    {middle next : Enumeration} {outcome : Option Solution}
    (taken : Taken base byFewest yield found count middle)
    (answered : Answered base byFewest left last middle next outcome)
    (here : yield.solutions[count]? = outcome) (work : left.work = yield.work) :
    Taken base byFewest yield found (count + 1) next where
  counted := by
    rw [answered.counted, taken.counted]
    cases outcome with
    | some solution =>
      have inside := (List.getElem?_eq_some_iff.mp here).1
      simp only [Option.toList_some, List.length_singleton]
      omega
    | none =>
      have outside := List.getElem?_eq_none_iff.mp here
      simp only [Option.toList_none, List.length_nil]
      omega
  read solution _ there := by
    rw [Nat.add_sub_cancel, here] at there
    exact answered.read solution there
  ended beyond := by
    have outside : yield.solutions.length ≤ count := Nat.le_of_lt_succ beyond
    have none : outcome = none := here.symm.trans (List.getElem?_eq_none outside)
    rw [(answered.ended none).2, work, taken.counted, Nat.min_eq_right outside]

theorem Enumeration.callsSucc (count : Nat) (search : Enumeration) :
    search.calls (count + 1) = (do
      let (outcomes, search) ← search.calls count
      let (outcome, search) ← search.next
      return (outcomes ++ [outcome], search)) := by
  induction count generalizing search with
  | zero => rfl
  | succ count ih =>
    have unrolled : ∀ (count : Nat) (search : Enumeration), search.calls (count + 1) = (do
        let (outcome, search) ← search.next
        let (others, search) ← search.calls count
        return (outcome :: others, search)) := fun _ _ => rfl
    rw [unrolled (count + 1), unrolled count]
    simp only [ih, bind, Except.bind, pure, Except.pure]
    cases search.next with
    | error fault => rfl
    | ok first =>
      dsimp only
      cases first.2.calls count with
      | error fault => rfl
      | ok others =>
        dsimp only
        cases others.2.next <;> rfl

namespace Poised

variable {sheet : Sheet} {base : Torus} {byFewest : Bool} {search : Enumeration} {yield : Yield}

theorem callsAnswer (poised : Poised sheet base byFewest search yield) (sound : sheet.Sound)
    (holds : base.Holds sheet) (count : Nat) :
    ∃ next left, search.calls count =
        .ok ((List.range count).map fun place => yield.solutions[place]?, next) ∧
      Poised sheet base byFewest next left ∧ left.solutions = yield.solutions.drop count ∧
      left.work = yield.work ∧ Taken base byFewest yield search.position.found count next := by
  induction count with
  | zero =>
    refine ⟨search, yield, rfl, poised, rfl, rfl, ⟨by simp, ?_, ?_⟩⟩
    · intro solution before
      cases before
    · intro before
      cases before
  | succ count ih =>
    obtain ⟨middle, left, asked, poised, rest, work, taken⟩ := ih
    obtain ⟨outcome, next, last, answer, poised, answered⟩ := poised.nextAnswers sound holds
    have solutions := answered.solutions
    have here : yield.solutions[count]? = outcome := by
      rw [← List.head?_drop, ← rest, solutions]
      cases outcome with
      | some solution => rfl
      | none => rw [(answered.ended rfl).1]; rfl
    refine ⟨next, last, ?_, poised, ?_, answered.work.symm.trans work, taken.takenOneMore answered here work⟩
    · rw [Enumeration.callsSucc, asked, List.range_succ, List.map_append, List.map_singleton, here]
      simp only [bind, Except.bind, answer]
      rfl
    · rw [← List.drop_drop, ← rest, solutions]
      cases outcome with
      | some solution => rfl
      | none => rw [(answered.ended rfl).1]; rfl

theorem nextExhausted (poised : Poised sheet base byFewest search yield) (sound : sheet.Sound)
    (holds : base.Holds sheet) (none : yield.solutions = [])
    (rests : search = ⟨⟨base.withRemovals yield.work, [], search.position.found⟩, byFewest, [], true⟩) :
    search.next = .ok (Option.none, search) := by
  obtain ⟨outcome, next, left, answer, -, answered⟩ := poised.nextAnswers sound holds
  have solutions := answered.solutions
  rw [none] at solutions
  cases outcome with
  | some solution => cases solutions
  | none => rw [answer, (answered.ended rfl).2, ← rests]

end Poised

end DancingLinks
