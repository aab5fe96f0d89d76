import DancingLinks.Proofs.SolveAnswers

/-! Taking solutions one at a time and searching for all of them go the same way. Each request is answered
by the solution that a solve would tell next, with the same counts, and a search given up after some of
them has counted what a solve has whose listener was content with so many. -/
namespace DancingLinks

def Reply.StoppedAfter (count : Nat) (reply : Reply Nat) : Prop :=
  ∃ listener, reply.solver.listener = some listener ∧ listener.heard.size = count ∧
    listener.answer listener.heard = false

structure Solver.Follows (solver : Solver) (solutions : List Solution) (removals count : Nat)
    (search : Enumeration) : Prop where
  counters : ∀ solution, 0 < count → solutions[count - 1]? = some solution →
    solution.number = count ∧ search.position.found = count ∧
      search.position.torus.removals = solution.removals ∧ search.position.depth = solution.rows.length
  ended : solutions.length < count → search.position.torus.removals = removals ∧
    search.position.depth = 0 ∧ search.next = .ok (none, search)
  dropped : 0 < count → count ≤ solutions.length → ∃ after events, solver.close search = .ok (after, events) ∧
    ∀ answer sink reply, Solver.solve { solver.setListener answer with sink } = .ok reply →
      reply.StoppedAfter count → after.found = reply.solver.found ∧ after.removals = reply.solver.removals
  stops : 0 < count → count ≤ solutions.length → ∃ reply,
    Solver.solve { solver.setListener (fun calls => calls.size != count) with sink := none } = .ok reply ∧
      reply.StoppedAfter count

namespace Solver.Keeps

variable {solver : Solver} {sheet : Sheet}

theorem solveStopped (keeps : solver.Keeps sheet) {count : Nat} (asked : 0 < count)
    (within : count ≤ (sheet.search solver.config.byFewest).solutions.length) : ∃ reply,
    Solver.solve { solver.setListener (fun calls => calls.size != count) with sink := none } = .ok reply ∧
      reply.StoppedAfter count := by
  refine ⟨_, solveAnswers (keeps.keptForAudience _ none), ?_⟩
  have told := hasTold { solver.setListener (fun calls => calls.size != count) with sink := none }
    (sheet.search solver.config.byFewest)
  have stopped : (attendance { solver.setListener (fun calls => calls.size != count) with sink := none }
      (sheet.search solver.config.byFewest)).more = false := by
    rw [Bool.eq_false_iff]
    intro more
    have all : _ = (sheet.search solver.config.byFewest).solutions := Attendance.heardAll more
    have length : ((sheet.search solver.config.byFewest).solutions.take count).length = count := by
      rw [List.length_take, Nat.min_eq_left within]
    have wanted := told.wanted more _ rfl ((sheet.search solver.config.byFewest).solutions.take count)
      (all ▸ List.take_prefix ..) (List.ne_nil_of_length_pos (length.symm ▸ asked))
    exact bne_iff_ne.mp wanted ((Listener.toldSize ..).trans ((Nat.zero_add _).trans length))
  obtain ⟨listener, listened, refused⟩ := sinklessRefused rfl stopped
  refine ⟨listener, listened, ?_, refused⟩
  rw [audienceListens] at listened
  cases listened
  simpa [Listener.told, Listener.ofAnswer] using refused

theorem closeDropped (keeps : solver.Keeps sheet) {count : Nat} {search : Enumeration} {left : Yield}
    (poised : Poised sheet solver.torus solver.config.byFewest search left)
    (taken : Taken solver.torus solver.config.byFewest (sheet.search solver.config.byFewest) 0 count search)
    (asked : 0 < count) (within : count ≤ (sheet.search solver.config.byFewest).solutions.length) :
    ∃ after events, solver.close search = .ok (after, events) ∧
      ∀ answer sink reply, Solver.solve { solver.setListener answer with sink } = .ok reply →
        reply.StoppedAfter count → after.found = reply.solver.found ∧
          after.removals = reply.solver.removals := by
  have counted := taken.counted
  obtain ⟨events, closed⟩ := poised.closeAbandons
  refine ⟨_, events, closed, fun answer sink reply solved => ?_⟩
  cases (solveAnswers (keeps.keptForAudience _ sink)).symm.trans solved
  intro stopped
  obtain ⟨listener, listened, size, refused⟩ := stopped
  rw [audienceListens] at listened
  cases listened
  have told : (({ solver.setListener answer with sink } : Solver).attendance
      (sheet.search solver.config.byFewest)).heard.length = count :=
    (Nat.zero_add _).symm.trans ((Listener.toldSize ..).symm.trans size)
  obtain ⟨solution, there, last⟩ := lastHeard _ _ (told.symm ▸ asked)
  rw [told] at there
  obtain ⟨-, removals, -⟩ := taken.read solution asked there
  have all : search.position.found = count := by omega
  exact ⟨all.trans told.symm, removals.symm.trans (refusesLast rfl last refused).symm⟩

theorem callsFollow (keeps : solver.Keeps sheet) (count : Nat) :
    ∃ search, solver.enumeration.calls count = .ok ((List.range count).map fun place =>
        (sheet.search solver.config.byFewest).solutions[place]?, search) ∧
      solver.Follows (sheet.search solver.config.byFewest).solutions
        (sheet.search solver.config.byFewest).work count search := by
  have begun : Poised sheet solver.torus solver.config.byFewest solver.enumeration _ := .fresh
  obtain ⟨search, left, calls, poised, rest, work, taken⟩ := begun.callsAnswer keeps.sound keeps.holds count
  have counted : search.position.found = 0 + min count _ := taken.counted
  refine ⟨search, calls, ?_, ?_, keeps.closeDropped poised taken, keeps.solveStopped⟩
  · intro solution asked there
    obtain ⟨number, removals, depth⟩ := taken.read solution asked there
    have inside := (List.getElem?_eq_some_iff.mp there).1
    have all : search.position.found = count := by omega
    exact ⟨number.trans all, all, removals.symm, depth.symm⟩
  · intro beyond
    have rests := taken.ended beyond
    rw [← work] at rests
    have same : search.position.found = solver.enumeration.position.found + _ :=
      congrArg (fun s => s.position.found) rests
    rw [← same] at rests
    refine ⟨?_, ?_, ?_⟩
    · rw [rests, ← work]
      rfl
    · rw [rests]
      rfl
    · exact poised.nextExhausted keeps.sound keeps.holds
        (rest.trans (List.drop_eq_nil_iff.mpr (Nat.le_of_lt beyond))) rests

theorem tellsAll (keeps : solver.Keeps sheet) (sink : Option Sink) :
    ∃ reply, Solver.solve { solver.setListener (fun _ => true) with sink } = .ok reply ∧
      ((sink = none ∨ ∀ event ∈ reply.events, event.isFailure = false) →
        reply.solver.listener =
          some ((Listener.ofAnswer fun _ => true).told (sheet.search solver.config.byFewest).solutions) ∧
        reply.solver.removals = (sheet.search solver.config.byFewest).work) := by
  refine ⟨_, solveAnswers (keeps.keptForAudience _ sink), fun calm => ?_⟩
  have goes : (({ solver.setListener (fun _ => true) with sink } : Solver).attendance
      (sheet.search solver.config.byFewest)).more = true := by
    rcases calm with rfl | written
    · rw [← Bool.not_eq_false]
      intro stopped
      obtain ⟨listener, listened, refused⟩ := sinklessRefused rfl stopped
      rw [audienceListens] at listened
      cases listened
      cases refused
    · refine hearsAll ⟨?_, written⟩
      intro before after first _ count _ _
      cases first
      rfl
  exact ⟨(deliversAll goes).listener, (deliversAll goes).removals⟩

end Solver.Keeps

theorem enumerationFollowsSolve {solver : Solver} (built : WellBuilt solver) :
    ∃ solutions removals,
      (∀ sink, ∃ reply, Solver.solve { solver.setListener (fun _ => true) with sink } = .ok reply ∧
        ((sink = none ∨ ∀ event ∈ reply.events, event.isFailure = false) →
          reply.solver.listener = some ((Listener.ofAnswer fun _ => true).told solutions) ∧
          reply.solver.removals = removals)) ∧
      ∀ count, ∃ search, solver.enumeration.calls count =
          .ok ((List.range count).map fun place => solutions[place]?, search) ∧
        solver.Follows solutions removals count search := by
  obtain ⟨sheet, keeps⟩ := built.keepsSheet
  exact ⟨_, _, keeps.tellsAll, keeps.callsFollow⟩

theorem choiceLockstep :
    WellBuilt .choice ∧ ∃ solutions removals,
      (∀ sink, ∃ reply, Solver.solve { Solver.choice.setListener (fun _ => true) with sink } = .ok reply ∧
        ((sink = none ∨ ∀ event ∈ reply.events, event.isFailure = false) →
          reply.solver.listener = some ((Listener.ofAnswer fun _ => true).told solutions) ∧
          reply.solver.removals = removals)) ∧
      ∀ count, ∃ search, Solver.choice.enumeration.calls count =
          .ok ((List.range count).map fun place => solutions[place]?, search) ∧
        Solver.choice.Follows solutions removals count search :=
  ⟨⟨_, _, Solver.choiceMade⟩, enumerationFollowsSolve ⟨_, _, Solver.choiceMade⟩⟩

end DancingLinks
