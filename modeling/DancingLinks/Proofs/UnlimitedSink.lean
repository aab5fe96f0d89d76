import DancingLinks.Proofs.StoppedSearch
import DancingLinks.Proofs.WrittenTexts

/-! Searches whose sink takes all that it is given. Nothing but the listener stops them: the solutions that
are told are those up to the first at which it has heard enough. What goes to the standard output meanwhile
is, for each of them in turn, what the listener prints and then what the sink writes there, also for the one
at which the listener has heard enough. -/
namespace DancingLinks

structure Sink.TakesAll (sink : Sink) : Prop where
  takes : sink.writer.policy.Takes
  flushes : sink.writer.policy.refuseFlush sink.writer.flushes = none

namespace Sink

variable {sink : Sink}

theorem recordTakes (takes : sink.writer.policy.Takes) (solution : Solution) :
    (sink.record solution).1 = none ∧ (sink.record solution).2.writer.held.toList =
      sink.writer.held.toList ++ sink.bytesFor solution := by
  rw [recordWrites]
  exact Writer.takesRest takes (Nat.le_refl _)

theorem recordTakesAll (takesAll : sink.TakesAll) (solution : Solution) :
    (sink.record solution).2.TakesAll where
  takes := by
    rw [(sink.recordKeeps solution).1]
    exact takesAll.takes
  flushes := by
    rw [(sink.recordKeeps solution).1, (sink.recordKeeps solution).2.1]
    exact takesAll.flushes

def shows (sink : Sink) (solution : Solution) : Bytes :=
  if sink.writer.policy.isStdout then sink.bytesFor solution else []

theorem recordShows (takesAll : sink.TakesAll) (solution : Solution) :
    (sink.record solution).2.writer.printedSince sink.writer.held.size = sink.shows solution := by
  have held := (recordTakes takesAll.takes solution).2
  rw [Writer.printedSince, (sink.recordKeeps solution).1, shows, held, ← Array.length_toList,
    List.drop_left]

theorem recordedShows (sink : Sink) (solutions : List Solution) :
    (sink.recorded solutions).shows = sink.shows := by
  obtain ⟨policy, -, bytes⟩ := sink.recordedKeeps solutions
  funext solution
  rw [shows, policy, bytes, shows]

end Sink

def Listener.spoken (listener : Listener) (solution : Solution) : Bytes :=
  utf8 (listener.prints (listener.told [solution]).heard).toList

def printout (listener : Option Listener) (shows : Solution → Bytes) : List Solution → Bytes
  | [] => []
  | solution :: rest =>
    listener.elim [] (·.spoken solution) ++ shows solution ++
      printout (listener.map (·.told [solution])) shows rest

theorem contentCons (listener : Option Listener) (solution : Solution) (rest : List Solution) :
    contentAfter listener (solution :: rest) =
      if listener.any (·.refuses [solution]) then 1
      else contentAfter (listener.map (·.told [solution])) rest + 1 := by
  have later : ∀ told, (listener.map (·.told [solution])).any (·.refuses told) =
      listener.any (·.refuses (solution :: told)) := by
    intro told
    cases listener with
    | none => rfl
    | some listener =>
      rw [Option.map_some, Option.any_some, Option.any_some, Listener.refuses, Listener.toldCons]
      rfl
  have least : (leastUpTo (solution :: rest).length fun count =>
      listener.any (·.refuses ((solution :: rest).take count))) =
        if listener.any (·.refuses [solution]) then some 1
        else (leastUpTo rest.length fun count =>
          listener.any (·.refuses (solution :: rest.take count))).map (· + 1) := leastSucc rest.length _
  rw [contentAfter, contentAfter, least]
  simp only [later]
  by_cases enough : listener.any (·.refuses [solution]) = true
  · rw [if_pos enough, if_pos enough]
    rfl
  · rw [if_neg enough, if_neg enough]
    cases leastUpTo rest.length _ <;> rfl

theorem contentBelow (listener : Option Listener) (solutions : List Solution) :
    contentAfter listener solutions ≤ solutions.length := leastBelow ..

namespace Audience

variable {audience : Audience}

def TakesAll (audience : Audience) : Prop := ∀ sink, audience.sink = some sink → sink.TakesAll

theorem refusesNothing (takesAll : audience.TakesAll) (solution : Solution) :
    audience.refusal solution = none := by
  rw [refusal, Option.bind_eq_none_iff]
  intro sink written
  exact (Sink.recordTakes (takesAll sink written).takes solution).1

theorem hearTakesAll (takesAll : audience.TakesAll) (solution : Solution) :
    (audience.hear solution).1.TakesAll := by
  obtain ⟨-, recorded, -⟩ := audience.hearChanges solution
  intro sink written
  rw [recorded] at written
  obtain ⟨before, present, rfl⟩ := Option.map_eq_some_iff.mp written
  exact Sink.recordTakesAll (takesAll before present) solution

def shows (audience : Audience) : Solution → Bytes := audience.sink.elim (fun _ => []) Sink.shows

theorem hearShows (audience : Audience) (solution : Solution) :
    (audience.hear solution).1.shows = audience.shows := by
  obtain ⟨-, recorded, -⟩ := audience.hearChanges solution
  rw [shows, recorded, shows]
  cases audience.sink with
  | none => rfl
  | some sink => exact sink.recordedShows [solution]

theorem hearPrints (takesAll : audience.TakesAll) (solution : Solution) :
    (audience.hear solution).1.printed = audience.printed ++
      (audience.listener.elim [] (·.spoken solution) ++ audience.shows solution) := by
  obtain ⟨listener, sink, failure, events, printed⟩ := audience
  have said : ∀ listener : Listener, bytesOf (listener.prints (listener.heard.push
      ⟨solution.number, solution.removals, solution⟩)) = listener.spoken solution := by
    intro listener
    rw [bytesEncoded, Listener.spoken, Listener.told]
    simp [Solution.call]
  cases sink with
  | none =>
    cases listener <;> simp [hear, inform, write, tell, print, shows, Listener.hear, said]
  | some sink =>
    have calm := (Sink.recordTakes (takesAll sink rfl).takes solution).1
    have shown := Sink.recordShows (takesAll sink rfl) solution
    cases listener <;>
      simp [hear, inform, write, tell, print, shows, Listener.hear, said, calm, shown]

theorem flushPrinted (audience : Audience) : audience.flush.printed = audience.printed := by
  unfold flush
  split <;> rfl

structure EndsByListener (solutions : List Solution) (audience : Audience)
    (attendance : Attendance Audience) : Prop where
  heard : attendance.heard = solutions.take (contentAfter audience.listener solutions)
  calm : attendance.state.failure = audience.failure
  printed : attendance.state.printed =
    audience.printed ++ printout audience.listener audience.shows attendance.heard

theorem endsByListener (takesAll : audience.TakesAll) (solutions : List Solution) :
    audience.EndsByListener solutions (attend hear audience solutions) := by
  -- the sink takes each solution, so the listener's answer alone decides about the next
  induction solutions generalizing audience with
  | nil => exact ⟨rfl, rfl, (List.append_nil _).symm⟩
  | cons solution rest ih =>
    obtain ⟨listener, -, failure, -, more⟩ := audience.hearChanges solution
    rw [refusesNothing takesAll] at failure more
    have goes : (audience.hear solution).2 = !audience.listener.any (·.refuses [solution]) := by
      rw [more, Option.isNone_none, Bool.and_true]
      cases audience.listener <;> simp [Listener.refuses]
    have printed := hearPrints takesAll solution
    have shows := audience.hearShows solution
    have later := ih (hearTakesAll takesAll solution)
    rw [attend]
    split
    rename_i after answer heard
    rw [heard] at listener failure goes printed shows later
    dsimp only at listener failure goes printed shows later
    have content := contentCons audience.listener solution rest
    cases enough : audience.listener.any (·.refuses [solution]) with
    | true =>
      rw [enough] at goes content
      rw [goes, if_neg (show ¬(!true) = true by decide)]
      refine ⟨by rw [content]; rfl, failure, ?_⟩
      rw [printed, printout, printout, List.append_nil]
    | false =>
      rw [enough] at goes content
      rw [goes, if_pos (show (!false) = true from rfl)]
      refine ⟨?_, later.calm.trans failure, ?_⟩
      · rw [content, if_neg (by decide), List.take_succ_cons, ← listener]
        exact congrArg (solution :: ·) later.heard
      · rw [printout, ← listener, ← shows, ← List.append_assoc, shows, ← printed, ← shows]
        exact later.printed

end Audience

/-- Only the listener had a say in how many solutions were told, and in turn it and the sink printed. -/
structure Reply.EndsByListener (solver : Solver) (solutions : List Solution) (reply : Reply Nat) : Prop where
  value : reply.value = .ok (contentAfter solver.listener solutions)
  listener : reply.solver.listener =
    solver.listener.map (·.told (solutions.take (contentAfter solver.listener solutions)))
  printed : reply.printed = printout solver.listener (solver.sink.elim (fun _ => []) Sink.shows)
    (solutions.take (contentAfter solver.listener solutions))

theorem Solver.endsByListener {solver : Solver}
    (takesAll : ∀ sink, solver.sink = some sink → sink.TakesAll) (yield : Yield) :
    (solver.answered yield).EndsByListener solver yield.solutions := by
  have opening : solver.opening.TakesAll := takesAll
  obtain ⟨heard, calm, printed⟩ := Audience.endsByListener opening yield.solutions
  have heard : (solver.attendance yield).heard =
      yield.solutions.take (contentAfter solver.listener yield.solutions) := heard
  have count : (solver.attendance yield).heard.length = contentAfter solver.listener yield.solutions := by
    rw [heard, List.length_take, Nat.min_eq_left (contentBelow ..)]
  have told := solver.audienceListens yield
  rw [heard] at told
  refine ⟨?_, told, ?_⟩
  · have failure : (solver.audience yield).failure = none := by
      rw [audienceFails, show (solver.attendance yield).state.failure = none from calm, Option.none_or,
        Option.bind_eq_none_iff]
      exact fun sink written => (takesAll sink written).flushes
    rw [valueAnswered, failure, count]
  · have kept : (solver.answered yield).printed = (solver.attendance yield).state.printed :=
      Audience.flushPrinted _
    rw [kept, ← heard]
    exact printed

end DancingLinks
