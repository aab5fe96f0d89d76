import DancingLinks.Proofs.WriterBudget
import DancingLinks.Proofs.EnumerationLockstep

/-! Searches that end early. A solve that is stopped has told what an unstopped one tells first, and has
done no work beyond the last solution it told. It stops at the least count at which the listener has
heard enough or the texts told so far do not fit into the sink any more; where both happen at once, the
failure of the sink is the answer. -/
namespace DancingLinks

def leastUpTo (total : Nat) (holds : Nat → Bool) : Option Nat := (List.range' 1 total).find? holds

section
variable {total count : Nat} {holds other : Nat → Bool}

theorem leastSome : leastUpTo total holds = some count ↔ holds count = true ∧
    (0 < count ∧ count ≤ total) ∧ ∀ earlier, 0 < earlier → earlier < count → holds earlier = false := by
  rw [leastUpTo, List.find?_range'_eq_some, List.mem_range'_1]
  simp only [Bool.not_eq_true', Nat.add_comm 1 total, Nat.lt_succ_iff]
  rfl

theorem leastNone : leastUpTo total holds = none ↔
    ∀ count, 0 < count → count ≤ total → holds count = false := by
  rw [leastUpTo, List.find?_range'_eq_none]
  simp only [Bool.not_eq_true', Nat.add_comm 1 total, Nat.lt_succ_iff]
  rfl

theorem leastSucc (total : Nat) (holds : Nat → Bool) : leastUpTo (total + 1) holds =
    if holds 1 then some 1 else (leastUpTo total fun count => holds (count + 1)).map (· + 1) := by
  have shifted : List.range' 2 total = (List.range' 1 total).map (· + 1) := by
    simp only [Nat.add_comm _ 1, List.map_add_range']
  rw [leastUpTo, List.range'_succ, List.find?_cons, shifted, List.find?_map]
  cases holds 1 <;> rfl

theorem leastBelow (total : Nat) (holds : Nat → Bool) : (leastUpTo total holds).getD total ≤ total := by
  cases least : leastUpTo total holds with
  | none => exact Nat.le_refl _
  | some count => exact (leastSome.mp least).2.1.2

end

def Listener.refuses (listener : Listener) (solutions : List Solution) : Bool :=
  !listener.answer (listener.told solutions).heard

def contentAfter (listener : Option Listener) (solutions : List Solution) : Nat :=
  (leastUpTo solutions.length fun count => listener.any (·.refuses (solutions.take count))).getD
    solutions.length

theorem contentWhole {listener : Option Listener} {solutions : List Solution}
    (never : ∀ count, 0 < count → count ≤ solutions.length →
      listener.any (·.refuses (solutions.take count)) = false) :
    contentAfter listener solutions = solutions.length := by
  rw [contentAfter, leastNone.mpr never, Option.getD_none]

theorem contentFirst {listener : Option Listener} {solutions : List Solution} {count : Nat}
    (positive : 0 < count) (within : count ≤ solutions.length)
    (enough : listener.any (·.refuses (solutions.take count)) = true)
    (before : ∀ earlier, 0 < earlier → earlier < count →
      listener.any (·.refuses (solutions.take earlier)) = false) :
    contentAfter listener solutions = count := by
  rw [contentAfter, leastSome.mpr ⟨enough, ⟨positive, within⟩, before⟩, Option.getD_some]

namespace Audience

def stops (audience : Audience) (budget : Nat) (solutions : List Solution) : Bool :=
  audience.listener.any (·.refuses solutions) || audience.sink.any (·.overruns budget solutions)

def halt (audience : Audience) (budget : Nat) (solutions : List Solution) : Option Nat :=
  leastUpTo solutions.length fun count => audience.stops budget (solutions.take count)

def Affords (audience : Audience) (budget : Nat) : Prop :=
  ∀ sink, audience.sink = some sink → sink.Affords budget

def Failed (audience : Audience) (budget : Nat) (solutions : List Solution) (failure : Option String) :
    Prop :=
  ∃ sink reason offers, audience.sink = some sink ∧ failure = some reason ∧
    sink.writer.policy.refusal offers (sink.writer.held.size + budget)
      ((sink.texts solutions).drop budget) = some reason

structure Halts (budget : Nat) (solutions : List Solution) (audience : Audience)
    (attendance : Attendance Audience) : Prop where
  heard : attendance.heard = solutions.take ((audience.halt budget solutions).getD solutions.length)
  more : attendance.more = (audience.halt budget solutions).isNone
  spared : audience.sink.any (·.overruns budget attendance.heard) = false →
    attendance.state.failure = audience.failure
  failed : audience.sink.any (·.overruns budget attendance.heard) = true →
    audience.Failed budget attendance.heard attendance.state.failure

def cost (audience : Audience) (solution : Solution) : Nat :=
  audience.sink.elim 0 fun sink => (sink.bytesFor solution).length

variable {audience : Audience} {budget : Nat} {solution : Solution}

theorem refusalNone (affords : audience.Affords budget) (solution : Solution) :
    (audience.refusal solution).isNone = !audience.sink.any (·.overruns budget [solution]) := by
  unfold refusal
  cases written : audience.sink with
  | none => rfl
  | some sink =>
    have fills := Sink.recordFills (affords sink written) solution
    have text : sink.texts [solution] = sink.bytesFor solution := List.append_nil _
    rw [Option.bind_some, Option.any_some, Sink.overruns, text]
    rcases Nat.lt_or_ge budget (sink.bytesFor solution).length with excess | fits
    · obtain ⟨reason, -, failed, -⟩ := fills.overruns (by omega)
      simp [failed, excess]
    · simp [fills.fits (by omega), Nat.not_lt.mpr fits]

theorem refusalFails (affords : audience.Affords budget)
    (excess : audience.sink.any (·.overruns budget [solution]) = true) :
    audience.Failed budget [solution] (audience.refusal solution) := by
  obtain ⟨sink, written, excess⟩ := (Option.any_eq_true _ _).mp excess
  have fills := Sink.recordFills (affords sink written) solution
  have text : sink.texts [solution] = sink.bytesFor solution := List.append_nil _
  rw [Sink.overruns, text, decide_eq_true_iff] at excess
  obtain ⟨reason, offers, failed, refused⟩ := fills.overruns (by omega)
  refine ⟨sink, reason, offers, written, ?_, ?_⟩
  · rw [refusal, written]
    exact failed
  · rwa [Nat.add_sub_cancel_left, ← text] at refused

theorem Failed.failedOr {solutions : List Solution} {failure : Option String}
    (failed : audience.Failed budget solutions failure) (other : Option String) :
    audience.Failed budget solutions (failure.or other) := by
  obtain ⟨sink, reason, offers, written, rfl, refused⟩ := failed
  exact ⟨sink, reason, offers, written, Option.some_or, refused⟩

theorem hearGoesOn (affords : audience.Affords budget) (solution : Solution) :
    (audience.hear solution).2 = !audience.stops budget [solution] := by
  obtain ⟨-, -, -, -, more⟩ := audience.hearChanges solution
  rw [more, refusalNone affords, stops, Bool.not_or]
  cases audience.listener <;> simp [Listener.refuses]

theorem hearAffords (affords : audience.Affords budget) (solution : Solution) :
    (audience.hear solution).1.Affords (budget - audience.cost solution) := by
  obtain ⟨-, recorded, -⟩ := audience.hearChanges solution
  intro sink written
  rw [recorded] at written
  obtain ⟨before, present, rfl⟩ := Option.map_eq_some_iff.mp written
  simp only [cost, present, Option.elim_some]
  exact (Sink.recordAffords (affords before present) solution).2

theorem overrunsLater (sink : Sink) {budget : Nat} {solution : Solution}
    (fits : sink.overruns budget [solution] = false) (rest : List Solution) :
    (sink.record solution).2.overruns (budget - (sink.bytesFor solution).length) rest =
      sink.overruns budget (solution :: rest) := by
  have first : sink.texts [solution] = sink.bytesFor solution := List.append_nil _
  have whole : sink.texts (solution :: rest) = sink.bytesFor solution ++ sink.texts rest := rfl
  have same : (sink.record solution).2.texts rest = sink.texts rest := rfl
  rw [Sink.overruns, first, decide_eq_false_iff_not] at fits
  rw [Sink.overruns, Sink.overruns, whole, same, List.length_append, decide_eq_decide]
  omega

theorem stopsLater (fits : audience.sink.any (·.overruns budget [solution]) = false)
    (rest : List Solution) :
    (audience.hear solution).1.stops (budget - audience.cost solution) rest =
        audience.stops budget (solution :: rest) ∧
      (audience.hear solution).1.sink.any (·.overruns (budget - audience.cost solution) rest) =
        audience.sink.any (·.overruns budget (solution :: rest)) := by
  obtain ⟨listener, recorded, -⟩ := audience.hearChanges solution
  have heard : (audience.hear solution).1.listener.any (·.refuses rest) =
      audience.listener.any (·.refuses (solution :: rest)) := by
    rw [listener]
    cases audience.listener with
    | none => rfl
    | some listener =>
      simp only [Option.map_some, Option.any_some, Listener.refuses, Listener.toldCons]
      rfl
  have written : (audience.hear solution).1.sink.any (·.overruns (budget - audience.cost solution) rest) =
      audience.sink.any (·.overruns budget (solution :: rest)) := by
    rw [recorded, cost]
    cases present : audience.sink with
    | none => rfl
    | some sink =>
      rw [present, Option.any_some] at fits
      exact overrunsLater sink fits rest
  exact ⟨by rw [stops, stops, heard, written], written⟩

theorem failedLater {failure : Option String} {rest : List Solution} (affords : audience.Affords budget)
    (fits : audience.sink.any (·.overruns budget [solution]) = false)
    (failed : (audience.hear solution).1.Failed (budget - audience.cost solution) rest failure) :
    audience.Failed budget (solution :: rest) failure := by
  obtain ⟨-, recorded, -⟩ := audience.hearChanges solution
  obtain ⟨sink, reason, offers, written, failure, refused⟩ := failed
  rw [recorded] at written
  obtain ⟨before, present, rfl⟩ := Option.map_eq_some_iff.mp written
  rw [present, Option.any_some, Sink.overruns, decide_eq_false_iff_not] at fits
  have first : before.texts [solution] = before.bytesFor solution := List.append_nil _
  have whole : before.texts (solution :: rest) = before.bytesFor solution ++ before.texts rest := rfl
  have same : (before.recorded [solution]).texts rest = before.texts rest := rfl
  have room : (before.recorded [solution]).writer.held.size + (budget - audience.cost solution) =
      before.writer.held.size + budget := by
    simp only [cost, present, Option.elim_some]
    exact (Sink.recordAffords (affords before present) solution).1
  refine ⟨before, reason, offers, present, failure, ?_⟩
  rw [first] at fits
  rw [room, same] at refused
  rw [whole, List.drop_append, List.drop_of_length_le (Nat.not_lt.mp fits), List.nil_append]
  simpa only [cost, present, Option.elim_some, Sink.recorded, List.foldl_cons, List.foldl_nil,
    (before.recordKeeps solution).1] using refused

theorem haltSucc (audience : Audience) (budget : Nat) (solution : Solution) (rest : List Solution) :
    audience.halt budget (solution :: rest) = if audience.stops budget [solution] then some 1
      else (leastUpTo rest.length fun count =>
        audience.stops budget (solution :: rest.take count)).map (· + 1) := leastSucc rest.length _

namespace Halts

variable {solutions rest : List Solution}

theorem heardLength {attendance : Attendance Audience} (halts : Halts budget solutions audience attendance) :
    attendance.heard.length = (audience.halt budget solutions).getD solutions.length := by
  rw [halts.heard, List.length_take]
  exact Nat.min_eq_left (leastBelow ..)

theorem haltsHere (affords : audience.Affords budget) (stopped : audience.stops budget [solution] = true) :
    Halts budget (solution :: rest) audience ⟨(audience.hear solution).1, [solution], false⟩ := by
  obtain ⟨-, -, failure, -⟩ := audience.hearChanges solution
  have least : audience.halt budget (solution :: rest) = some 1 := by
    rw [haltSucc, if_pos stopped]
  refine ⟨by rw [least]; rfl, by rw [least]; rfl, fun fits => ?_, fun excess => ?_⟩
  · have quiet := refusalNone affords solution
    rw [fits, Bool.not_false, Option.isNone_iff_eq_none] at quiet
    rw [failure, quiet, Option.none_or]
  · rw [failure]
    exact (refusalFails affords excess).failedOr _

theorem haltsLater {later : Attendance Audience} (affords : audience.Affords budget)
    (goes : audience.stops budget [solution] = false)
    (halts : Halts (budget - audience.cost solution) rest (audience.hear solution).1 later) :
    Halts budget (solution :: rest) audience { later with heard := solution :: later.heard } := by
  obtain ⟨-, -, failure, -⟩ := audience.hearChanges solution
  have fits : audience.sink.any (·.overruns budget [solution]) = false :=
    (Bool.or_eq_false_iff.mp goes).2
  have quiet := refusalNone affords solution
  rw [fits, Bool.not_false, Option.isNone_iff_eq_none] at quiet
  have same : audience.halt budget (solution :: rest) =
      ((audience.hear solution).1.halt (budget - audience.cost solution) rest).map (· + 1) := by
    rw [haltSucc, if_neg (Bool.eq_false_iff.mp goes), halt]
    simp only [(stopsLater fits _).1]
  refine ⟨?_, ?_, fun spared => ?_, fun excess => ?_⟩
  · rw [halts.heard, same]
    cases (audience.hear solution).1.halt (budget - audience.cost solution) rest <;> rfl
  · rw [halts.more, same, Option.isNone_map]
  · rw [← (stopsLater fits _).2] at spared
    rw [halts.spared spared, failure, quiet, Option.none_or]
  · rw [← (stopsLater fits _).2] at excess
    exact failedLater affords fits (halts.failed excess)

end Halts

theorem attendHalts (affords : audience.Affords budget) (solutions : List Solution) :
    audience.Halts budget solutions (attend hear audience solutions) := by
  induction solutions generalizing audience budget with
  | nil =>
    refine ⟨rfl, rfl, fun _ => rfl, fun excess => ?_⟩
    obtain ⟨sink, -, excess⟩ := (Option.any_eq_true _ _).mp excess
    cases of_decide_eq_true excess
  | cons solution rest ih =>
    have goes := hearGoesOn affords solution
    have later := ih (hearAffords affords solution)
    rw [attend]
    split
    rename_i after more answer
    rw [answer] at goes later
    have here : after = (audience.hear solution).1 := by rw [answer]
    cases stopped : audience.stops budget [solution] with
    | true =>
      rw [stopped] at goes
      cases goes
      rw [here]
      exact .haltsHere affords stopped
    | false =>
      rw [stopped] at goes
      cases goes
      rw [here] at later ⊢
      exact .haltsLater affords stopped later

end Audience

def Solver.Lists (solver : Solver) (solutions : List Solution) (removals : Nat) : Prop :=
  ∃ reply, Solver.solve { solver.setListener (fun _ => true) with sink := none } = .ok reply ∧
    reply.value = .ok solutions.length ∧
    reply.solver.listener = some ((Listener.ofAnswer fun _ => true).told solutions) ∧
    reply.solver.removals = removals

structure Reply.Leaves (listener : Option Listener) (sink : Sink) (told : List Solution) (bytes : Bytes)
    (reply : Reply Nat) : Prop where
  listener : reply.solver.listener = listener.map (·.told told)
  received : ∃ after, reply.solver.sink = some after ∧ sink.Received bytes after

structure Reply.EndsAfter (listener : Listener) (solutions : List Solution) (removals count : Nat)
    (reply : Reply Nat) : Prop where
  value : reply.value = .ok count
  found : reply.solver.found = count
  heard : reply.solver.listener = some (listener.told (solutions.take count))
  refused : ∀ last, (solutions.take count).getLast? = some last →
    listener.refuses (solutions.take count) = true → reply.solver.removals = last.removals
  whole : (0 < count → listener.refuses (solutions.take count) = false) →
    reply.solver.removals = removals

namespace Solver

variable {solver : Solver} {sheet : Sheet} {yield : Yield} {budget : Nat}

theorem attendanceHalts (affords : solver.opening.Affords budget) (yield : Yield) :
    solver.opening.Halts budget yield.solutions (solver.attendance yield) := Audience.attendHalts affords _

theorem valueAnswered (solver : Solver) (yield : Yield) : (solver.answered yield).value =
    match (solver.audience yield).failure with
    | some reason => .error (.output reason)
    | none => .ok (solver.attendance yield).heard.length := rfl

theorem stopsAfter (solver : Solver) {listener : Listener} (listening : solver.listener = some listener)
    (sinkless : solver.sink = none) (yield : Yield) :
    (solver.answered yield).EndsAfter listener yield.solutions yield.work
      (contentAfter (some listener) yield.solutions) := by
  have silent : solver.opening.sink = none := sinkless
  have affords : solver.opening.Affords 0 := fun sink written => by
    rw [silent] at written
    cases written
  have halts := solver.attendanceHalts affords yield
  have heard := halts.heard
  have length := halts.heardLength
  have same : solver.opening.halt 0 yield.solutions = leastUpTo yield.solutions.length
      fun count => (some listener).any (·.refuses (yield.solutions.take count)) := by
    simp only [Audience.halt, Audience.stops, silent, Option.any_none, Bool.or_false,
      show solver.opening.listener = some listener from listening]
  rw [same, ← contentAfter] at heard length
  have calm : (solver.audience yield).failure = none := by
    rw [audienceFails, halts.spared (by rw [silent]; rfl), sinkless]
    rfl
  have told := solver.audienceListens yield
  rw [listening, Option.map_some, heard] at told
  refine ⟨?_, length, told, fun last final refused => ?_, fun wanted => ?_⟩
  · rw [valueAnswered, calm, length]
  · rw [← heard] at final refused
    exact refusesLast listening final (by simpa only [Listener.refuses, Bool.not_eq_true'] using refused)
  · have goes : (solver.attendance yield).more = true := by
      rw [halts.more, same, Option.isNone_iff_eq_none]
      cases least : leastUpTo yield.solutions.length
          fun count => (some listener).any (·.refuses (yield.solutions.take count)) with
      | none => rfl
      | some count =>
        obtain ⟨now, inside, -⟩ := leastSome.mp least
        rw [contentAfter, least, Option.getD_some] at wanted
        rw [Option.any_some, wanted inside.1] at now
        cases now
    exact Attendance.workMore goes yield.work

theorem contentNever (solutions : List Solution) :
    contentAfter (some (.ofAnswer fun _ => true)) solutions = solutions.length :=
  contentWhole fun _ _ _ => rfl

theorem Keeps.searchLists (keeps : solver.Keeps sheet) : solver.Lists
    (sheet.search solver.config.byFewest).solutions (sheet.search solver.config.byFewest).work := by
  have ends : Reply.EndsAfter (.ofAnswer fun _ => true) (sheet.search solver.config.byFewest).solutions
      (sheet.search solver.config.byFewest).work _
      (answered { solver.setListener (fun _ => true) with sink := none }
        (sheet.search solver.config.byFewest)) := stopsAfter _ rfl rfl _
  rw [contentNever] at ends
  have heard := ends.heard
  rw [List.take_length] at heard
  exact ⟨_, solveAnswers (keeps.keptForAudience _ none), ends.value, heard, ends.whole fun _ => rfl⟩

theorem Keeps.numberPlace (keeps : solver.Keeps sheet) {place : Nat} {solution : Solution}
    (there : (sheet.search solver.config.byFewest).solutions[place]? = some solution) :
    solution.number = place + 1 := by
  obtain ⟨search, -, follows⟩ := keeps.callsFollow (place + 1)
  exact (follows.counters solution (Nat.succ_pos place) there).1

end Solver

theorem stoppingKeepsPrefix {solver : Solver} (built : WellBuilt solver) (sinkless : solver.sink = none) :
    ∃ solutions removals, solver.Lists solutions removals ∧
      (∀ place solution, solutions[place]? = some solution → solution.number = place + 1) ∧
      ∀ listener, ∃ reply, Solver.solve { solver with listener := some listener } = .ok reply ∧
        reply.EndsAfter listener solutions removals (contentAfter (some listener) solutions) := by
  obtain ⟨sheet, keeps⟩ := built.keepsSheet
  refine ⟨_, _, keeps.searchLists, fun _ _ => keeps.numberPlace, fun listener => ?_⟩
  exact ⟨_, Solver.solveAnswers (keeps.keptForAudience (some listener) solver.sink),
    Solver.stopsAfter { solver with listener := some listener } rfl sinkless _⟩

theorem choiceStopped : WellBuilt (Solver.choice.clearSink) ∧ Solver.choice.clearSink.sink = none ∧
    ∃ solutions removals, Solver.choice.clearSink.Lists solutions removals ∧
      (∀ place solution, solutions[place]? = some solution → solution.number = place + 1) ∧
      ∀ listener, ∃ reply,
        Solver.solve { Solver.choice.clearSink with listener := some listener } = .ok reply ∧
        reply.EndsAfter listener solutions removals (contentAfter (some listener) solutions) := by
  have built : WellBuilt (Solver.choice.clearSink) := ⟨_, _, Solver.choiceMade.call .clearSink trivial rfl⟩
  exact ⟨built, rfl, stoppingKeepsPrefix built rfl⟩

end DancingLinks
