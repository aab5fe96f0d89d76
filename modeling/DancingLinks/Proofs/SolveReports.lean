import DancingLinks.Proofs.SheetSolve
import DancingLinks.Proofs.SolutionText

/-! What has become of listener and sink when a solve is over. Both are told the same solutions in the
same order, whatever they make of them; a search that nobody stops tells them all. A flush that fails is
no stop: the search is over by then, and only the answer is an error. -/
namespace DancingLinks

def Solution.call (solution : Solution) : Call := ⟨solution.number, solution.removals, solution⟩

def Listener.told (listener : Listener) (solutions : List Solution) : Listener :=
  { listener with heard := listener.heard ++ (solutions.map Solution.call).toArray }

def Sink.recorded (sink : Sink) (solutions : List Solution) : Sink :=
  solutions.foldl (fun sink solution => (sink.record solution).2) sink

namespace Event

def rows? : Event → Option (List Nat)
  | .reporting _ rows => some rows
  | _ => none

def isFailure : Event → Bool
  | .outputFailed .. => true
  | _ => false

end Event

def Reply.reported {α : Type} (reply : Reply α) : List (List Nat) := reply.events.filterMap Event.rows?

/-- No solution that a solve told was answered with a stop, and none could not be written. -/
structure Solver.Unstopped (solver : Solver) (reply : Reply Nat) : Prop where
  wanted : ∀ before after, solver.listener = some before → reply.solver.listener = some after →
    ∀ count, before.heard.size < count → count ≤ after.heard.size →
      before.answer (after.heard.take count) = true
  written : ∀ event ∈ reply.events, event.isFailure = false

/-- Those bytes were all that the sink's writer took, and then it was flushed. -/
structure Sink.Received (sink : Sink) (bytes : Bytes) (after : Sink) : Prop where
  held : after.writer.held.toList = sink.writer.held.toList ++ bytes
  flushed : after.writer.flushes = sink.writer.flushes + 1

structure Reply.Delivers (solver : Solver) (yield : Yield) (reply : Reply Nat) : Prop where
  value : reply.value = match solver.sink.bind fun sink =>
      sink.writer.policy.refuseFlush sink.writer.flushes with
    | some reason => .error (.output reason)
    | none => .ok yield.solutions.length
  found : reply.solver.found = yield.solutions.length
  removals : reply.solver.removals = yield.work
  listener : reply.solver.listener = solver.listener.map (·.told yield.solutions)
  sink : reply.solver.sink = solver.sink.map fun sink => (sink.recorded yield.solutions).flush.2
  received : ∀ sink, solver.sink = some sink → ∃ after, reply.solver.sink = some after ∧
    sink.Received (sink.texts yield.solutions) after
  reported : reply.reported =
    if solver.listener.isNone && solver.sink.isNone then [] else yield.solutions.map Solution.rows

theorem Listener.toldCons (listener : Listener) (solution : Solution) (rest : List Solution) :
    (listener.told [solution]).told rest = listener.told (solution :: rest) := by
  simp [told]

theorem Listener.toldSize (listener : Listener) (solutions : List Solution) :
    (listener.told solutions).heard.size = listener.heard.size + solutions.length := by
  simp [told]

namespace Sink

theorem recordedKeeps (sink : Sink) (solutions : List Solution) :
    (sink.recorded solutions).writer.policy = sink.writer.policy ∧
      (sink.recorded solutions).writer.flushes = sink.writer.flushes ∧
      (sink.recorded solutions).bytesFor = sink.bytesFor := by
  induction solutions generalizing sink with
  | nil => exact ⟨rfl, rfl, rfl⟩
  | cons solution rest ih =>
    obtain ⟨policy, flushes, bytes⟩ := sink.recordKeeps solution
    obtain ⟨policy', flushes', bytes'⟩ := ih (sink.record solution).2
    exact ⟨policy'.trans policy, flushes'.trans flushes, bytes'.trans bytes⟩

theorem flushRecorded (sink : Sink) (solutions : List Solution) : (sink.recorded solutions).flush.1 =
    sink.writer.policy.refuseFlush sink.writer.flushes := by
  obtain ⟨policy, flushes, -⟩ := sink.recordedKeeps solutions
  rw [(flushAnswers _).1, policy, flushes]

theorem recordedReceived {sink : Sink} {solutions : List Solution} {bytes : Bytes}
    (held : (sink.recorded solutions).writer.held.toList = sink.writer.held.toList ++ bytes) :
    sink.Received bytes (sink.recorded solutions).flush.2 where
  held := held
  flushed := congrArg (· + 1) (sink.recordedKeeps solutions).2.1

end Sink

namespace Audience

def refusal (audience : Audience) (solution : Solution) : Option String :=
  audience.sink.bind fun sink => (sink.record solution).1

theorem hearChanges (audience : Audience) (solution : Solution) :
    (audience.hear solution).1.listener = audience.listener.map (·.told [solution]) ∧
    (audience.hear solution).1.sink = audience.sink.map (·.recorded [solution]) ∧
    (audience.hear solution).1.failure = (audience.refusal solution).or audience.failure ∧
    (audience.hear solution).1.events.toList = audience.events.toList ++
      (if audience.listener.isNone && audience.sink.isNone then []
        else [.reporting solution.number solution.rows]) ++
      ((audience.refusal solution).map (.outputFailed solution.number)).toList ∧
    (audience.hear solution).2 = (audience.listener.all (fun listener =>
      listener.answer (listener.told [solution]).heard) && (audience.refusal solution).isNone) := by
  obtain ⟨listener, sink, failure, events, printed⟩ := audience
  cases sink with
  | none =>
    cases listener <;>
      simp [hear, inform, write, tell, print, refusal, Listener.hear, Listener.told, Solution.call]
  | some sink =>
    cases written : sink.record solution with
    | mk reason after =>
      cases reason <;> cases listener <;>
        simp [hear, inform, write, tell, print, refusal, Listener.hear, Listener.told, Solution.call,
          Sink.recorded, written]

structure Told (before : Audience) (attendance : Attendance Audience) : Prop where
  listener : attendance.state.listener = before.listener.map (·.told attendance.heard)
  sink : attendance.state.sink = before.sink.map (·.recorded attendance.heard)
  reported : attendance.state.events.toList.filterMap Event.rows? =
    before.events.toList.filterMap Event.rows? ++
      if before.listener.isNone && before.sink.isNone then [] else attendance.heard.map Solution.rows
  undisturbed : attendance.more = true → attendance.state.failure = before.failure
  written : attendance.more = true → ∀ sink, before.sink = some sink →
    (sink.recorded attendance.heard).writer.held.toList =
      sink.writer.held.toList ++ sink.texts attendance.heard
  wanted : attendance.more = true → ∀ listener, before.listener = some listener →
    ∀ first, first <+: attendance.heard → first ≠ [] → listener.answer (listener.told first).heard = true
  stopped : attendance.more = false →
    (∃ listener, attendance.state.listener = some listener ∧ listener.answer listener.heard = false) ∨
      before.sink ≠ none ∧ ∃ event ∈ attendance.state.events.toList, event.isFailure = true

namespace Told

variable {audience : Audience} {solution : Solution}

theorem toldNothing (audience : Audience) : Told audience ⟨audience, [], true⟩ where
  listener := by cases heard : audience.listener <;> simp [Listener.told]
  sink := by cases written : audience.sink <;> simp [Sink.recorded]
  reported := by simp
  undisturbed _ := rfl
  written _ _ _ := (List.append_nil _).symm
  wanted _ _ _ first before some := absurd (List.prefix_nil.mp before) some
  stopped more := by cases more

theorem toldLast (stops : (audience.hear solution).2 = false) :
    Told audience ⟨(audience.hear solution).1, [solution], false⟩ := by
  obtain ⟨listener, sink, -, events, more⟩ := audience.hearChanges solution
  refine ⟨listener, sink, ?_, nofun, nofun, nofun, fun _ => ?_⟩
  · rw [events]
    cases audience.refusal solution <;>
      cases deaf : audience.listener.isNone && audience.sink.isNone <;> simp [Event.rows?]
  · rw [stops] at more
    rcases Bool.and_eq_false_iff.mp more.symm with refused | failed
    · cases heard : audience.listener with
      | none => simp [heard] at refused
      | some before =>
        rw [heard] at refused listener
        exact .inl ⟨_, listener, by simpa [Listener.told] using refused⟩
    · cases failure : audience.refusal solution with
      | none => simp [failure] at failed
      | some reason =>
        have written : audience.sink ≠ none := fun none => by simp [refusal, none] at failure
        exact .inr ⟨written, .outputFailed solution.number reason, by simp [events, failure], rfl⟩

theorem toldLater {later : Attendance Audience} (goes : (audience.hear solution).2 = true)
    (told : Told (audience.hear solution).1 later) :
    Told audience { later with heard := solution :: later.heard } := by
  obtain ⟨listener, sink, failure, events, more⟩ := audience.hearChanges solution
  rw [goes] at more
  obtain ⟨heard, written⟩ := Bool.and_eq_true_iff.mp more.symm
  rw [Option.isNone_iff_eq_none.mp written] at failure events
  refine ⟨?_, ?_, ?_, fun more => (told.undisturbed more).trans failure, ?_, ?_, ?_⟩
  · rw [told.listener, listener, Option.map_map]
    exact congrArg (audience.listener.map ·) (funext fun listener => listener.toldCons solution _)
  · rw [told.sink, sink, Option.map_map]
    rfl
  · rw [told.reported, events, listener, sink]
    cases deaf : audience.listener.isNone && audience.sink.isNone <;> simp [deaf, Event.rows?]
  · intro more before first
    rw [first] at sink
    have here : (before.record solution).1 = none := by
      simpa [refusal, first] using Option.isNone_iff_eq_none.mp written
    have whole : before.texts (solution :: later.heard) =
        before.bytesFor solution ++ before.texts later.heard := List.flatMap_cons
    rw [whole, ← List.append_assoc, ← Sink.recordHeld here]
    exact told.written more _ sink
  · intro more before first prior start some
    rw [first] at listener heard
    cases prior with
    | nil => exact absurd rfl some
    | cons next prior =>
      obtain ⟨rfl, within⟩ := List.cons_prefix_cons.mp start
      by_cases last : prior = []
      · subst last
        exact heard
      · have later := told.wanted more _ listener prior within last
        rw [Listener.toldCons] at later
        exact later
  · intro more
    refine (told.stopped more).imp_right fun failed => ⟨fun none => failed.1 ?_, failed.2⟩
    rw [sink, none]
    rfl

end Told

theorem attendTold (audience : Audience) (solutions : List Solution) :
    Told audience (attend hear audience solutions) :=
  Attendance.induct Told.toldNothing (fun _ _ => Told.toldLast)
    (fun _ _ _ => Told.toldLater) audience solutions

theorem flushChanges (audience : Audience) :
    audience.flush.listener = audience.listener ∧ audience.flush.events = audience.events ∧
      audience.flush.sink = audience.sink.map (fun sink => sink.flush.2) ∧
      audience.flush.failure = audience.failure.or (audience.sink.bind fun sink => sink.flush.1) := by
  unfold flush
  cases written : audience.sink <;> simp [written]

end Audience

namespace Solver

variable {solver : Solver} {yield : Yield}

def attendance (solver : Solver) (yield : Yield) : Attendance Audience :=
  attend Audience.hear solver.opening yield.solutions

def audience (solver : Solver) (yield : Yield) : Audience :=
  ((solver.attendance yield).state.tell (.finished (solver.attendance yield).heard.length
    ((solver.attendance yield).work yield.work))).flush

theorem hasTold (solver : Solver) (yield : Yield) :
    solver.opening.Told (solver.attendance yield) := Audience.attendTold ..

theorem audienceListens (solver : Solver) (yield : Yield) : (solver.answered yield).solver.listener =
    solver.listener.map (·.told (solver.attendance yield).heard) :=
  (Audience.flushChanges _).1.trans (solver.hasTold yield).listener

theorem audienceEvents (solver : Solver) (yield : Yield) : (solver.answered yield).events =
    (solver.attendance yield).state.events.toList ++ [.finished (solver.attendance yield).heard.length
      ((solver.attendance yield).work yield.work)] := by
  have events : (solver.audience yield).events = _ := (Audience.flushChanges _).2.1
  refine (congrArg Array.toList events).trans ?_
  simp [Audience.tell]

theorem audienceRecords (solver : Solver) (yield : Yield) : (solver.answered yield).solver.sink =
    solver.sink.map fun sink => (sink.recorded (solver.attendance yield).heard).flush.2 := by
  have sink : (solver.answered yield).solver.sink =
      (solver.attendance yield).state.sink.map fun sink => sink.flush.2 := (Audience.flushChanges _).2.2.1
  rw [sink, (solver.hasTold yield).sink, Option.map_map]
  rfl

theorem audienceFails (solver : Solver) (yield : Yield) : (solver.audience yield).failure =
    (solver.attendance yield).state.failure.or (solver.sink.bind fun sink =>
      sink.writer.policy.refuseFlush sink.writer.flushes) := by
  have failure : (solver.audience yield).failure = (solver.attendance yield).state.failure.or
      ((solver.attendance yield).state.sink.bind fun sink => sink.flush.1) := (Audience.flushChanges _).2.2.2
  rw [failure, (solver.hasTold yield).sink]
  cases written : solver.sink <;> simp [opening, written, Sink.flushRecorded]

theorem reportedTold (solver : Solver) (yield : Yield) : (solver.answered yield).reported =
    if solver.listener.isNone && solver.sink.isNone then []
    else (solver.attendance yield).heard.map Solution.rows := by
  rw [Reply.reported, audienceEvents, List.filterMap_append, (solver.hasTold yield).reported]
  exact List.append_nil _

theorem hearsAll (unstopped : solver.Unstopped (solver.answered yield)) :
    (solver.attendance yield).more = true := by
  have told := solver.hasTold yield
  cases more : (solver.attendance yield).more with
  | true => rfl
  | false =>
    have heard : 0 < (solver.attendance yield).heard.length :=
      List.length_pos_iff.mpr (Attendance.heardSome more)
    have listener := solver.audienceListens yield
    rcases told.stopped more with ⟨after, listening, refused⟩ | ⟨-, event, raised, failed⟩
    · rw [show solver.listener.map (·.told (solver.attendance yield).heard) = some after from
        told.listener.symm.trans listening] at listener
      obtain ⟨before, first, same⟩ := Option.map_eq_some_iff.mp (told.listener.symm.trans listening)
      have kept : after.heard.size = before.heard.size + (solver.attendance yield).heard.length := by
        rw [← same, Listener.toldSize]
      have wanted := unstopped.wanted before after first listener after.heard.size (by omega)
        (Nat.le_refl _)
      rw [Array.take_eq_extract, Array.extract_size, show before.answer = after.answer from same ▸ rfl,
        refused] at wanted
      cases wanted
    · have quiet := unstopped.written event (by
        rw [audienceEvents]
        exact List.mem_append_left _ raised)
      rw [quiet] at failed
      cases failed

theorem deliversAll (goes : (solver.attendance yield).more = true) :
    (solver.answered yield).Delivers solver yield := by
  have all : (solver.attendance yield).heard = yield.solutions := Attendance.heardAll goes
  have told := solver.hasTold yield
  have listener := solver.audienceListens yield
  have sink := solver.audienceRecords yield
  rw [all] at listener sink
  refine ⟨?_, congrArg List.length all, Attendance.workMore goes yield.work, listener, sink,
    fun before written => ?_, ?_⟩
  · have failure : (solver.audience yield).failure = solver.sink.bind fun sink =>
        sink.writer.policy.refuseFlush sink.writer.flushes := by
      rw [audienceFails, told.undisturbed goes]
      rfl
    rw [← failure, ← all]
    rfl
  · have held := told.written goes before written
    rw [show (solver.attendance yield).heard = yield.solutions from all] at held
    rw [written] at sink
    exact ⟨_, sink, Sink.recordedReceived held⟩
  · rw [reportedTold, all]

theorem answeredDelivers (unstopped : solver.Unstopped (solver.answered yield)) :
    (solver.answered yield).Delivers solver yield := deliversAll (hearsAll unstopped)

theorem sinklessRefused (sinkless : solver.sink = none) (more : (solver.attendance yield).more = false) :
    ∃ listener, (solver.answered yield).solver.listener = some listener ∧
      listener.answer listener.heard = false := by
  rcases (solver.hasTold yield).stopped more with ⟨after, listening, refused⟩ | ⟨written, -⟩
  · exact ⟨after, (solver.audienceListens yield).trans
      ((solver.hasTold yield).listener.symm.trans listening), refused⟩
  · exact absurd sinkless written

theorem lastHeard (solver : Solver) (yield : Yield) (some : 0 < (solver.attendance yield).heard.length) :
    ∃ solution, yield.solutions[(solver.attendance yield).heard.length - 1]? = Option.some solution ∧
      (solver.attendance yield).heard.getLast? = Option.some solution := by
  have before : (solver.attendance yield).heard <+: yield.solutions := Attendance.heardPrefix _
  have inside : (solver.attendance yield).heard.length - 1 < (solver.attendance yield).heard.length :=
    Nat.sub_lt some Nat.one_pos
  refine ⟨_, List.prefix_iff_getElem?.mp before _ inside, ?_⟩
  rw [List.getLast?_eq_getElem?]
  exact List.getElem?_eq_getElem inside

theorem refusesLast {listener : Listener} {solution : Solution} (listening : solver.listener = some listener)
    (last : (solver.attendance yield).heard.getLast? = some solution)
    (refused : listener.answer (listener.told (solver.attendance yield).heard).heard = false) :
    (solver.answered yield).solver.removals = solution.removals := by
  cases more : (solver.attendance yield).more with
  | true =>
    have heard : (solver.attendance yield).heard ≠ [] := by
      intro none
      rw [none] at last
      cases last
    have wanted := (solver.hasTold yield).wanted more listener listening _ List.prefix_rfl heard
    rw [refused] at wanted
    cases wanted
  | false =>
    have work : (solver.answered yield).solver.removals = (solver.attendance yield).work yield.work := rfl
    rw [work, Attendance.work, more, last]
    rfl

end Solver

end DancingLinks
