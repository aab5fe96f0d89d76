import DancingLinks.Proofs.AbandonedSearch
import DancingLinks.Proofs.PacedSearch

/-! Searches end within their limits. Taking solutions one at a time is paced like searching for all of
them at once: the stages of a search that rests are as many as the sites of its path or one more, and below
each of them fewer primary columns are open, so the path is never longer than there are primary columns. -/
namespace DancingLinks

namespace Paced

def descend (search : Enumeration) : Except Fault (Option Solution × Enumeration) := do
  match ← search.position.torus.branchColumn search.byFewest with
  | none =>
    let position := search.position.countFound
    let solution ← position.solution
    return (some solution, { search with position })
  | some column =>
    let position ← coverFrom search.position column
    let head ← position.torus.headOf column
    let entry ← position.torus.follow head .down
    if entry = head then
      let position ← uncoverFrom position column
      return (none, { search with position })
    else
      return (none, { search with position, stack := ⟨column, head, entry, .ready⟩ :: search.stack })

def step (search : Enumeration) (frame : Frame) (below : List Frame) :
    Except Fault (Option Solution × Enumeration) := do
  match frame.phase with
  | .ready =>
    let position ← enter search.position frame.entry
    descend { search with position, stack := { frame with phase := .entered } :: below }
  | .entered =>
    let position ← leave search.position frame.entry
    let next ← position.torus.follow frame.entry .down
    if next = frame.head then
      let position ← uncoverFrom position frame.column
      return (none, { search with position, stack := below })
    else
      return (none,
        { search with position, stack := { frame with entry := next, phase := .ready } :: below })

def resume : Nat → Enumeration → Except Fault (Option Solution × Enumeration)
  | 0, _ => .error .endless
  | bound + 1, search =>
    match search.stack with
    | [] => return (none, search)
    | frame :: below => do
      match ← step search frame below with
      | (some solution, search) => return (some solution, search)
      | (none, search) => resume bound search

def next (search : Enumeration) : Except Fault (Option Solution × Enumeration) := do
  let bound := Enumeration.stepBound search.position.torus
  if search.started then resume bound search
  else
    match ← descend { search with started := true } with
    | (some solution, search) => return (some solution, search)
    | (none, search) => resume bound search

def calls : Nat → Enumeration → Except Fault (List (Option Solution) × Enumeration)
  | 0, search => return ([], search)
  | count + 1, search => do
    let (outcome, search) ← next search
    let (others, search) ← calls count search
    return (outcome :: others, search)

def undo (position : Position) (frame : Frame) : Except Fault Position := do
  let position ← match frame.phase with
    | .ready => pure position
    | .entered => do
      let torus ← uncoverRow position.torus frame.entry
      pure { position with torus, path := position.path.tail }
  uncoverFrom position frame.column

def close (solver : Solver) (search : Enumeration) : Except Fault (Solver × List Event) := do
  let position ← search.stack.foldlM undo search.position
  unless position.path.isEmpty do throw .lostPath
  let events := if search.isPending then
    [.abandoned search.position.depth search.position.found] else []
  return ({ solver with position }, events)

end Paced

variable {seat : Role → Site} {sheet : Sheet} {base torus : Torus} {roster : Roster} {byFewest : Bool}
  {search after : Enumeration} {outcome : Option Solution} {outcomes : List (Option Solution)}
  {frame : Frame} {below : List Frame} {path : List (Nat × Nat)} {stages : List Stage} {stage : Stage}
  {row column : Nat}

namespace Enumeration

theorem descendPath (done : search.descend = .ok (outcome, after)) :
    after.position.path = search.position.path := by
  obtain ⟨choice, -, done⟩ := bindOk.mp done
  cases choice with
  | none =>
    obtain ⟨solution, -, same⟩ := bindOk.mp done
    cases same
    rfl
  | some column =>
    obtain ⟨position, covers, done⟩ := bindOk.mp done
    obtain ⟨head, -, done⟩ := bindOk.mp done
    obtain ⟨entry, -, done⟩ := bindOk.mp done
    split at done
    · obtain ⟨last, uncovers, same⟩ := bindOk.mp done
      cases same
      exact (Position.uncoverPath uncovers).trans (Position.coverPath covers)
    · cases done
      exact Position.coverPath covers

theorem descendPaced (done : search.descend = .ok (outcome, after))
    (lanes : Lanes seat sheet search.position.torus) :
    Paced.descend search = .ok (outcome, after) ∧ Lanes seat sheet after.position.torus := by
  obtain ⟨choice, branches, done⟩ := bindOk.mp done
  cases choice with
  | none =>
    obtain ⟨solution, read, same⟩ := bindOk.mp done
    cases same
    refine ⟨?_, lanes⟩
    simp only [Paced.descend, branches, read, bind, Except.bind]
    rfl
  | some column =>
    obtain ⟨position, covers, done⟩ := bindOk.mp done
    obtain ⟨head, top, done⟩ := bindOk.mp done
    obtain ⟨entry, first, done⟩ := bindOk.mp done
    obtain ⟨covered, shut⟩ := Position.coverPaced covers lanes
    split at done
    · rename_i empty
      obtain ⟨last, uncovers, same⟩ := bindOk.mp done
      cases same
      obtain ⟨uncovered, back⟩ := Position.uncoverPaced uncovers shut
      refine ⟨?_, back⟩
      simp only [Paced.descend, branches, covered, top, first, empty, if_true, uncovered, bind, Except.bind]
      rfl
    · rename_i filled
      cases done
      refine ⟨?_, shut⟩
      simp only [Paced.descend, branches, covered, top, first, filled, if_false, bind, Except.bind]
      rfl

theorem stepPaced (done : search.step frame below = .ok (outcome, after))
    (lanes : Lanes seat sheet search.position.torus) (member : column ∈ sheet.columnsOf row)
    (own : frame.entry = seat (.entry row column))
    (room : after.position.depth ≤ search.position.torus.primaryCount) :
    Paced.step search frame below = .ok (outcome, after) ∧ Lanes seat sheet after.position.torus := by
  unfold Enumeration.step at done
  unfold Paced.step
  cases phase : frame.phase with
  | ready =>
    rw [phase] at done
    obtain ⟨position, enters, done⟩ := bindOk.mp done
    have path : after.position.path = frame.entry :: search.position.path :=
      (descendPath done).trans (Position.enterPath enters)
    rw [Position.depth, path, List.length_cons] at room
    rw [own] at enters
    obtain ⟨entered, deeper⟩ := Position.enterPaced enters lanes member room
    obtain ⟨descended, last⟩ := descendPaced done deeper
    refine ⟨?_, last⟩
    simp only [own, entered, bind, Except.bind]
    exact own ▸ descended
  | entered =>
    rw [phase] at done
    obtain ⟨position, leaves, done⟩ := bindOk.mp done
    obtain ⟨entry, next, done⟩ := bindOk.mp done
    rw [own] at leaves next
    obtain ⟨left, back⟩ := Position.leavePaced leaves lanes member
    split at done
    · rename_i ended
      obtain ⟨last, uncovers, same⟩ := bindOk.mp done
      cases same
      obtain ⟨uncovered, opened⟩ := Position.uncoverPaced uncovers back
      refine ⟨?_, opened⟩
      simp only [own, left, next, ended, if_true, uncovered, bind, Except.bind]
      rfl
    · rename_i onward
      cases done
      refine ⟨?_, back⟩
      simp only [own, left, next, onward, if_false, bind, Except.bind]
      rfl

end Enumeration

namespace Woven

theorem Entered.depthBounded (entered : Entered seat sheet base stages roster torus path) :
    path.length + roster.pending.length ≤ sheet.primaries.length := by
  induction entered with
  | root woven remains =>
    rw [remains.pending, List.length_nil, Nat.zero_add]
    exact List.length_filter_le _ _
  | @row _ roster _ _ column _ _ row _ work _ _ above closed split woven remains undo ih =>
    have fewer : (roster.commit sheet column row work).pending.length < roster.pending.length :=
      Roster.commitShortens closed.pending row work
    rw [List.length_cons]
    omega

theorem Suspended.depthBounded (suspended : Suspended seat sheet base byFewest search stages) :
    search.position.depth ≤ sheet.primaries.length := by
  cases suspended with
  | between entered work found started =>
    have shallow := entered.depthBounded
    rw [Position.depth, sitesOf, List.length_map]
    omega
  | choosing entered closed split work found started =>
    have shallow := entered.depthBounded
    rw [Position.depth, sitesOf, List.length_map]
    omega

theorem Entered.stageColumns (entered : Entered seat sheet base stages roster torus path)
    (sound : sheet.Sound) :
    ∀ stage ∈ stages, stage.column ∈ sheet.columnsOf stage.row := by
  induction entered with
  | root woven remains => simp
  | row above closed split woven remains undo ih =>
    obtain ⟨-, ⟨covered, former⟩, -⟩ := above.enteredWoven sound
    have live := split ▸ List.mem_append_right _ List.mem_cons_self
    exact List.forall_mem_cons.mpr ⟨former.within.liveMeets sound live, ih⟩

theorem Suspended.stageColumns (suspended : Suspended seat sheet base byFewest search stages)
    (sound : sheet.Sound) : ∀ stage ∈ stages, stage.column ∈ sheet.columnsOf stage.row := by
  cases suspended with
  | between entered work found started => exact entered.stageColumns sound
  | choosing entered closed split work found started =>
    obtain ⟨-, ⟨covered, former⟩, -⟩ := entered.enteredWoven sound
    have live := split ▸ List.mem_append_right _ List.mem_cons_self
    exact List.forall_mem_cons.mpr ⟨former.within.liveMeets sound live, entered.stageColumns sound⟩

structure Steady (seat : Role → Site) (sheet : Sheet) (base : Torus) (byFewest : Bool)
    (search : Enumeration) : Prop where
  lanes : Lanes seat sheet search.position.torus
  suspended : ∃ stages, Suspended seat sheet base byFewest search stages ∧
    (search.started = false → stages = [])

namespace Steady

theorem stepPaced (steady : Steady seat sheet base byFewest search) (sound : sheet.Sound)
    (stack : search.stack = frame :: below) (done : search.step frame below = .ok (outcome, after)) :
    Paced.step search frame below = .ok (outcome, after) ∧ Steady seat sheet base byFewest after := by
  obtain ⟨stages, suspended, fresh⟩ := steady.suspended
  obtain ⟨roster, woven⟩ := suspended.suspendedWoven sound
  rw [suspended.stackFrames.1] at stack
  cases stages with
  | nil => cases stack
  | cons stage above =>
    cases stack
    obtain ⟨outcome', after', stages', stepped, rests, started, -⟩ := suspended.stepSettles sound
    cases done.symm.trans stepped
    have member := suspended.stageColumns sound stage List.mem_cons_self
    have room : after.position.depth ≤ search.position.torus.primaryCount :=
      woven.primariesCounted ▸ rests.depthBounded
    obtain ⟨paced, lanes⟩ := Enumeration.stepPaced done steady.lanes member rfl room
    refine ⟨paced, lanes, stages', rests, fun idle => ?_⟩
    cases fresh (started.symm.trans idle)

theorem resumePaced {bound : Nat} (steady : Steady seat sheet base byFewest search) (sound : sheet.Sound)
    (done : Enumeration.resume bound search = .ok (outcome, after)) :
    Paced.resume bound search = .ok (outcome, after) ∧ Steady seat sheet base byFewest after := by
  induction bound generalizing search with
  | zero => cases done
  | succ bound ih =>
    unfold Enumeration.resume at done
    unfold Paced.resume
    cases stack : search.stack with
    | nil =>
      rw [stack] at done
      cases done
      exact ⟨rfl, steady⟩
    | cons frame below =>
      rw [stack] at done
      obtain ⟨⟨first, middle⟩, stepped, done⟩ := bindOk.mp done
      obtain ⟨paced, onward⟩ := steady.stepPaced sound stack stepped
      simp only [paced, bind, Except.bind]
      cases first with
      | none => exact ih onward done
      | some solution =>
        cases done
        exact ⟨rfl, onward⟩

theorem beginPaced (steady : Steady seat sheet base byFewest search) (sound : sheet.Sound)
    (idle : search.started = false)
    (done : Enumeration.descend { search with started := true } = .ok (outcome, after)) :
    Paced.descend { search with started := true } = .ok (outcome, after) ∧
      Steady seat sheet base byFewest after := by
  obtain ⟨paced, lanes⟩ := Enumeration.descendPaced done steady.lanes
  obtain ⟨stages, suspended, fresh⟩ := steady.suspended
  obtain rfl := fresh idle
  refine ⟨paced, lanes, ?_⟩
  cases suspended with
  | between entered work found started =>
    obtain ⟨_, _, stages, descends, rests, begun, -⟩ := entered.descendSettles sound byFewest work found true
    cases done.symm.trans descends
    exact ⟨stages, rests, fun idle => absurd (begun.symm.trans idle) Bool.true_eq_false.mp⟩

theorem nextPaced (steady : Steady seat sheet base byFewest search) (sound : sheet.Sound)
    (done : search.next = .ok (outcome, after)) :
    Paced.next search = .ok (outcome, after) ∧ Steady seat sheet base byFewest after := by
  unfold Enumeration.next at done
  unfold Paced.next
  dsimp only at done ⊢
  split at done
  · rename_i started
    rw [if_pos started]
    exact steady.resumePaced sound done
  · rename_i idle
    rw [if_neg idle]
    obtain ⟨⟨first, middle⟩, descends, done⟩ := bindOk.mp done
    obtain ⟨paced, onward⟩ := steady.beginPaced sound (Bool.eq_false_iff.mpr idle) descends
    simp only [paced, bind, Except.bind]
    cases first with
    | none => exact onward.resumePaced sound done
    | some solution =>
      cases done
      exact ⟨rfl, onward⟩

theorem callsPaced {count : Nat} (steady : Steady seat sheet base byFewest search) (sound : sheet.Sound)
    (done : search.calls count = .ok (outcomes, after)) :
    Paced.calls count search = .ok (outcomes, after) ∧ Steady seat sheet base byFewest after := by
  induction count generalizing search outcomes with
  | zero =>
    cases done
    exact ⟨rfl, steady⟩
  | succ count ih =>
    obtain ⟨⟨outcome, middle⟩, first, done⟩ := bindOk.mp done
    obtain ⟨⟨others, last⟩, later, same⟩ := bindOk.mp done
    cases same
    obtain ⟨asked, onward⟩ := steady.nextPaced sound first
    obtain ⟨further, still⟩ := ih onward later
    refine ⟨?_, still⟩
    simp only [Paced.calls, asked, further, bind, Except.bind]
    rfl

end Steady

end Woven

namespace Enumeration

variable {position last : Position}

theorem undoPaced (done : undo position frame = .ok last) (lanes : Lanes seat sheet position.torus)
    (member : column ∈ sheet.columnsOf row) (own : frame.entry = seat (.entry row column)) :
    Paced.undo position frame = .ok last ∧ Lanes seat sheet last.torus := by
  unfold undo at done
  unfold Paced.undo
  cases phase : frame.phase with
  | ready =>
    rw [phase] at done
    exact Position.uncoverPaced done lanes
  | entered =>
    rw [phase] at done
    obtain ⟨torus, rows, uncovers⟩ := bindOk.mp done
    rw [own] at rows
    obtain ⟨paced, redraws⟩ := lanes.uncoverRowPaced member rows
    simp only [own, paced, bind, Except.bind]
    exact Position.uncoverPaced uncovers redraws.lanes

theorem undoEachPaced {frames : List Frame} (done : frames.foldlM undo position = .ok last)
    (lanes : Lanes seat sheet position.torus)
    (members : ∀ frame ∈ frames, ∃ row column, column ∈ sheet.columnsOf row ∧
      frame.entry = seat (.entry row column)) : frames.foldlM Paced.undo position = .ok last := by
  induction frames generalizing position with
  | nil => exact done
  | cons frame rest ih =>
    rw [List.foldlM_cons] at done ⊢
    obtain ⟨middle, first, later⟩ := bindOk.mp done
    obtain ⟨row, column, member, own⟩ := members frame List.mem_cons_self
    obtain ⟨paced, back⟩ := undoPaced first lanes member own
    rw [paced]
    exact ih later back fun other inside => members other (List.mem_cons_of_mem _ inside)

end Enumeration

theorem Woven.Steady.closePaced {solver closed : Solver} {events : List Event}
    (steady : Woven.Steady seat sheet base byFewest search) (sound : sheet.Sound)
    (done : solver.close search = .ok (closed, events)) :
    Paced.close solver search = .ok (closed, events) := by
  obtain ⟨stages, suspended, -⟩ := steady.suspended
  obtain ⟨position, abandons, same⟩ := bindOk.mp done
  obtain ⟨last, undone, ends⟩ := bindOk.mp abandons
  have members : ∀ frame ∈ search.stack, ∃ row column, column ∈ sheet.columnsOf row ∧
      frame.entry = seat (.entry row column) := by
    rw [suspended.stackFrames.1]
    exact List.forall_mem_map.mpr fun stage inside =>
      ⟨stage.row, stage.column, suspended.stageColumns sound stage inside, rfl⟩
  have paced := Enumeration.undoEachPaced undone steady.lanes members
  simp only [Paced.close, paced, bind, Except.bind]
  split at ends
  · rename_i empty
    cases ends
    rw [if_pos empty]
    exact same
  · cases ends

/-- No search meets a limit: paced, each of them answers what it answers otherwise. A walk along a ring is
over after at most as many steps as the arena has sites, every branch has fewer primary columns open than
the branch above it, and the path is at no time longer than there are primary columns. -/
theorem searchesBounded {solver : Solver} (built : WellBuilt solver) :
    (∀ listener sink, ∃ reply, Solver.solve { solver with listener, sink } = .ok reply ∧
      Paced.solve { solver with listener, sink } = .ok reply) ∧
    ∀ count, ∃ outcomes search answer closed, solver.enumeration.calls count = .ok (outcomes, search) ∧
      Paced.calls count solver.enumeration = .ok (outcomes, search) ∧
      search.position.depth ≤ solver.torus.primaryCount ∧
      search.next = .ok answer ∧ Paced.next search = .ok answer ∧
      solver.close search = .ok closed ∧ Paced.close solver search = .ok closed := by
  obtain ⟨sheet, keeps⟩ := built.keepsSheet
  constructor
  · intro listener sink
    have told := keeps.keptForAudience listener sink
    have solved := Solver.solveAnswers told
    exact ⟨_, solved, told.solvesPaced.trans solved⟩
  · intro count
    obtain ⟨seat, resting, -⟩ := keeps.holds
    have remains := atRest sheet solver.torus.removals
    have entered := Woven.Entered.root resting.toWoven remains
    have steady : Woven.Steady seat sheet solver.torus solver.config.byFewest solver.enumeration :=
      ⟨(resting.restingLanes keeps.sound remains).withRemovals 0, [], .between entered 0 0 false, fun _ => rfl⟩
    have poised : Poised sheet solver.torus solver.config.byFewest solver.enumeration _ := .fresh
    obtain ⟨search, left, calls, poised, -⟩ := poised.callsAnswer keeps.sound keeps.holds count
    obtain ⟨outcome, after, -, next, -⟩ := poised.nextAnswers keeps.sound keeps.holds
    obtain ⟨events, closes⟩ := poised.closeAbandons
    obtain ⟨asked, steady⟩ := steady.callsPaced keeps.sound calls
    obtain ⟨stages, suspended, -⟩ := steady.suspended
    have shallow : search.position.depth ≤ solver.torus.primaryCount :=
      resting.toWoven.primariesCounted ▸ suspended.depthBounded
    exact ⟨_, search, _, _, calls, asked, shallow, next, (steady.nextPaced keeps.sound next).1, closes,
      steady.closePaced keeps.sound closes⟩

theorem choiceBounded :
    WellBuilt .choice ∧
      (∀ listener sink, ∃ reply, Solver.solve { Solver.choice with listener, sink } = .ok reply ∧
        Paced.solve { Solver.choice with listener, sink } = .ok reply) ∧
      ∃ outcomes search answer closed, Solver.choice.enumeration.calls 2 = .ok (outcomes, search) ∧
        Paced.calls 2 Solver.choice.enumeration = .ok (outcomes, search) ∧
        search.position.depth ≤ Solver.choice.torus.primaryCount ∧
        search.next = .ok answer ∧ Paced.next search = .ok answer ∧
        Solver.choice.close search = .ok closed ∧ Paced.close .choice search = .ok closed := by
  have built : WellBuilt .choice := ⟨_, _, Solver.choiceMade⟩
  obtain ⟨solves, enumerates⟩ := searchesBounded built
  exact ⟨built, solves, enumerates 2⟩

end DancingLinks
