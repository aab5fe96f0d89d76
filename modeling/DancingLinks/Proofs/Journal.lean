import DancingLinks.Proofs.PartialEnumeration
import Mathlib.Control.Monad.Writer

/-! Searches that keep a journal of what they do to the arena: each column that is covered or uncovered,
and the arena as it is whenever a column to branch on is looked for. Every function here is the one of the
same name with notes taken on the way; without the journal it is that function. -/
namespace DancingLinks

inductive Deed where
  | branched (torus : Torus)
  | covered (column : Nat)
  | uncovered (column : Nat)

abbrev Journal (α : Type) : Type := WriterT (List Deed) (Except Fault) α

namespace Journal

variable {α β : Type}

/-- What is computed, without what is noted. -/
def plain (journal : Journal α) : Except Fault α := journal.run.map Prod.fst

@[simp] theorem plainPure (a : α) : plain (pure a) = pure a := by
  unfold plain
  rfl

@[simp] theorem plainTell (deeds : List Deed) : plain (tell deeds) = pure () := by
  unfold plain
  rfl

@[simp] theorem plainThrow (fault : Fault) : plain (throw fault : Journal α) = throw fault := by
  unfold plain
  rfl

@[simp] theorem plainLift (x : Except Fault α) : plain (monadLift x : Journal α) = x := by
  cases x <;> rfl

theorem runAnswers {journal : Journal α} {a : α} (answer : plain journal = .ok a) :
    ∃ deeds, journal.run = .ok (a, deeds) := by
  unfold plain at answer
  cases ran : journal.run with
  | error fault =>
    rw [ran] at answer
    cases answer
  | ok last =>
    rw [ran] at answer
    cases answer
    exact ⟨last.2, rfl⟩

theorem runBind (first : Journal α) (next : α → Journal β) :
    (first >>= next).run = first.run >>= fun answer =>
      (next answer.1).run.map fun later => (later.1, answer.2 ++ later.2) := rfl

@[simp] theorem plainBind (first : Journal α) (next : α → Journal β) :
    plain (first >>= next) = plain first >>= fun a => plain (next a) := by
  unfold plain
  rw [runBind]
  cases first.run with
  | error fault => rfl
  | ok answer =>
    show ((next answer.1).run.map fun later => (later.1, answer.2 ++ later.2)).map Prod.fst =
      (next answer.1).run.map Prod.fst
    cases (next answer.1).run <;> rfl

theorem plainEach {items : List β} {note : α → β → Journal α} {step : α → β → Except Fault α}
    (each : ∀ a b, plain (note a b) = step a b) (a : α) :
    plain (items.foldlM note a) = items.foldlM step a := by
  induction items generalizing a with
  | nil => rfl
  | cons item rest ih =>
    rw [List.foldlM_cons, List.foldlM_cons, plainBind, each]
    exact bind_congr ih

def cover (torus : Torus) (column : Nat) : Journal Torus := do
  tell [.covered column]
  torus.cover column

def uncover (torus : Torus) (column : Nat) : Journal Torus := do
  tell [.uncovered column]
  torus.uncover column

def coverAt (torus : Torus) (entry : Site) : Journal Torus := do
  let column ← torus.columnOf entry
  cover torus column

def uncoverAt (torus : Torus) (entry : Site) : Journal Torus := do
  let column ← torus.columnOf entry
  uncover torus column

def coverRow (torus : Torus) (entry : Site) : Journal Torus := do
  let others ← torus.ring entry .right
  others.foldlM coverAt torus

def uncoverRow (torus : Torus) (entry : Site) : Journal Torus := do
  let others ← torus.ring entry .left
  others.foldlM uncoverAt torus

def branchColumn (torus : Torus) (byFewest : Bool) : Journal (Option Nat) := do
  tell [.branched torus]
  torus.branchColumn byFewest

@[simp] theorem plainCover (torus : Torus) (column : Nat) :
    plain (cover torus column) = torus.cover column := by simp [cover]

@[simp] theorem plainUncover (torus : Torus) (column : Nat) :
    plain (uncover torus column) = torus.uncover column := by simp [uncover]

@[simp] theorem plainCoverAt (torus : Torus) (entry : Site) :
    plain (coverAt torus entry) = torus.coverAt entry := by simp [coverAt, Torus.coverAt]

@[simp] theorem plainUncoverAt (torus : Torus) (entry : Site) :
    plain (uncoverAt torus entry) = torus.uncoverAt entry := by simp [uncoverAt, Torus.uncoverAt]

@[simp] theorem plainCoverRow (torus : Torus) (entry : Site) :
    plain (coverRow torus entry) = torus.coverRow entry := by
  simp [coverRow, Torus.coverRow, plainEach plainCoverAt]

@[simp] theorem plainUncoverRow (torus : Torus) (entry : Site) :
    plain (uncoverRow torus entry) = torus.uncoverRow entry := by
  simp [uncoverRow, Torus.uncoverRow, plainEach plainUncoverAt]

@[simp] theorem plainBranch (torus : Torus) (byFewest : Bool) :
    plain (branchColumn torus byFewest) = torus.branchColumn byFewest := by
  simp [branchColumn]

def enter (position : Position) (entry : Site) : Journal Position := do
  let torus ← coverRow position.torus entry
  return { position with torus, path := entry :: position.path }

def leave (position : Position) (entry : Site) : Journal Position := do
  match position.path with
  | [] => throw .lostPath
  | latest :: earlier =>
    unless latest = entry do throw .lostPath
    let torus ← uncoverRow position.torus entry
    return { position with torus, path := earlier }

def coverFrom (position : Position) (column : Nat) : Journal Position := do
  let torus ← cover position.torus column
  return { position with torus }

def uncoverFrom (position : Position) (column : Nat) : Journal Position := do
  let torus ← uncover position.torus column
  return { position with torus }

@[simp] theorem plainEnter (position : Position) (entry : Site) :
    plain (enter position entry) = position.enter entry := by
  simp [enter, Position.enter]

@[simp] theorem plainCoverFrom (position : Position) (column : Nat) :
    plain (coverFrom position column) = position.cover column := by
  simp [coverFrom, Position.cover]

@[simp] theorem plainUncoverFrom (position : Position) (column : Nat) :
    plain (uncoverFrom position column) = position.uncover column := by
  simp [uncoverFrom, Position.uncover]

@[simp] theorem plainLeave (position : Position) (entry : Site) :
    plain (leave position entry) = position.leave entry := by
  unfold leave Position.leave
  cases position.path with
  | nil => rfl
  | cons latest earlier =>
    dsimp only
    split <;> simp

section
variable {visit : α → Position → Except Fault (α × Bool)}

def tryRows (descend : α → Position → Journal (Outcome α)) (head : Site) :
    Nat → Site → α → Position → Journal (Outcome α)
  | 0, _, _, _ => throw .endless
  | bound + 1, entry, state, position => do
    if entry = head then return ⟨state, position, true⟩
    let position ← enter position entry
    let outcome ← descend state position
    let position ← leave outcome.position entry
    if outcome.more then
      let next ← position.torus.follow entry .down
      tryRows descend head bound next outcome.state position
    else return ⟨outcome.state, position, false⟩

def explore (visit : α → Position → Except Fault (α × Bool)) (byFewest : Bool) :
    Nat → α → Position → Journal (Outcome α)
  | 0, _, _ => throw .endless
  | bound + 1, state, position => do
    match ← branchColumn position.torus byFewest with
    | none =>
      let position := position.countFound
      let (state, more) ← visit state position
      return ⟨state, position, more⟩
    | some column =>
      let position ← coverFrom position column
      let head ← position.torus.headOf column
      let first ← position.torus.follow head .down
      let outcome ← tryRows (explore visit byFewest bound) head position.torus.cells.size first
        state position
      let position ← uncoverFrom outcome.position column
      return { outcome with position }

theorem plainTries {descend : α → Position → Journal (Outcome α)}
    {descend' : α → Position → Except Fault (Outcome α)}
    (each : ∀ state position, plain (descend state position) = descend' state position)
    (head : Site) (bound : Nat) (entry : Site) (state : α) (position : Position) :
    plain (tryRows descend head bound entry state position) =
      Search.tryRows descend' head bound entry state position := by
  induction bound generalizing entry state position with
  | zero => rfl
  | succ bound ih =>
    unfold tryRows Search.tryRows
    split
    · rfl
    · simp only [plainBind, plainEnter, each, plainLeave]
      refine bind_congr fun position => bind_congr fun outcome => bind_congr fun position => ?_
      split
      · simp [ih]
      · rfl

theorem plainExplore (visit : α → Position → Except Fault (α × Bool)) (byFewest : Bool) (bound : Nat)
    (state : α) (position : Position) :
    plain (explore visit byFewest bound state position) =
      Search.explore visit byFewest bound state position := by
  induction bound generalizing state position with
  | zero => rfl
  | succ bound ih =>
    unfold explore Search.explore
    rw [plainBind, plainBranch]
    refine bind_congr fun choice => ?_
    cases choice with
    | none => simp
    | some column => simp [plainTries ih]

end

def solve (solver : Solver) : Journal (Reply Nat) := do
  let byFewest := solver.config.byFewest
  let opening := .searching solver.columnCount solver.rowCount byFewest
  let audience : Audience := ⟨solver.listener, solver.sink, none, #[opening], []⟩
  let start := solver.position.restart
  let outcome ← explore Audience.receive byFewest start.torus.cells.size audience start
  let position := outcome.position
  unless position.path.isEmpty do throw .lostPath
  let audience := outcome.state.tell (.finished position.found position.torus.removals)
  let audience := audience.flush
  let value := match audience.failure with
    | some reason => .error (.output reason)
    | none => .ok position.found
  let solver := { solver with position, listener := audience.listener, sink := audience.sink }
  return ⟨value, solver, audience.events.toList, audience.printed⟩

theorem plainSolve (solver : Solver) : plain (solve solver) = solver.solve := by
  simp only [solve, Solver.solve, Search.run, plainBind, plainExplore]
  refine bind_congr fun outcome => ?_
  split <;> rfl

def descend (search : Enumeration) : Journal (Option Solution × Enumeration) := do
  match ← branchColumn search.position.torus search.byFewest with
  | none =>
    let position := search.position.countFound
    let solution ← position.solution
    return (some solution, { search with position })
  | some column =>
    let position ← coverFrom search.position column
    let head ← position.torus.headOf column
    let entry ← position.torus.follow head .down
    if entry = head then
      let position ← uncoverFrom position column
      return (none, { search with position })
    else
      return (none, { search with position, stack := ⟨column, head, entry, .ready⟩ :: search.stack })

def step (search : Enumeration) (frame : Frame) (below : List Frame) :
    Journal (Option Solution × Enumeration) := do
  match frame.phase with
  | .ready =>
    let position ← enter search.position frame.entry
    descend { search with position, stack := { frame with phase := .entered } :: below }
  | .entered =>
    let position ← leave search.position frame.entry
    let next ← position.torus.follow frame.entry .down
    if next = frame.head then
      let position ← uncoverFrom position frame.column
      return (none, { search with position, stack := below })
    else
      return (none,
        { search with position, stack := { frame with entry := next, phase := .ready } :: below })

def resume : Nat → Enumeration → Journal (Option Solution × Enumeration)
  | 0, _ => throw .endless
  | bound + 1, search =>
    match search.stack with
    | [] => return (none, search)
    | frame :: below => do
      match ← step search frame below with
      | (some solution, search) => return (some solution, search)
      | (none, search) => resume bound search

def next (search : Enumeration) : Journal (Option Solution × Enumeration) := do
  let bound := Enumeration.stepBound search.position.torus
  if search.started then resume bound search
  else
    match ← descend { search with started := true } with
    | (some solution, search) => return (some solution, search)
    | (none, search) => resume bound search

def calls : Nat → Enumeration → Journal (List (Option Solution) × Enumeration)
  | 0, search => return ([], search)
  | count + 1, search => do
    let (outcome, search) ← next search
    let (others, search) ← calls count search
    return (outcome :: others, search)

def undo (position : Position) (frame : Frame) : Journal Position := do
  let position ← match frame.phase with
    | .ready => pure position
    | .entered => do
      let torus ← uncoverRow position.torus frame.entry
      pure { position with torus, path := position.path.tail }
  uncoverFrom position frame.column

def abandon (search : Enumeration) : Journal Position := do
  let position ← search.stack.foldlM undo search.position
  unless position.path.isEmpty do throw .lostPath
  return position

def close (solver : Solver) (search : Enumeration) : Journal (Solver × List Event) := do
  let position ← abandon search
  let events := if search.isPending then
    [.abandoned search.position.depth search.position.found] else []
  return ({ solver with position }, events)

theorem plainDescend (search : Enumeration) : plain (descend search) = search.descend := by
  unfold descend Enumeration.descend
  rw [plainBind, plainBranch]
  refine bind_congr fun choice => ?_
  cases choice with
  | none => simp
  | some column =>
    simp only [plainBind, plainCoverFrom, plainLift]
    refine bind_congr fun position => bind_congr fun head => bind_congr fun entry => ?_
    split <;> simp

theorem plainStep (search : Enumeration) (frame : Frame) (below : List Frame) :
    plain (step search frame below) = search.step frame below := by
  unfold step Enumeration.step
  cases frame.phase with
  | ready => simp [plainDescend]
  | entered =>
    simp only [plainBind, plainLeave, plainLift]
    refine bind_congr fun position => bind_congr fun next => ?_
    split <;> simp

theorem plainResume (bound : Nat) (search : Enumeration) :
    plain (resume bound search) = Enumeration.resume bound search := by
  induction bound generalizing search with
  | zero => rfl
  | succ bound ih =>
    unfold resume Enumeration.resume
    cases search.stack with
    | nil => rfl
    | cons frame below =>
      rw [plainBind, plainStep]
      refine bind_congr fun answer => ?_
      obtain ⟨outcome, search⟩ := answer
      cases outcome with
      | none => exact ih search
      | some solution => rfl

theorem plainNext (search : Enumeration) : plain (next search) = search.next := by
  unfold next Enumeration.next
  dsimp only
  split
  · exact plainResume _ search
  · rw [plainBind, plainDescend]
    refine bind_congr fun answer => ?_
    obtain ⟨outcome, search⟩ := answer
    cases outcome with
    | none => exact plainResume _ search
    | some solution => rfl

theorem plainCalls (count : Nat) (search : Enumeration) :
    plain (calls count search) = search.calls count := by
  induction count generalizing search with
  | zero => rfl
  | succ count ih =>
    unfold calls Enumeration.calls
    simp [plainNext, ih]

theorem plainUndo (position : Position) (frame : Frame) :
    plain (undo position frame) = Enumeration.undo position frame := by
  unfold undo Enumeration.undo
  cases frame.phase <;> simp

theorem plainClose (solver : Solver) (search : Enumeration) :
    plain (close solver search) = solver.close search := by
  have abandons : plain (abandon search) = search.abandon := by
    unfold abandon Enumeration.abandon
    rw [plainBind, plainEach plainUndo]
    refine bind_congr fun position => ?_
    split <;> rfl
  unfold close Solver.close
  simp [abandons]

end Journal
end DancingLinks
