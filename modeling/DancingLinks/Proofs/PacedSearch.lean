import DancingLinks.Proofs.SolveAnswers
import DancingLinks.Proofs.PacedWalks
import DancingLinks.Proofs.OrderlySearch

/-! Searching with paced walks, and with the depth watched. A row is entered only as long as the path has
fewer sites than there are primary columns, and a branch is explored only if fewer primary columns are open
there than at the branch above. A search never meets either limit, nor the end of a walk's steps: it answers
what the search without them answers. -/
namespace DancingLinks

def Torus.primaryCount (torus : Torus) : Nat := torus.columns.toList.countP Column.isPrimary

namespace Paced

def coverFrom (position : Position) (column : Nat) : Except Fault Position := do
  let torus ← cover position.torus column
  return { position with torus }

def uncoverFrom (position : Position) (column : Nat) : Except Fault Position := do
  let torus ← uncover position.torus column
  return { position with torus }

def enter (position : Position) (entry : Site) : Except Fault Position := do
  unless position.depth < position.torus.primaryCount do throw .endless
  let torus ← coverRow position.torus entry
  return { position with torus, path := entry :: position.path }

def leave (position : Position) (entry : Site) : Except Fault Position := do
  match position.path with
  | [] => throw .lostPath
  | latest :: earlier =>
    unless latest = entry do throw .lostPath
    let torus ← uncoverRow position.torus entry
    return { position with torus, path := earlier }

section
variable {α : Type}

def tryRows (descend : α → Position → Except Fault (Outcome α)) (head : Site) :
    Nat → Site → α → Position → Except Fault (Outcome α)
  | 0, _, _, _ => .error .endless
  | bound + 1, entry, state, position => do
    if entry = head then return ⟨state, position, true⟩
    let position ← enter position entry
    let outcome ← descend state position
    let position ← leave outcome.position entry
    if outcome.more then
      let next ← position.torus.follow entry .down
      tryRows descend head bound next outcome.state position
    else return ⟨outcome.state, position, false⟩

def explore (visit : α → Position → Except Fault (α × Bool)) (byFewest : Bool) (above : Nat) (state : α)
    (position : Position) : Except Fault (Outcome α) := do
  let opened ← position.torus.openColumns
  if _fewer : opened.length < above then
    match ← position.torus.branchColumn byFewest with
    | none =>
      let position := position.countFound
      let (state, more) ← visit state position
      return ⟨state, position, more⟩
    | some column =>
      let position ← coverFrom position column
      let head ← position.torus.headOf column
      let first ← position.torus.follow head .down
      let outcome ← tryRows (explore visit byFewest opened.length) head position.torus.cells.size first
        state position
      let position ← uncoverFrom outcome.position column
      return { outcome with position }
  else throw .endless
termination_by above

end

def solve (solver : Solver) : Except Fault (Reply Nat) := do
  let byFewest := solver.config.byFewest
  let opening := .searching solver.columnCount solver.rowCount byFewest
  let audience : Audience := ⟨solver.listener, solver.sink, none, #[opening], []⟩
  let start := solver.position.restart
  let outcome ← explore Audience.receive byFewest (start.torus.primaryCount + 1) audience start
  let position := outcome.position
  unless position.path.isEmpty do throw .lostPath
  let audience := outcome.state.tell (.finished position.found position.torus.removals)
  let audience := audience.flush
  let value := match audience.failure with
    | some reason => .error (.output reason)
    | none => .ok position.found
  let solver := { solver with position, listener := audience.listener, sink := audience.sink }
  return ⟨value, solver, audience.events.toList, audience.printed⟩

end Paced

variable {seat : Role → Site} {sheet : Sheet} {roster : Roster} {torus : Torus} {covered : List Nat}
  {row column : Nat} {position after : Position}

namespace Woven

theorem primariesCounted (woven : Woven seat sheet roster torus) :
    torus.primaryCount = sheet.primaries.length := by
  have marks : torus.columns.toList.map Column.isPrimary =
      (List.range sheet.columns.length).map sheet.isPrimary := by
    refine List.ext_getElem? fun index => ?_
    rw [List.getElem?_map, Array.getElem?_toList, List.getElem?_map]
    cases listed : torus.columns[index]? with
    | none =>
      have outside := Array.getElem?_eq_none_iff.mp listed
      rw [woven.width] at outside
      rw [List.getElem?_eq_none (by simpa using outside)]
      rfl
    | some header =>
      rw [List.getElem?_range (woven.listedKnown listed), Option.map_some, Option.map_some, Sheet.isPrimary,
        (woven.headers index header listed).1]
      rfl
  rw [Torus.primaryCount, Sheet.primaries, ← List.countP_eq_length_filter, ← Function.id_comp Column.isPrimary,
    ← List.countP_map, marks, List.countP_map]
  rfl

end Woven

namespace Position

theorem coverPaced (done : position.cover column = .ok after) (lanes : Lanes seat sheet position.torus) :
    Paced.coverFrom position column = .ok after ∧ Lanes seat sheet after.torus := by
  obtain ⟨torus, covers, same⟩ := bindOk.mp done
  cases same
  obtain ⟨paced, redraws⟩ := lanes.coverPaced covers
  refine ⟨?_, redraws.lanes⟩
  simp only [Paced.coverFrom, paced, bind, Except.bind]
  rfl

theorem uncoverPaced (done : position.uncover column = .ok after)
    (lanes : Lanes seat sheet position.torus) :
    Paced.uncoverFrom position column = .ok after ∧ Lanes seat sheet after.torus := by
  obtain ⟨torus, uncovers, same⟩ := bindOk.mp done
  cases same
  obtain ⟨paced, redraws⟩ := lanes.uncoverPaced uncovers
  refine ⟨?_, redraws.lanes⟩
  simp only [Paced.uncoverFrom, paced, bind, Except.bind]
  rfl

theorem enterPaced (done : position.enter (seat (.entry row column)) = .ok after)
    (lanes : Lanes seat sheet position.torus) (member : column ∈ sheet.columnsOf row)
    (room : position.depth < position.torus.primaryCount) :
    Paced.enter position (seat (.entry row column)) = .ok after ∧ Lanes seat sheet after.torus := by
  obtain ⟨torus, covers, same⟩ := bindOk.mp done
  cases same
  obtain ⟨paced, redraws⟩ := lanes.coverRowPaced member covers
  refine ⟨?_, redraws.lanes⟩
  simp only [Paced.enter, room, paced, bind, Except.bind]
  rfl

theorem leavePaced (done : position.leave (seat (.entry row column)) = .ok after)
    (lanes : Lanes seat sheet position.torus) (member : column ∈ sheet.columnsOf row) :
    Paced.leave position (seat (.entry row column)) = .ok after ∧ Lanes seat sheet after.torus := by
  unfold Position.leave at done
  unfold Paced.leave
  cases path : position.path with
  | nil =>
    rw [path] at done
    cases done
  | cons latest earlier =>
    rw [path] at done
    dsimp only at done
    split at done
    · rename_i last
      obtain ⟨torus, uncovers, same⟩ := bindOk.mp done
      cases same
      obtain ⟨paced, redraws⟩ := lanes.uncoverRowPaced member uncovers
      refine ⟨?_, redraws.lanes⟩
      simp only [last, paced, bind, Except.bind]
      rfl
    · cases done

end Position

namespace Woven

variable {α : Type} {visit : α → Position → Except Fault (α × Bool)} {hear : α → Solution → α × Bool}
  {descend paced : α → Position → Except Fault (Outcome α)} {byFewest : Bool} {bound : Nat}

theorem pacesRows (woven : Woven seat sheet roster torus) (lanes : Lanes seat sheet torus)
    (sound : sheet.Sound) (within : roster.Within sheet) (known : column < sheet.columns.length)
    {path : List Site} (room : path.length < torus.primaryCount) {before rows : List Nat}
    (split : roster.live column = before ++ rows)
    (each : ∀ row ∈ rows, ∀ state found work, ∃ inner outcome later count,
      (torus.withRemovals work).coverRow (seat (.entry row column)) = .ok inner ∧
      Torus.Reverts (·.uncoverRow (seat (.entry row column))) inner torus ∧
      descend state ⟨inner, seat (.entry row column) :: path, found⟩ = .ok outcome ∧
      outcome.position = ⟨inner.withRemovals later, seat (.entry row column) :: path, count⟩ ∧
      (Lanes seat sheet inner →
        paced state ⟨inner, seat (.entry row column) :: path, found⟩ = .ok outcome))
    (steps : Nat) (state : α) (found work : Nat) :
    Paced.tryRows paced (seat (.head column)) steps (siteAt seat column rows) state
        ⟨torus.withRemovals work, path, found⟩ =
      Search.tryRows descend (seat (.head column)) steps (siteAt seat column rows) state
        ⟨torus.withRemovals work, path, found⟩ := by
  induction rows generalizing before steps state found work with
  | nil =>
    cases steps with
    | zero => rfl
    | succ steps => simp only [Paced.tryRows, Search.tryRows, siteAt, if_true]
  | cons row rest ih =>
    cases steps with
    | zero => rfl
    | succ steps =>
      obtain ⟨inner, outcome, later, count, covers, undo, explored, there, alike⟩ :=
        each row List.mem_cons_self state found work
      have member := within.liveMeets sound (split ▸ List.mem_append_right _ List.mem_cons_self)
      have entered := Position.enterRead covers path found
      have left := Position.leaveRead undo later path count
      obtain ⟨enters, deeper⟩ := Position.enterPaced entered (lanes.withRemovals work) member room
      obtain ⟨leaves, -⟩ := Position.leavePaced left (Lanes.withRemovals deeper later) member
      have below := (woven.withRemovals later).downEntry sound within split
      have split' : roster.live column = (before ++ [row]) ++ rest := by simpa using split
      have others := ih split' (fun other inside => each other (List.mem_cons_of_mem _ inside)) steps
        outcome.state count later
      rw [siteAt, Paced.tryRows, Search.tryRows]
      simp only [if_neg (woven.entryApart member known), entered, enters, explored, alike deeper, there, left,
        leaves, below, others, bind, Except.bind]

def Paces (visit : α → Position → Except Fault (α × Bool)) (seat : Role → Site) (sheet : Sheet)
    (byFewest : Bool) (bound : Nat) : Prop :=
  ∀ {roster : Roster} {torus : Torus} {covered : List Nat} {path : List (Nat × Nat)},
    Woven seat sheet roster torus → roster.Remains sheet covered → Lanes seat sheet torus →
    (∀ entry ∈ path, entry.2 ∈ sheet.columnsOf entry.1) →
    path.length + roster.pending.length ≤ sheet.primaries.length → roster.pending.length < bound →
    ∀ above, roster.pending.length < above → ∀ state found,
      Paced.explore visit byFewest above state ⟨torus, sitesOf seat path, found⟩ =
        Search.explore visit byFewest bound state ⟨torus, sitesOf seat path, found⟩

theorem pacesBelow {shut : Torus} {closed : Nat} (tells : Tells visit hear seat sheet byFewest bound)
    (paces : Paces visit seat sheet byFewest bound)
    (held : Woven seat sheet { roster.cover sheet column with work := closed } shut)
    (sound : sheet.Sound) (remains : roster.Remains sheet covered) (pending : column ∈ roster.pending)
    {path : List (Nat × Nat)} (chosen : ∀ entry ∈ path, entry.2 ∈ sheet.columnsOf entry.1)
    (room : path.length + roster.pending.length ≤ sheet.primaries.length)
    (enough : roster.pending.length < bound + 1) (live : row ∈ roster.live column) (state : α)
    (found work : Nat) :
    ∃ inner outcome later count,
      (shut.withRemovals work).coverRow (seat (.entry row column)) = .ok inner ∧
      Torus.Reverts (·.uncoverRow (seat (.entry row column))) inner shut ∧
      Search.explore visit byFewest bound state
        ⟨inner, seat (.entry row column) :: sitesOf seat path, found⟩ = .ok outcome ∧
      outcome.position =
        ⟨inner.withRemovals later, seat (.entry row column) :: sitesOf seat path, count⟩ ∧
      (Lanes seat sheet inner → Paced.explore visit byFewest roster.pending.length state
        ⟨inner, seat (.entry row column) :: sitesOf seat path, found⟩ = .ok outcome) := by
  have outside := (remains.memPending.mp pending).2
  obtain ⟨inner, deeper, enters, woven, after, leaves⟩ := held.coverRowCommits sound remains outside live work
  have chosen' : ∀ entry ∈ (row, column) :: path, entry.2 ∈ sheet.columnsOf entry.1 :=
    List.forall_mem_cons.mpr ⟨remains.within.liveMeets sound live, chosen⟩
  have fewer : (roster.commit sheet column row work).pending.length < roster.pending.length :=
    Roster.commitShortens pending row work
  have enough' := Nat.lt_of_lt_of_le fewer (Nat.le_of_lt_succ enough)
  have room' : ((row, column) :: path).length + (roster.commit sheet column row work).pending.length ≤
      sheet.primaries.length := by
    rw [List.length_cons]
    omega
  have told := tells woven after chosen' enough' state found
  refine ⟨inner, _, _, _, enters, leaves, told, rfl, fun lanes => ?_⟩
  exact (paces woven after lanes chosen' room' enough' _ fewer state found).trans told

theorem explorePaced (visits : ∀ state position solution, position.solution = .ok solution →
      visit state position = .ok (hear state solution))
    (sound : sheet.Sound) (byFewest : Bool) (bound : Nat) : Paces visit seat sheet byFewest bound := by
  induction bound with
  | zero =>
    intro roster torus covered path woven remains lanes chosen room enough
    cases enough
  | succ bound ih =>
    intro roster torus covered path woven remains lanes chosen room enough above fewer state found
    have opens := woven.openColumnsRead remains
    have branches := woven.branchColumnRead remains byFewest
    rw [Paced.explore]
    cases choice : roster.branch byFewest with
    | none =>
      rw [choice] at branches
      simp only [Search.explore, opens, branches, fewer, dif_pos, bind, Except.bind]
    | some column =>
      rw [choice] at branches
      have pending := Roster.branchPending choice
      have outside := (remains.memPending.mp pending).2
      have known := pendingKnown remains pending
      obtain ⟨shut, covers, held, undo⟩ := woven.coverWoven sound remains known outside
      obtain ⟨-, -, -, head, -⟩ := held.headerOf known
      have first := held.downHead known
      have live : (roster.cover sheet column).live column = roster.live column := if_pos rfl
      have within := (remains.coverRemains sound outside).within
      have tells : Tells visit hear seat sheet byFewest bound := exploreTells visits sound byFewest bound
      have tried := held.triesRows sound within known (List.nil_append _).symm
        (fun row member => tellsBelow tells held sound remains pending chosen enough (live ▸ member))
        (held.liveRoom sound within known) state found (roster.cover sheet column).work
      have start := Position.coverRead covers (sitesOf seat path) found
      obtain ⟨shuts, closed⟩ := Position.coverPaced start lanes
      have shallow : (sitesOf seat path).length < shut.primaryCount := by
        have open_ := List.length_pos_of_mem pending
        rw [held.primariesCounted, sitesOf, List.length_map]
        omega
      have alike := held.pacesRows closed sound within known shallow (List.nil_append _).symm
        (fun row member => pacesBelow tells ih held sound remains pending chosen room enough (live ▸ member))
        shut.cells.size state found (roster.cover sheet column).work
      rw [held.workKept] at tried alike
      have opened := fun work count => Position.uncoverRead undo work (sitesOf seat path) count
      have reopened := fun work count =>
        (Position.uncoverPaced (opened work count) (Lanes.withRemovals closed work)).1
      simp only [Search.explore, opens, branches, fewer, dif_pos, shuts, start, head, first, alike, tried,
        Attendance.outcome, opened, reopened, bind, Except.bind]

end Woven

theorem Solver.Keeps.solvesPaced {solver : Solver} (keeps : solver.Keeps sheet) :
    Paced.solve solver = solver.solve := by
  obtain ⟨seat, resting, -⟩ := keeps.holds
  have remains := atRest sheet solver.torus.removals
  have woven : Woven seat sheet sheet.roster (solver.torus.withRemovals 0) :=
    resting.toWoven.withRemovals 0
  have lanes := (resting.restingLanes keeps.sound remains).withRemovals 0
  have empty : ∀ entry ∈ ([] : List (Nat × Nat)), entry.2 ∈ sheet.columnsOf entry.1 := by simp
  have paces : Woven.Paces Audience.receive seat sheet solver.config.byFewest solver.torus.cells.size :=
    Woven.explorePaced Audience.receiveHears keeps.sound solver.config.byFewest solver.torus.cells.size
  have open_ : sheet.roster.pending.length < (solver.torus.withRemovals 0).primaryCount + 1 :=
    Nat.lt_succ_of_le (Nat.le_of_eq woven.primariesCounted.symm)
  have alike := paces woven (Roster.Remains.ofSheet sheet) lanes empty (Nat.le_of_eq (Nat.zero_add _))
    (woven.pendingRoom (Roster.Remains.ofSheet sheet)) _ open_ solver.opening 0
  have whole : Paced.explore Audience.receive solver.config.byFewest
      (solver.position.restart.torus.primaryCount + 1) solver.opening solver.position.restart =
      Search.run Audience.receive solver.config.byFewest solver.opening solver.position.restart := alike
  simp only [Solver.opening] at whole
  unfold Paced.solve Solver.solve
  exact (congrArg (fun search => search >>= _) whole).trans rfl

end DancingLinks
