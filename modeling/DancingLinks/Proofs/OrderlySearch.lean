import DancingLinks.Proofs.SolveAnswers
import DancingLinks.Proofs.OrderlyCovers

/-! No search corrupts the arena that it works on. What a search does is followed along its journal: at
every point the arena holds the roster of the columns covered there, so the next column to cover is not
covered and the next one to uncover is the latest. A search that rests between two solutions has the
columns of its stages covered, and undoing the stages uncovers them. -/
namespace DancingLinks
open Journal

theorem Position.enterRead {torus inner : Torus} {site : Site} (enters : torus.coverRow site = .ok inner)
    (path : List Site) (found : Nat) :
    Position.enter ⟨torus, path, found⟩ site = .ok ⟨inner, site :: path, found⟩ := by
  simp only [Position.enter, enters, bind, Except.bind]
  rfl

theorem Position.coverRead {torus shut : Torus} {column : Nat} (covers : torus.cover column = .ok shut)
    (path : List Site) (found : Nat) :
    Position.cover ⟨torus, path, found⟩ column = .ok ⟨shut, path, found⟩ := by
  simp only [Position.cover, covers, bind, Except.bind]
  rfl

namespace Journal

variable {covered now : List Nat} {torus : Torus} {site : Site}

theorem enterLeads (rows : Leads covered (coverRow torus site) fun _ after => after = now)
    (path : List Site) (found : Nat) :
    Leads covered (enter ⟨torus, path, found⟩ site) fun _ after => after = now :=
  rows.leadsBind fun _ _ _ same => .leadsPure same

theorem leaveLeads (rows : Leads covered (uncoverRow torus site) fun _ after => after = now)
    (path : List Site) (found : Nat) :
    Leads covered (leave ⟨torus, site :: path, found⟩ site) fun _ after => after = now := by
  unfold leave
  dsimp only
  rw [if_pos rfl]
  exact rows.leadsBind fun _ _ _ same => .leadsPure same

theorem coverFromLeads {column : Nat} (position : Position) (fresh : column ∉ covered) :
    Leads covered (coverFrom position column) fun _ after => after = column :: covered :=
  (coverLeads position.torus fresh).leadsBind fun _ _ _ same => .leadsPure same

theorem uncoverFromLeads (position : Position) (column : Nat) (covered : List Nat) :
    Leads (column :: covered) (uncoverFrom position column) fun _ after => after = covered :=
  (uncoverLeads position.torus column covered).leadsBind fun _ _ _ same => .leadsPure same

end Journal

namespace Woven

variable {seat : Role → Site} {sheet : Sheet} {roster : Roster} {torus shut inner base : Torus}
  {covered : List Nat} {row column : Nat}

section
variable {α β : Type} {descend : α → Position → Journal (Outcome α)} {path : List Site}
  {next : Position → Journal β} {wanted : β → List Nat → Prop}

theorem Closed.reopenLeads (closed : Closed seat sheet roster torus column shut) (work found : Nat)
    (later : Leads covered (next ⟨torus.withRemovals work, path, found⟩) wanted) :
    Leads (column :: covered) (uncoverFrom ⟨shut.withRemovals work, path, found⟩ column >>= next) wanted :=
  (uncoverFromLeads _ column covered).exactThen
    ((plainUncoverFrom ..).trans (Position.uncoverRead closed.undo work path found)) later

theorem Closed.topRead (closed : Closed seat sheet roster torus column shut)
    (remains : roster.Remains sheet covered) (work : Nat) :
    (shut.withRemovals work).headOf column = .ok (seat (.head column)) ∧
      (shut.withRemovals work).follow (seat (.head column)) .down =
        .ok (siteAt seat column (roster.live column)) := by
  have known := pendingKnown remains closed.pending
  obtain ⟨closedWork, held⟩ := closed.woven
  have held := held.withRemovals work
  obtain ⟨-, -, -, head, -⟩ := held.headerOf known
  have first := held.downHead known
  rw [show (roster.cover sheet column).live column = roster.live column from if_pos rfl] at first
  exact ⟨head, first⟩

theorem Closed.belowRead (closed : Closed seat sheet roster torus column shut) (sound : sheet.Sound)
    (remains : roster.Remains sheet covered) {before rest : List Nat}
    (split : roster.live column = before ++ row :: rest) (work : Nat) :
    (shut.withRemovals work).follow (seat (.entry row column)) .down = .ok (siteAt seat column rest) := by
  obtain ⟨closedWork, held⟩ := closed.woven
  have outside := (remains.memPending.mp closed.pending).2
  have whole : (roster.cover sheet column).live column = before ++ row :: rest := (if_pos rfl).trans split
  exact (held.withRemovals work).downEntry sound (remains.coverRemains sound outside).within whole

theorem Closed.enterRowLeads (closed : Closed seat sheet roster torus column shut) (sound : sheet.Sound)
    (remains : roster.Remains sheet covered) (live : row ∈ roster.live column) (work found : Nat) :
    ∃ inner, Woven seat sheet (roster.commit sheet column row work) inner ∧
      Torus.Reverts (·.uncoverRow (seat (.entry row column))) inner shut ∧
      ∀ {β : Type} {next : Position → Journal β} {wanted : β → List Nat → Prop},
        Leads ((beyond column (sheet.columnsOf row)).reverse ++ column :: covered)
          (next ⟨inner, seat (.entry row column) :: path, found⟩) wanted →
        Leads (column :: covered)
          (enter ⟨shut.withRemovals work, path, found⟩ (seat (.entry row column)) >>= next) wanted := by
  have outside := (remains.memPending.mp closed.pending).2
  obtain ⟨closedWork, held⟩ := closed.woven
  obtain ⟨inner, -, enters, woven, -, undo⟩ := held.coverRowCommits sound remains outside live work
  have rows := (held.withRemovals work).coverRowLeads sound (remains.within.liveMeets sound live)
    (remains.beyondFree sound outside live)
  refine ⟨inner, woven, undo, fun later => ?_⟩
  exact (enterLeads rows path found).exactThen
    ((plainEnter ..).trans (Position.enterRead enters path found)) later

theorem leaveRowLeads (woven : Woven seat sheet roster inner) (sound : sheet.Sound)
    (member : column ∈ sheet.columnsOf row)
    (undo : Torus.Reverts (·.uncoverRow (seat (.entry row column))) inner shut) (work found : Nat)
    (later : Leads covered (next ⟨shut.withRemovals work, path, found⟩) wanted) :
    Leads ((beyond column (sheet.columnsOf row)).reverse ++ covered)
      (leave ⟨inner.withRemovals work, seat (.entry row column) :: path, found⟩
        (seat (.entry row column)) >>= next) wanted :=
  (leaveLeads ((woven.withRemovals work).uncoverRowLeads sound member covered) path found).exactThen
    ((plainLeave ..).trans (Position.leaveRead undo work path found)) later

def Returns (torus : Torus) (path : List Site) (covered : List Nat) (outcome : Outcome α)
    (now : List Nat) : Prop :=
  now = covered ∧ ∃ work found, outcome.position = ⟨torus.withRemovals work, path, found⟩

def LeadsBack (seat : Role → Site) (sheet : Sheet) (descend : α → Position → Journal (Outcome α)) : Prop :=
  ∀ {roster : Roster} {torus : Torus} {covered : List Nat}, Woven seat sheet roster torus →
    roster.Remains sheet covered → ∀ state path found,
      Leads covered (descend state ⟨torus, path, found⟩) (Returns torus path covered)

theorem rowsLead (leadsBack : LeadsBack seat sheet descend)
    (closed : Closed seat sheet roster torus column shut) (woven : Woven seat sheet roster torus)
    (sound : sheet.Sound) (remains : roster.Remains sheet covered) {before rows : List Nat}
    (split : roster.live column = before ++ rows) (bound : Nat) (state : α) (path : List Site)
    (work found : Nat) :
    Leads (column :: covered)
      (tryRows descend (seat (.head column)) bound (siteAt seat column rows) state
        ⟨shut.withRemovals work, path, found⟩) (Returns shut path (column :: covered)) := by
  induction rows generalizing before bound state work found with
  | nil =>
    cases bound with
    | zero => exact .leadsThrow _
    | succ bound =>
      rw [siteAt, tryRows, if_pos rfl]
      exact .leadsPure ⟨rfl, work, found, rfl⟩
  | cons row rest ih =>
    cases bound with
    | zero => exact .leadsThrow _
    | succ bound =>
      have outside := (remains.memPending.mp closed.pending).2
      have live : row ∈ roster.live column := split ▸ List.mem_append_right _ List.mem_cons_self
      have member := remains.within.liveMeets sound live
      have split' : roster.live column = (before ++ [row]) ++ rest := by simpa using split
      rw [siteAt, tryRows, if_neg (woven.entryApart member (pendingKnown remains closed.pending))]
      obtain ⟨inner, committed, undo, enters⟩ := closed.enterRowLeads sound remains live work found
      refine enters ?_
      have deeper := remains.commitRemainsReversed sound outside live work
      refine (leadsBack committed deeper state _ found).leadsBind fun outcome now _ back => ?_
      obtain ⟨same, later, count, there⟩ := back
      subst same
      rw [there]
      refine committed.leaveRowLeads sound member undo later count ?_
      split
      · exact .knownThen (closed.belowRead sound remains split later) (ih split' bound _ later count)
      · exact .leadsPure ⟨rfl, later, count, rfl⟩

theorem exploreLeads (visit : α → Position → Except Fault (α × Bool)) (sound : sheet.Sound)
    (byFewest : Bool) (bound : Nat) : LeadsBack seat sheet (explore visit byFewest bound) := by
  -- on the bound, which is the depth left; that it suffices is known already and not needed here
  induction bound with
  | zero =>
    intro roster torus covered woven remains state path found
    exact .leadsThrow _
  | succ bound ih =>
    intro roster torus covered woven remains state path found
    refine (branchLeads (woven.wovenSized sound remains.within) byFewest covered).exactThen
      ((plainBranch ..).trans (woven.branchColumnRead remains byFewest)) ?_
    cases choice : roster.branch byFewest with
    | none => exact .readThen fun answer told => .leadsPure ⟨rfl, torus.removals, found + 1, rfl⟩
    | some column =>
      have pending : column ∈ roster.pending := Roster.branchPending choice
      obtain ⟨shut, covers, -, closed⟩ := woven.coverCloses sound remains pending torus.removals
      obtain ⟨head, first⟩ := closed.topRead remains shut.removals
      have whole : roster.live column = [] ++ roster.live column := rfl
      refine (coverFromLeads _ (remains.memPending.mp pending).2).exactThen
        ((plainCoverFrom ..).trans (Position.coverRead covers path found)) ?_
      refine .knownThen head (.knownThen first ?_)
      refine (rowsLead ih closed woven sound remains whole _ state path shut.removals found).leadsBind
        fun outcome now _ back => ?_
      obtain ⟨same, work, count, there⟩ := back
      subst same
      rw [there]
      exact closed.reopenLeads work count (.leadsPure ⟨rfl, work, count, rfl⟩)

end

end Woven

def Stage.covers (sheet : Sheet) : List Stage → List Nat
  | [] => []
  | stage :: above =>
    match stage.phase with
    | .ready => stage.column :: covers sheet above
    | .entered =>
      (beyond stage.column (sheet.columnsOf stage.row)).reverse ++ stage.column :: covers sheet above

namespace Woven

variable {seat : Role → Site} {sheet : Sheet} {base torus : Torus} {roster : Roster} {byFewest : Bool}
  {path : List (Nat × Nat)} {stages : List Stage} {stage : Stage} {search : Enumeration}

def Rests {α : Type} (seat : Role → Site) (sheet : Sheet) (base : Torus) (byFewest started : Bool)
    (answer : α × Enumeration) (now : List Nat) : Prop :=
  ∃ stages, Suspended seat sheet base byFewest answer.2 stages ∧ answer.2.started = started ∧
    now = Stage.covers sheet stages

theorem Entered.coveredRemains (entered : Entered seat sheet base stages roster torus path)
    (sound : sheet.Sound) :
    roster.Remains sheet (Stage.covers sheet stages) := by
  induction entered with
  | root woven remains => exact remains
  | row above closed split woven remains undo ih =>
    have live := split ▸ List.mem_append_right _ List.mem_cons_self
    exact ih.commitRemainsReversed sound (ih.memPending.mp closed.pending).2 live _

theorem Entered.descendLeads (entered : Entered seat sheet base stages roster torus path)
    (sound : sheet.Sound) (byFewest : Bool) (work found : Nat) (started : Bool) :
    Leads (Stage.covers sheet stages)
      (Journal.descend ⟨⟨torus.withRemovals work, sitesOf seat path, found⟩, byFewest,
        stages.map (Stage.frame seat), started⟩) (Rests seat sheet base byFewest started) := by
  have woven := (entered.enteredWoven sound).1
  have remains := entered.coveredRemains sound
  have counted := woven.withRemovals work
  refine (branchLeads (counted.wovenSized sound remains.within) byFewest _).exactThen
    ((plainBranch ..).trans (counted.branchColumnRead (remains.withWork work) byFewest)) ?_
  cases choice : ({ roster with work } : Roster).branch byFewest with
  | none =>
    exact .readThen fun solution _ => .leadsPure ⟨stages, .between entered work (found + 1) started, rfl, rfl⟩
  | some column =>
    have pending : column ∈ roster.pending := Roster.branchPending choice
    obtain ⟨shut, covers, -, closed⟩ := woven.coverCloses sound remains pending work
    obtain ⟨head, first⟩ := closed.topRead remains shut.removals
    refine (coverFromLeads _ (remains.memPending.mp pending).2).exactThen
      ((plainCoverFrom ..).trans (Position.coverRead covers (sitesOf seat path) found)) ?_
    refine .knownThen head (.knownThen first ?_)
    cases split : roster.live column with
    | nil =>
      rw [siteAt, if_pos rfl]
      exact closed.reopenLeads shut.removals found
        (.leadsPure ⟨stages, .between entered shut.removals found started, rfl, rfl⟩)
    | cons row rest =>
      have member := remains.within.liveMeets sound (split ▸ List.mem_cons_self)
      have whole : roster.live column = [] ++ row :: rest := split
      rw [siteAt, if_neg (woven.entryApart member (pendingKnown remains pending))]
      exact .leadsPure ⟨_, .choosing entered closed whole shut.removals found started, rfl, rfl⟩

theorem Suspended.stepLeads (suspended : Suspended seat sheet base byFewest search (stage :: stages))
    (sound : sheet.Sound) :
    Leads (Stage.covers sheet (stage :: stages))
      (Journal.step search (stage.frame seat) (stages.map (Stage.frame seat)))
      (Rests seat sheet base byFewest search.started) := by
  cases suspended with
  | choosing above closed split work found started =>
    have remains := above.coveredRemains sound
    have live := split ▸ List.mem_append_right _ List.mem_cons_self
    obtain ⟨inner, committed, undo, enters⟩ := closed.enterRowLeads sound remains live work found
    have outside := (remains.memPending.mp closed.pending).2
    have chosen := Entered.row above closed split committed
      (remains.commitRemainsReversed sound outside live work) undo
    exact enters (chosen.descendLeads sound byFewest inner.removals found started)
  | between entered work found started =>
    cases entered with
    | @row _ roster torus path column shut before row rest _ inner _ above closed split woven _ undo =>
      have remains := above.coveredRemains sound
      have live : row ∈ roster.live column := split ▸ List.mem_append_right _ List.mem_cons_self
      refine woven.leaveRowLeads sound (remains.within.liveMeets sound live) undo work found ?_
      refine .knownThen (closed.belowRead sound remains split work) ?_
      cases rest with
      | nil =>
        rw [siteAt, Stage.frame, if_pos rfl]
        exact closed.reopenLeads work found (.leadsPure ⟨stages, .between above work found started, rfl, rfl⟩)
      | cons next rest =>
        have split' : roster.live column = (before ++ [row]) ++ next :: rest := by simpa using split
        have there := remains.within.liveMeets sound (split' ▸ List.mem_append_right _ List.mem_cons_self)
        have apart := (above.enteredWoven sound).1.entryApart there (pendingKnown remains closed.pending)
        rw [siteAt, Stage.frame, if_neg apart]
        exact .leadsPure ⟨_, .choosing above closed split' work found started, rfl, rfl⟩

namespace Suspended

theorem resumeLeads (suspended : Suspended seat sheet base byFewest search stages) (sound : sheet.Sound)
    (bound : Nat) :
    Leads (Stage.covers sheet stages) (Journal.resume bound search)
      (Rests seat sheet base byFewest search.started) := by
  induction bound generalizing search stages with
  | zero => exact .leadsThrow _
  | succ bound ih =>
    have stack := suspended.stackFrames.1
    cases stages with
    | nil =>
      rw [Journal.resume, stack]
      exact .leadsPure ⟨[], suspended, rfl, rfl⟩
    | cons stage above =>
      rw [Journal.resume, stack]
      refine (suspended.stepLeads sound).leadsBind fun answer now _ rests => ?_
      obtain ⟨outcome, next⟩ := answer
      obtain ⟨stages, rests, started, same⟩ := rests
      subst same
      cases outcome with
      | some solution => exact .leadsPure ⟨stages, rests, started, rfl⟩
      | none => exact started ▸ ih rests

theorem nextLeads (suspended : Suspended seat sheet base byFewest search stages) (sound : sheet.Sound)
    (fresh : search.started = false → stages = []) :
    Leads (Stage.covers sheet stages) (Journal.next search) (Rests seat sheet base byFewest true) := by
  unfold Journal.next
  dsimp only
  split
  · rename_i started
    exact started ▸ suspended.resumeLeads sound _
  · rename_i idle
    have none := fresh (Bool.eq_false_iff.mpr idle)
    subst none
    cases suspended with
    | between entered work found started =>
      refine (entered.descendLeads sound byFewest work found true).leadsBind fun answer now _ rests => ?_
      obtain ⟨outcome, next⟩ := answer
      obtain ⟨stages, rests, started, same⟩ := rests
      subst same
      cases outcome with
      | some solution => exact .leadsPure ⟨stages, rests, started, rfl⟩
      | none => exact started ▸ rests.resumeLeads sound _

theorem callsLead (suspended : Suspended seat sheet base byFewest search stages) (sound : sheet.Sound)
    (fresh : search.started = false → stages = []) (count : Nat) :
    Leads (Stage.covers sheet stages) (Journal.calls count search) fun answer now =>
      ∃ started, Rests seat sheet base byFewest started answer now := by
  induction count generalizing search stages with
  | zero => exact .leadsPure ⟨_, stages, suspended, rfl, rfl⟩
  | succ count ih =>
    refine (suspended.nextLeads sound fresh).leadsBind fun answer now _ rests => ?_
    obtain ⟨outcome, next⟩ := answer
    obtain ⟨stages, rests, started, same⟩ := rests
    subst same
    refine (ih rests fun idle => ?_).leadsBind fun others now _ rests => .leadsPure rests
    cases started.symm.trans idle

end Suspended

theorem Entered.undoLeads (entered : Entered seat sheet base stages roster torus path)
    (sound : sheet.Sound) (work found : Nat) :
    Leads (Stage.covers sheet stages)
      ((stages.map (Stage.frame seat)).foldlM Journal.undo
        ⟨torus.withRemovals work, sitesOf seat path, found⟩) fun _ now => now = [] := by
  induction entered with
  | root woven remains => exact .leadsPure rfl
  | @row stages roster torus path column shut before row rest _ inner _ above closed split woven _ undo
      ih =>
    have remains := above.coveredRemains sound
    have live : row ∈ roster.live column := split ▸ List.mem_append_right _ List.mem_cons_self
    have rows := (woven.withRemovals work).uncoverRowLeads sound (remains.within.liveMeets sound live)
      (column :: Stage.covers sheet stages)
    have undoing : Leads (Stage.covers sheet (⟨roster, column, path, row, rest, .entered⟩ :: stages))
        (Journal.undo ⟨inner.withRemovals work, sitesOf seat ((row, column) :: path), found⟩
          (Stage.frame seat ⟨roster, column, path, row, rest, .entered⟩)) fun _ now =>
        now = Stage.covers sheet stages := by
      refine rows.leadsBind fun torus now _ same => .pureThen ?_
      subst same
      exact uncoverFromLeads _ column _
    rw [List.map_cons, List.foldlM_cons]
    exact undoing.exactThen ((plainUndo ..).trans (closed.undoEntered undo path rest work found)) ih

theorem Suspended.closeLeads {solver : Solver}
    (suspended : Suspended seat sheet base byFewest search stages) (sound : sheet.Sound) :
    Leads (Stage.covers sheet stages) (Journal.close solver search) fun _ now => now = [] := by
  have undoing : Leads (Stage.covers sheet stages) (search.stack.foldlM Journal.undo search.position)
      fun _ now => now = [] := by
    cases suspended with
    | between entered work found started => exact entered.undoLeads sound work found
    | @choosing stages roster torus path column shut before row rest above closed split work found =>
      have opens := Position.uncoverRead closed.undo work (sitesOf seat path) found
      have undoing : Leads (column :: Stage.covers sheet stages)
          (Journal.undo ⟨shut.withRemovals work, sitesOf seat path, found⟩
            (Stage.frame seat ⟨roster, column, path, row, rest, .ready⟩)) fun _ now =>
          now = Stage.covers sheet stages := .pureThen (uncoverFromLeads _ column _)
      rw [List.map_cons, List.foldlM_cons]
      exact undoing.exactThen ((plainUndo ..).trans opens) (above.undoLeads sound work found)
  have abandons : Leads (Stage.covers sheet stages) (Journal.abandon search) fun _ now => now = [] := by
    refine undoing.leadsBind fun position now _ same => ?_
    split
    · exact .leadsPure same
    · exact .leadsThrow _
  exact abandons.leadsBind fun position now _ same => .leadsPure same

end Woven

namespace Solver.Keeps

variable {solver : Solver} {sheet : Sheet}

theorem solveLeads (keeps : solver.Keeps sheet) :
    Leads [] (Journal.solve solver) fun _ now => now = [] := by
  obtain ⟨seat, resting, -⟩ := keeps.holds
  have explored := Woven.exploreLeads Audience.receive keeps.sound solver.config.byFewest
    solver.torus.cells.size (resting.toWoven.withRemovals 0) (atRest sheet 0) solver.opening [] 0
  refine explored.leadsBind fun outcome now _ back => ?_
  dsimp only
  split
  · exact .leadsPure back.1
  · exact .leadsThrow _

theorem callsLead (keeps : solver.Keeps sheet) (count : Nat) :
    Leads [] (Journal.calls count solver.enumeration) fun answer now =>
      Leads now (Journal.close solver answer.2) fun _ after => after = [] := by
  obtain ⟨seat, resting, -⟩ := keeps.holds
  have entered := Woven.Entered.root resting.toWoven (atRest sheet solver.torus.removals)
  have fresh : Woven.Suspended seat sheet solver.torus solver.config.byFewest solver.enumeration [] :=
    .between entered 0 0 false
  refine (fresh.callsLead keeps.sound (fun _ => rfl) count).leadsWeaken fun answer now rests => ?_
  obtain ⟨started, stages, suspended, -, same⟩ := rests
  subst same
  exact suspended.closeLeads keeps.sound

end Solver.Keeps

theorem searchesOrderly {solver : Solver} (built : WellBuilt solver) :
    (∀ listener sink, ∃ reply deeds, Solver.solve { solver with listener, sink } = .ok reply ∧
      (Journal.solve { solver with listener, sink }).run = .ok (reply, deeds) ∧ Orderly [] deeds []) ∧
    ∀ count, ∃ answer deeds closed later, solver.enumeration.calls count = .ok answer ∧
      solver.close answer.2 = .ok closed ∧
      (Journal.calls count solver.enumeration).run = .ok (answer, deeds) ∧
      (Journal.close solver answer.2).run = .ok (closed, later) ∧ Orderly [] (deeds ++ later) [] := by
  obtain ⟨sheet, keeps⟩ := built.keepsSheet
  constructor
  · intro listener sink
    have told := keeps.keptForAudience listener sink
    have solved := Solver.solveAnswers told
    obtain ⟨deeds, ran⟩ := Journal.runAnswers ((plainSolve _).trans solved)
    obtain ⟨now, orderly, same⟩ := told.solveLeads _ deeds ran
    subst same
    exact ⟨_, deeds, solved, ran, orderly⟩
  · intro count
    obtain ⟨outcomes, search, asked, after, events, closed, -⟩ := keeps.enumerateKeeps count
    obtain ⟨deeds, ran⟩ := Journal.runAnswers ((plainCalls _ _).trans asked)
    obtain ⟨later, ended⟩ := Journal.runAnswers ((plainClose _ _).trans closed)
    obtain ⟨now, orderly, closes⟩ := keeps.callsLead count _ deeds ran
    obtain ⟨last, rest, same⟩ := closes _ later ended
    subst same
    exact ⟨_, deeds, _, later, asked, closed, ran, ended, orderly.append rest⟩

theorem choiceOrderly :
    WellBuilt .choice ∧
      (∀ listener sink, ∃ reply deeds, Solver.solve { Solver.choice with listener, sink } = .ok reply ∧
        (Journal.solve { Solver.choice with listener, sink }).run = .ok (reply, deeds) ∧
        Orderly [] deeds []) ∧
      ∃ answer deeds closed later, Solver.choice.enumeration.calls 2 = .ok answer ∧
        Solver.choice.close answer.2 = .ok closed ∧
        (Journal.calls 2 Solver.choice.enumeration).run = .ok (answer, deeds) ∧
        (Journal.close .choice answer.2).run = .ok (closed, later) ∧ Orderly [] (deeds ++ later) [] := by
  have built : WellBuilt .choice := ⟨_, _, Solver.choiceMade⟩
  obtain ⟨solves, enumerates⟩ := searchesOrderly built
  exact ⟨built, solves, enumerates 2⟩

end DancingLinks
