import DancingLinks.Proofs.ArenaSearch
import DancingLinks.Search.Enumeration
import Mathlib.Tactic.Ring

/-! A search that rests between two solutions. Its stack is a list of stages, each a column branched on
with the row tried in it and the rows after it; what the stages have still to find is a yield of the
search on lists. A step keeps the solution that it comes upon and what is then still to be found equal
to what was to be found before, and takes from a load that the step bound exceeds. -/
namespace DancingLinks

structure Stage where
  roster : Roster
  column : Nat
  path : List (Nat × Nat)
  row : Nat
  rest : List Nat
  phase : Phase

def stepsBelow (height : Nat) : Nat → Nat
  | 0 => 0
  | columns + 1 => height * (2 + stepsBelow height columns)

theorem stepsGrow (height columns : Nat) : stepsBelow height columns ≤ stepsBelow height (columns + 1) := by
  rw [stepsBelow]
  cases height with
  | zero => cases columns <;> simp [stepsBelow]
  | succ height =>
    have once : 1 * (2 + stepsBelow (height + 1) columns) ≤
        (height + 1) * (2 + stepsBelow (height + 1) columns) :=
      Nat.mul_le_mul_right _ (Nat.le_add_left 1 height)
    omega

theorem stepsMono (height : Nat) {columns more : Nat} (fewer : columns ≤ more) :
    stepsBelow height columns ≤ stepsBelow height more := by
  induction fewer with
  | refl => exact Nat.le_refl _
  | step _ ih => exact ih.trans (stepsGrow height _)

theorem stepsBounded (height columns : Nat) :
    stepsBelow height columns + 2 ≤ 2 * (height + 1) ^ columns := by
  induction columns with
  | zero => simp [stepsBelow]
  | succ columns ih =>
    have one : 1 ≤ (height + 1) ^ columns := Nat.one_le_pow _ _ (Nat.succ_pos _)
    calc stepsBelow height (columns + 1) + 2
        = height * (stepsBelow height columns + 2) + 2 := by rw [stepsBelow, Nat.add_comm 2]
      _ ≤ height * (2 * (height + 1) ^ columns) + 2 * (height + 1) ^ columns := by
        have inner := Nat.mul_le_mul_left height ih
        omega
      _ = 2 * (height + 1) ^ (columns + 1) := by ring

namespace Stage

def frame (seat : Role → Site) (stage : Stage) : Frame :=
  ⟨stage.column, seat (.head stage.column), seat (.entry stage.row stage.column), stage.phase⟩

def todo (stage : Stage) : List Nat :=
  match stage.phase with
  | .ready => stage.row :: stage.rest
  | .entered => stage.rest

def below (sheet : Sheet) (byFewest : Bool) (stage : Stage) (row found work : Nat) : Yield :=
  Roster.search sheet byFewest ((row, stage.column) :: stage.path) found
    (stage.roster.commit sheet stage.column row work)

def ahead (sheet : Sheet) (byFewest : Bool) : List Stage → (found work : Nat) → Yield
  | [], _, work => ⟨[], work⟩
  | stage :: above, found, work =>
    (Yield.inTurn (stage.below sheet byFewest) stage.todo found work).followed found
      (ahead sheet byFewest above)

def load (height : Nat) (stage : Stage) : Nat :=
  match stage.phase with
  | .ready => (stage.rest.length + 1) * (2 + stepsBelow height (stage.roster.pending.length - 1))
  | .entered => 1 + stage.rest.length * (2 + stepsBelow height (stage.roster.pending.length - 1))

def loads (height : Nat) (stages : List Stage) : Nat := (stages.map (load height)).sum

end Stage

def Sheet.height (sheet : Sheet) : Nat :=
  ((List.range sheet.columns.length).map fun column => (sheet.live column).length).foldr max 0

theorem highestBelow {lengths : List Nat} {bound : Nat} :
    lengths.foldr max 0 ≤ bound ↔ ∀ length ∈ lengths, length ≤ bound := by
  induction lengths with
  | nil => simp
  | cons first rest ih => rw [List.foldr_cons, Nat.max_le, ih, List.forall_mem_cons]

theorem Sheet.heightBelow {sheet : Sheet} {bound : Nat} :
    sheet.height ≤ bound ↔ ∀ column < sheet.columns.length, (sheet.live column).length ≤ bound := by
  rw [Sheet.height, highestBelow, List.forall_mem_map]
  simp only [List.mem_range]

theorem Sheet.liveHeight (sheet : Sheet) {column : Nat} (known : column < sheet.columns.length) :
    (sheet.live column).length ≤ sheet.height := Sheet.heightBelow.mp (Nat.le_refl _) column known

namespace Woven

structure Closed (seat : Role → Site) (sheet : Sheet) (roster : Roster) (torus : Torus) (column : Nat)
    (shut : Torus) : Prop where
  pending : column ∈ roster.pending
  woven : ∃ work, Woven seat sheet { roster.cover sheet column with work } shut
  undo : Torus.Reverts (·.uncover column) shut torus

inductive Entered (seat : Role → Site) (sheet : Sheet) (base : Torus) :
    List Stage → Roster → Torus → List (Nat × Nat) → Prop where
  | root {roster : Roster} (woven : Woven seat sheet roster base) (remains : roster.Remains sheet []) :
      Entered seat sheet base [] roster base []
  | row {stages roster torus path column shut before row rest work inner deeper}
      (above : Entered seat sheet base stages roster torus path)
      (closed : Closed seat sheet roster torus column shut)
      (split : roster.live column = before ++ row :: rest)
      (woven : Woven seat sheet (roster.commit sheet column row work) inner)
      (remains : (roster.commit sheet column row work).Remains sheet deeper)
      (undo : Torus.Reverts (·.uncoverRow (seat (.entry row column))) inner shut) :
      Entered seat sheet base (⟨roster, column, path, row, rest, .entered⟩ :: stages)
        (roster.commit sheet column row work) inner ((row, column) :: path)

/-- A search at rest: each of its rows chosen, or the deepest one still to be. -/
inductive Suspended (seat : Role → Site) (sheet : Sheet) (base : Torus) (byFewest : Bool) :
    Enumeration → List Stage → Prop where
  | between {stages roster torus path} (entered : Entered seat sheet base stages roster torus path)
      (work found : Nat) (started : Bool) :
      Suspended seat sheet base byFewest
        ⟨⟨torus.withRemovals work, sitesOf seat path, found⟩, byFewest,
          stages.map (Stage.frame seat), started⟩ stages
  | choosing {stages roster torus path column shut before row rest}
      (entered : Entered seat sheet base stages roster torus path)
      (closed : Closed seat sheet roster torus column shut)
      (split : roster.live column = before ++ row :: rest) (work found : Nat) (started : Bool) :
      Suspended seat sheet base byFewest
        ⟨⟨shut.withRemovals work, sitesOf seat path, found⟩, byFewest,
          (⟨roster, column, path, row, rest, .ready⟩ :: stages).map (Stage.frame seat), started⟩
        (⟨roster, column, path, row, rest, .ready⟩ :: stages)

variable {seat : Role → Site} {sheet : Sheet} {base torus shut inner : Torus} {roster : Roster}
  {path : List (Nat × Nat)} {stages : List Stage} {column row : Nat}

namespace Entered

theorem enteredWoven (entered : Entered seat sheet base stages roster torus path) (sound : sheet.Sound) :
    Woven seat sheet roster torus ∧ (∃ covered, roster.Remains sheet covered) ∧
      ∀ entry ∈ path, entry.2 ∈ sheet.columnsOf entry.1 := by
  induction entered with
  | root woven remains => exact ⟨woven, ⟨_, remains⟩, by simp⟩
  | row above closed split woven remains undo ih =>
    obtain ⟨-, ⟨covered, former⟩, chosen⟩ := ih
    have live := split ▸ List.mem_append_right _ List.mem_cons_self
    exact ⟨woven, ⟨_, remains⟩, List.forall_mem_cons.mpr ⟨former.within.liveMeets sound live, chosen⟩⟩

end Entered

def ahead (sheet : Sheet) (search : Enumeration) (stages : List Stage) : Yield :=
  Stage.ahead sheet search.byFewest stages search.position.found search.position.torus.removals

structure Accounts (sheet : Sheet) (yield : Yield) (found : Nat) (outcome : Option Solution)
    (search : Enumeration) (stages : List Stage) : Prop where
  solutions : yield.solutions = outcome.toList ++ (ahead sheet search stages).solutions
  work : yield.work = (ahead sheet search stages).work
  counted : search.position.found = found + outcome.toList.length
  read : ∀ solution, outcome = some solution → solution.number = search.position.found ∧
    solution.removals = search.position.torus.removals ∧ solution.rows.length = search.position.depth

theorem Accounts.accountsSilent {yield : Yield} {found : Nat} {search : Enumeration}
    (same : yield = ahead sheet search stages) (counted : search.position.found = found) :
    Accounts sheet yield found none search stages where
  solutions := congrArg Yield.solutions same
  work := congrArg Yield.work same
  counted := counted
  read solution told := by cases told

theorem Accounts.accountsOnward {yield : Yield} {found : Nat} {outcome : Option Solution}
    {search last : Enumeration} {stages' : List Stage}
    (accounts : Accounts sheet yield found none search stages)
    (later : Accounts sheet (ahead sheet search stages) search.position.found outcome last stages') :
    Accounts sheet yield found outcome last stages' where
  solutions := accounts.solutions.trans later.solutions
  work := accounts.work.trans later.work
  counted := by
    have counted := accounts.counted
    rw [Option.toList_none, List.length_nil, Nat.add_zero] at counted
    rw [later.counted, counted]
  read := later.read

def Settles (seat : Role → Site) (sheet : Sheet) (base : Torus) (byFewest started : Bool) (yield : Yield)
    (found bound : Nat) (answer : Except Fault (Option Solution × Enumeration)) : Prop :=
  ∃ outcome search stages, answer = .ok (outcome, search) ∧
    Suspended seat sheet base byFewest search stages ∧ search.started = started ∧
    Accounts sheet yield found outcome search stages ∧ Stage.loads sheet.height stages < bound

theorem coverCloses (woven : Woven seat sheet roster torus) (sound : sheet.Sound) {covered : List Nat}
    (remains : roster.Remains sheet covered) (pending : column ∈ roster.pending) (work : Nat) :
    ∃ shut, (torus.withRemovals work).cover column = .ok shut ∧
      shut.removals = ({ roster with work }.cover sheet column).work ∧
      Closed seat sheet roster torus column shut := by
  have known := pendingKnown remains pending
  have outside := (remains.memPending.mp pending).2
  obtain ⟨shut, covers, held, undo⟩ :=
    (woven.withRemovals work).coverWoven sound (remains.withWork work) known outside
  exact ⟨shut, covers, held.work, pending, ⟨_, held⟩, undo⟩

theorem openedLoad {covered : List Nat} (remains : roster.Remains sheet covered)
    (pending : column ∈ roster.pending) (path : List (Nat × Nat)) {rest : List Nat}
    (split : roster.live column = row :: rest) :
    Stage.load sheet.height ⟨roster, column, path, row, rest, .ready⟩ ≤
      stepsBelow sheet.height roster.pending.length := by
  have columns : (roster.pending.length - 1).succ = roster.pending.length :=
    Nat.succ_pred_eq_of_pos (List.length_pos_of_mem pending)
  have short : rest.length + 1 ≤ sheet.height := by
    have inSheet := (remains.within column).length_le
    rw [split, List.length_cons] at inSheet
    exact inSheet.trans (sheet.liveHeight (pendingKnown remains pending))
  have load := Nat.mul_le_mul_right (2 + stepsBelow sheet.height (roster.pending.length - 1)) short
  rwa [← stepsBelow, columns] at load

namespace Entered

theorem solutionSettles (entered : Entered seat sheet base stages roster torus path) (sound : sheet.Sound)
    {byFewest : Bool} {work : Nat} (choice : ({ roster with work } : Roster).branch byFewest = none)
    (found : Nat) (started : Bool) :
    Settles seat sheet base byFewest started
      ((Roster.search sheet byFewest path found { roster with work }).followed found
        (Stage.ahead sheet byFewest stages)) found (Stage.loads sheet.height stages + 1)
      (Enumeration.descend ⟨⟨torus.withRemovals work, sitesOf seat path, found⟩, byFewest,
        stages.map (Stage.frame seat), started⟩) := by
  obtain ⟨woven, ⟨covered, remains⟩, chosen⟩ := entered.enteredWoven sound
  have branches := (woven.withRemovals work).branchColumnRead (remains.withWork work) byFewest
  have read := (woven.withRemovals work).solutionRead sound chosen (found + 1)
  rw [choice] at branches
  rw [Roster.searchOver choice]
  refine ⟨some (sheet.solution path (found + 1) work), _, stages, ?_,
    .between entered work (found + 1) started, rfl, ⟨rfl, rfl, rfl, ?_⟩, Nat.lt_succ_self _⟩
  · simp only [Enumeration.descend, branches, bind, Except.bind, Position.countFound, read]
    rfl
  · intro solution same
    cases same
    refine ⟨rfl, rfl, ?_⟩
    simp [Sheet.solution, Position.depth, sitesOf]

theorem branchSettles (entered : Entered seat sheet base stages roster torus path) (sound : sheet.Sound)
    {byFewest : Bool} {work : Nat} (choice : ({ roster with work } : Roster).branch byFewest = some column)
    (found : Nat) (started : Bool) :
    Settles seat sheet base byFewest started
      ((Roster.search sheet byFewest path found { roster with work }).followed found
        (Stage.ahead sheet byFewest stages)) found
      (stepsBelow sheet.height roster.pending.length + Stage.loads sheet.height stages + 1)
      (Enumeration.descend ⟨⟨torus.withRemovals work, sitesOf seat path, found⟩, byFewest,
        stages.map (Stage.frame seat), started⟩) := by
  obtain ⟨woven, ⟨covered, remains⟩, chosen⟩ := entered.enteredWoven sound
  have branches := (woven.withRemovals work).branchColumnRead (remains.withWork work) byFewest
  rw [choice] at branches
  have pending : column ∈ roster.pending := Roster.branchPending choice
  have known := pendingKnown remains pending
  obtain ⟨shut, covers, removals, closed⟩ := woven.coverCloses sound remains pending work
  obtain ⟨shutWork, held⟩ := closed.woven
  obtain ⟨-, -, -, head, -⟩ := held.headerOf known
  have first := held.downHead known
  have live : ({ roster.cover sheet column with work := shutWork } : Roster).live column =
      roster.live column := if_pos rfl
  have yield : Roster.search sheet byFewest path found { roster with work } =
      Yield.inTurn (fun row found work => Roster.search sheet byFewest ((row, column) :: path) found
        (roster.commit sheet column row work)) (roster.live column) found shut.removals := by
    rw [removals]
    exact Roster.searchBranch choice path found
  rw [live] at first
  cases split : roster.live column with
  | nil =>
    rw [split] at first yield
    have uncovers := Position.uncoverRead closed.undo shut.removals (sitesOf seat path) found
    refine ⟨none, _, stages, ?_, .between entered shut.removals found started, rfl,
      .accountsSilent (by rw [yield]; rfl) rfl, Nat.lt_succ_of_le (Nat.le_add_left ..)⟩
    simp only [Enumeration.descend, branches, Position.cover, covers, head, first, siteAt, if_true,
      bind, Except.bind, pure, Except.pure]
    rw [show shut = shut.withRemovals shut.removals from rfl, uncovers]
    rfl
  | cons row rest =>
    rw [split] at first yield
    have holds := remains.within.liveMeets sound (split ▸ List.mem_cons_self)
    have apart := woven.entryApart holds known
    have whole : roster.live column = [] ++ row :: rest := split
    have load := openedLoad remains pending path split
    refine ⟨none, _, _, ?_, .choosing entered closed whole shut.removals found started, rfl,
      .accountsSilent (by rw [yield]; rfl) rfl, Nat.lt_succ_of_le (Nat.add_le_add_right load _)⟩
    simp only [Enumeration.descend, branches, Position.cover, covers, head, first, siteAt, apart,
      if_false, bind, Except.bind, pure, Except.pure]
    rfl

theorem descendSettles (entered : Entered seat sheet base stages roster torus path) (sound : sheet.Sound)
    (byFewest : Bool) (work found : Nat) (started : Bool) :
    Settles seat sheet base byFewest started
      ((Roster.search sheet byFewest path found { roster with work }).followed found
        (Stage.ahead sheet byFewest stages)) found
      (stepsBelow sheet.height roster.pending.length + Stage.loads sheet.height stages + 1)
      (Enumeration.descend ⟨⟨torus.withRemovals work, sitesOf seat path, found⟩, byFewest,
        stages.map (Stage.frame seat), started⟩) := by
  cases choice : ({ roster with work } : Roster).branch byFewest with
  | none =>
    obtain ⟨outcome, search, stages', answer, rests, same, accounts, light⟩ :=
      entered.solutionSettles sound choice found started
    exact ⟨outcome, search, stages', answer, rests, same, accounts,
      Nat.lt_of_lt_of_le light (Nat.succ_le_succ (Nat.le_add_left ..))⟩
  | some column => exact entered.branchSettles sound choice found started

theorem advanceSettles (entered : Entered seat sheet base stages roster torus path)
    (sound : sheet.Sound) (closed : Closed seat sheet roster torus column shut) {before rest : List Nat}
    (split : roster.live column = before ++ row :: rest) (byFewest : Bool) (work found : Nat)
    (started : Bool) :
    let stage : Stage := ⟨roster, column, path, row, rest, .ready⟩
    let search : Enumeration := ⟨⟨shut.withRemovals work, sitesOf seat path, found⟩, byFewest,
      (stage :: stages).map (Stage.frame seat), started⟩
    Settles seat sheet base byFewest started (ahead sheet search (stage :: stages)) found
      (Stage.loads sheet.height (stage :: stages))
      (search.step (stage.frame seat) (stages.map (Stage.frame seat))) := by
  intro stage search
  obtain ⟨-, ⟨covered, remains⟩, -⟩ := entered.enteredWoven sound
  obtain ⟨shutWork, held⟩ := closed.woven
  have outside := (remains.memPending.mp closed.pending).2
  have live : row ∈ roster.live column := split ▸ List.mem_append_right _ List.mem_cons_self
  obtain ⟨inner, deeper, enters, woven, remains, undo⟩ := held.coverRowCommits sound remains outside live work
  have enters' : Position.enter ⟨shut.withRemovals work, sitesOf seat path, found⟩
      (seat (.entry row column)) =
      .ok ⟨inner.withRemovals inner.removals, sitesOf seat ((row, column) :: path), found⟩ := by
    simp only [Position.enter, enters, bind, Except.bind]
    rfl
  have chosen := Entered.row entered closed split woven remains undo
  obtain ⟨outcome, next, stages', descends, suspended, same, accounts, load⟩ :=
    chosen.descendSettles sound byFewest inner.removals found started
  have whole : ({ roster.commit sheet column row work with work := inner.removals } : Roster) =
      roster.commit sheet column row work := by
    rw [woven.work]
  have yield : ahead sheet search (stage :: stages) =
      (Roster.search sheet byFewest ((row, column) :: path) found
        (roster.commit sheet column row work)).followed found
        (Stage.ahead sheet byFewest (⟨roster, column, path, row, rest, .entered⟩ :: stages)) :=
    Yield.followedAssoc ..
  rw [whole, ← yield] at accounts
  refine ⟨outcome, next, stages', ?_, suspended, same, accounts, ?_⟩
  · simp only [Enumeration.step, search, stage, Stage.frame, enters', bind, Except.bind]
    exact descends
  · have fewer : (roster.commit sheet column row work).pending.length < _ :=
      Roster.commitShortens closed.pending row work
    have mono := stepsMono sheet.height (Nat.le_sub_one_of_lt fewer)
    have total : (rest.length + 1) * (2 + stepsBelow sheet.height (roster.pending.length - 1)) =
        rest.length * (2 + stepsBelow sheet.height (roster.pending.length - 1)) +
          (2 + stepsBelow sheet.height (roster.pending.length - 1)) := Nat.succ_mul ..
    simp only [Stage.loads, List.map_cons, List.sum_cons, Stage.load, stage] at load ⊢
    omega

theorem retreatSettles (entered : Entered seat sheet base stages roster torus path)
    (sound : sheet.Sound) (closed : Closed seat sheet roster torus column shut) {before rest : List Nat}
    (split : roster.live column = before ++ row :: rest)
    (undo : Torus.Reverts (·.uncoverRow (seat (.entry row column))) inner shut) (byFewest : Bool)
    (work found : Nat) (started : Bool) :
    let stage : Stage := ⟨roster, column, path, row, rest, .entered⟩
    let search : Enumeration := ⟨⟨inner.withRemovals work, sitesOf seat ((row, column) :: path), found⟩,
      byFewest, (stage :: stages).map (Stage.frame seat), started⟩
    Settles seat sheet base byFewest started (ahead sheet search (stage :: stages)) found
      (Stage.loads sheet.height (stage :: stages))
      (search.step (stage.frame seat) (stages.map (Stage.frame seat))) := by
  intro stage search
  obtain ⟨woven, ⟨covered, remains⟩, -⟩ := entered.enteredWoven sound
  obtain ⟨shutWork, held⟩ := closed.woven
  have known := pendingKnown remains closed.pending
  have outside := (remains.memPending.mp closed.pending).2
  have live : (roster.cover sheet column).live column = roster.live column := if_pos rfl
  have below := (held.withRemovals work).downEntry sound (remains.coverRemains sound outside).within
    (live.trans split)
  have leaves : Position.leave ⟨inner.withRemovals work, sitesOf seat ((row, column) :: path), found⟩
      (seat (.entry row column)) = _ := Position.leaveRead undo work (sitesOf seat path) found
  cases rest with
  | nil =>
    have uncovers := Position.uncoverRead closed.undo work (sitesOf seat path) found
    refine ⟨none, _, stages, ?_, .between entered work found started, rfl, .accountsSilent rfl rfl, ?_⟩
    · simp only [Enumeration.step, search, stage, Stage.frame, leaves, below, siteAt, if_true, uncovers,
        bind, Except.bind]
      rfl
    · simp [Stage.loads, Stage.load, stage]
  | cons next rest =>
    have split' : roster.live column = (before ++ [row]) ++ next :: rest := by simpa using split
    have member : next ∈ roster.live column := split' ▸ List.mem_append_right _ List.mem_cons_self
    have apart := woven.entryApart (remains.within.liveMeets sound member) known
    refine ⟨none, _, _, ?_, .choosing entered closed split' work found started, rfl,
      .accountsSilent rfl rfl, ?_⟩
    · simp only [Enumeration.step, search, stage, Stage.frame, leaves, below, siteAt, apart, if_false,
        bind, Except.bind]
      rfl
    · simp only [Stage.loads, List.map_cons, List.sum_cons, Stage.load, stage, List.length_cons]
      omega

end Entered

theorem Suspended.stepSettles {search : Enumeration} {byFewest : Bool} {stage : Stage}
    (suspended : Suspended seat sheet base byFewest search (stage :: stages)) (sound : sheet.Sound) :
    Settles seat sheet base byFewest search.started (ahead sheet search (stage :: stages))
      search.position.found (Stage.loads sheet.height (stage :: stages))
      (search.step (stage.frame seat) (stages.map (Stage.frame seat))) := by
  cases suspended with
  | between entered work found started =>
    cases entered with
    | row entered closed split _ _ undo =>
      exact entered.retreatSettles sound closed split undo byFewest work found started
  | choosing entered closed split work found started =>
    exact entered.advanceSettles sound closed split byFewest work found started

theorem heightRoom (woven : Woven seat sheet roster torus) (sound : sheet.Sound) :
    sheet.height ≤ torus.cells.size := by
  have within : sheet.roster.Within sheet := fun _ => List.Sublist.refl _
  refine Sheet.heightBelow.mpr fun column known => ?_
  have seated : ∀ role ∈ Role.head column :: sheet.roster.entriesIn column,
      torus.roleAt (seat role) = some role := fun role member =>
    woven.seated role (columnPresent sound within known role member)
  have room := Torus.seatsRoom seated (columnDistinct sound within column)
  rw [List.length_cons, Roster.entriesIn, List.length_map] at room
  exact Nat.le_of_lt room

theorem stepRoom (woven : Woven seat sheet roster torus) (sound : sheet.Sound) {load : Nat}
    (light : load ≤ stepsBelow sheet.height sheet.columns.length) :
    load < Enumeration.stepBound torus := by
  have bounded := stepsBounded sheet.height sheet.columns.length
  have wide : (sheet.height + 1) ^ sheet.columns.length ≤
      (torus.cells.size + 1) ^ sheet.columns.length :=
    Nat.pow_le_pow_left (Nat.succ_le_succ (woven.heightRoom sound)) _
  have deep : (torus.cells.size + 1) ^ sheet.columns.length ≤
      (torus.cells.size + 1) ^ (sheet.columns.length + 1) :=
    Nat.pow_le_pow_right (Nat.succ_pos _) (Nat.le_succ _)
  rw [Enumeration.stepBound, woven.width, Nat.pow_eq]
  omega

namespace Suspended

theorem suspendedWoven {search : Enumeration} {byFewest : Bool}
    (suspended : Suspended seat sheet base byFewest search stages) (sound : sheet.Sound) :
    ∃ roster, Woven seat sheet roster search.position.torus := by
  cases suspended with
  | between entered work found started =>
    exact ⟨_, (entered.enteredWoven sound).1.withRemovals work⟩
  | choosing entered closed split work found started =>
    obtain ⟨shutWork, held⟩ := closed.woven
    exact ⟨_, held.withRemovals work⟩

theorem stackFrames {search : Enumeration} {byFewest : Bool}
    (suspended : Suspended seat sheet base byFewest search stages) :
    search.stack = stages.map (Stage.frame seat) ∧ search.byFewest = byFewest := by
  cases suspended <;> exact ⟨rfl, rfl⟩

theorem endedAtBase {search : Enumeration} {byFewest : Bool}
    (suspended : Suspended seat sheet base byFewest search []) :
    search = ⟨⟨base.withRemovals search.position.torus.removals, [], search.position.found⟩, byFewest,
      [], search.started⟩ := by
  cases suspended with
  | between entered work found started =>
    cases entered with
    | root woven remains => rfl

theorem resumeAnswers {search : Enumeration} {byFewest : Bool}
    (suspended : Suspended seat sheet base byFewest search stages) (sound : sheet.Sound) {bound : Nat}
    (light : Stage.loads sheet.height stages < bound) :
    ∃ outcome next stages', Enumeration.resume bound search = .ok (outcome, next) ∧
      Suspended seat sheet base byFewest next stages' ∧ next.started = search.started ∧
      Accounts sheet (ahead sheet search stages) search.position.found outcome next stages' ∧
      Stage.loads sheet.height stages' ≤ Stage.loads sheet.height stages ∧
      (outcome = none → stages' = []) := by
  induction bound generalizing search stages with
  | zero => cases light
  | succ bound ih =>
    have stack := suspended.stackFrames.1
    cases stages with
    | nil =>
      refine ⟨none, search, [], ?_, suspended, rfl, .accountsSilent rfl rfl, Nat.le_refl _, fun _ => rfl⟩
      rw [List.map_nil] at stack
      rw [Enumeration.resume, stack]
      rfl
    | cons stage above =>
      rw [List.map_cons] at stack
      obtain ⟨outcome, next, stages', steps, rests, same, accounts, lighter⟩ := suspended.stepSettles sound
      cases outcome with
      | some solution =>
        refine ⟨some solution, next, stages', ?_, rests, same, accounts, Nat.le_of_lt lighter, ?_⟩
        · simp only [Enumeration.resume, stack, steps, bind, Except.bind]
          rfl
        · intro none
          cases none
      | none =>
        obtain ⟨outcome, last, stages'', resumed, suspended, started, later, final, ended⟩ :=
          ih rests (Nat.lt_of_lt_of_le lighter (Nat.le_of_lt_succ light))
        refine ⟨outcome, last, stages'', ?_, suspended, started.trans same, accounts.accountsOnward later,
          final.trans (Nat.le_of_lt lighter), ended⟩
        simp only [Enumeration.resume, stack, steps, bind, Except.bind]
        exact resumed

end Suspended

theorem Closed.undoEntered (closed : Closed seat sheet roster torus column shut)
    (undo : Torus.Reverts (·.uncoverRow (seat (.entry row column))) inner shut)
    (path : List (Nat × Nat)) (rest : List Nat) (work found : Nat) :
    Enumeration.undo ⟨inner.withRemovals work, sitesOf seat ((row, column) :: path), found⟩
        (Stage.frame seat ⟨roster, column, path, row, rest, .entered⟩) =
      .ok ⟨torus.withRemovals work, sitesOf seat path, found⟩ := by
  have undone : _ = Except.ok (shut.withRemovals work) := undo work
  have uncovers := Position.uncoverRead closed.undo work (sitesOf seat path) found
  simp only [Stage.frame, Enumeration.undo, undone, bind, Except.bind, pure, Except.pure]
  exact uncovers

theorem Entered.framesUndone (entered : Entered seat sheet base stages roster torus path) (work found : Nat) :
    (stages.map (Stage.frame seat)).foldlM Enumeration.undo
        ⟨torus.withRemovals work, sitesOf seat path, found⟩ =
      .ok ⟨base.withRemovals work, [], found⟩ := by
  induction entered with
  | root woven remains => rfl
  | row above closed split woven remains undo ih =>
    rw [List.map_cons, List.foldlM_cons, closed.undoEntered undo]
    exact ih

theorem Suspended.abandonUndoes {search : Enumeration} {byFewest : Bool}
    (suspended : Suspended seat sheet base byFewest search stages) :
    search.abandon = .ok ⟨base.withRemovals search.position.torus.removals, [], search.position.found⟩ := by
  cases suspended with
  | between entered work found started =>
    simp only [Enumeration.abandon, entered.framesUndone work found, bind, Except.bind]
    rfl
  | @choosing above roster torus path column shut before row rest entered closed split work found
      started =>
    have uncovers : Enumeration.undo ⟨shut.withRemovals work, sitesOf seat path, found⟩
        (Stage.frame seat ⟨roster, column, path, row, rest, .ready⟩) = _ :=
      Position.uncoverRead closed.undo work (sitesOf seat path) found
    simp only [Enumeration.abandon, List.map_cons, List.foldlM_cons, uncovers, bind, Except.bind,
      entered.framesUndone work found]
    rfl

end Woven

end DancingLinks
