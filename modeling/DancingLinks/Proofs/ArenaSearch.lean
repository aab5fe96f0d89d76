import DancingLinks.Proofs.ArenaCovers
import DancingLinks.Proofs.BranchChoice
import DancingLinks.Search.Explore

/-! A search over an arena tells its visitor the solutions of the roster, in order, until one is
refused; the arena is then as it was before, but for the work counted. The rows of a column are tried
along the loop below its head: each is entered, explored and left again, so the loop is still there
when the search moves on to the row below. -/
namespace DancingLinks

structure Attendance (α : Type) where
  state : α
  heard : List Solution
  more : Bool

section
variable {α : Type}

def attend (hear : α → Solution → α × Bool) : α → List Solution → Attendance α
  | state, [] => ⟨state, [], true⟩
  | state, solution :: rest =>
    let (state, more) := hear state solution
    if more then
      let later := attend hear state rest
      { later with heard := solution :: later.heard }
    else ⟨state, [solution], false⟩

namespace Attendance

variable {hear : α → Solution → α × Bool} {state : α}

def work (attendance : Attendance α) (final : Nat) : Nat :=
  if attendance.more then final else (attendance.heard.getLast?.map Solution.removals).getD final

theorem induct {motive : α → Attendance α → Prop} (ended : ∀ state, motive state ⟨state, [], true⟩)
    (stop : ∀ state solution, (hear state solution).2 = false →
      motive state ⟨(hear state solution).1, [solution], false⟩)
    (next : ∀ state solution later, (hear state solution).2 = true → motive (hear state solution).1 later →
      motive state { later with heard := solution :: later.heard })
    (state : α) (solutions : List Solution) : motive state (attend hear state solutions) := by
  induction solutions generalizing state with
  | nil => exact ended state
  | cons solution rest ih =>
    have stops := stop state solution
    have goes := next state solution (attend hear (hear state solution).1 rest)
    rw [attend]
    split
    rename_i after more answer
    rw [answer] at stops goes
    cases more with
    | true => exact goes rfl (ih after)
    | false => exact stops rfl

theorem heardPrefix (solutions : List Solution) :
    (attend hear state solutions).heard <+: solutions := by
  induction solutions generalizing state with
  | nil => exact List.prefix_rfl
  | cons solution rest ih =>
    rw [attend]
    split
    split
    · exact List.cons_prefix_cons.mpr ⟨rfl, ih⟩
    · exact List.cons_prefix_cons.mpr ⟨rfl, List.nil_prefix⟩

theorem heardAll {solutions : List Solution} (more : (attend hear state solutions).more = true) :
    (attend hear state solutions).heard = solutions := by
  induction solutions generalizing state with
  | nil => rfl
  | cons solution rest ih =>
    rw [attend] at more ⊢
    split at more
    split at more
    · rename_i goes
      simp only [goes, if_true]
      exact congrArg _ (ih more)
    · cases more

theorem heardSome {solutions : List Solution} (ended : (attend hear state solutions).more = false) :
    (attend hear state solutions).heard ≠ [] := by
  cases solutions with
  | nil => cases ended
  | cons solution rest =>
    rw [attend]
    split
    split <;> exact List.cons_ne_nil _ _

theorem attendOne (solution : Solution) :
    attend hear state [solution] = ⟨(hear state solution).1, [solution], (hear state solution).2⟩ := by
  cases answer : hear state solution with
  | mk after more => cases more <;> simp [attend, answer]

theorem oneWork (solution : Solution) :
    (attend hear state [solution]).work solution.removals = solution.removals := by
  rw [attendOne]
  simp [work]

theorem append (xs ys : List Solution) :
    attend hear state (xs ++ ys) =
      let first := attend hear state xs
      let later := attend hear first.state ys
      if first.more then { later with heard := first.heard ++ later.heard } else first := by
  induction xs generalizing state with
  | nil => rfl
  | cons solution rest ih =>
    rw [List.cons_append, attend, attend]
    split
    split
    · rw [ih]
      dsimp only
      split <;> rfl
    · rfl

theorem appendMore {xs ys : List Solution} (goes : (attend hear state xs).more = true) :
    attend hear state (xs ++ ys) =
      let later := attend hear (attend hear state xs).state ys
      { later with heard := xs ++ later.heard } := by
  rw [append]
  simp only [goes, if_true, heardAll goes]

theorem appendOver {xs ys : List Solution} (ended : (attend hear state xs).more = false) :
    attend hear state (xs ++ ys) = attend hear state xs := by
  rw [append]
  simp [ended]

theorem workMore {solutions : List Solution} (goes : (attend hear state solutions).more = true)
    (final : Nat) : (attend hear state solutions).work final = final := by
  simp [work, goes]

theorem workLater (xs : List Solution) {ys : List Solution} (final : Nat) :
    ({ attend hear state ys with heard := xs ++ (attend hear state ys).heard }).work final =
      (attend hear state ys).work final := by
  unfold work
  dsimp only
  split
  · rfl
  · rename_i ended
    rw [List.getLast?_append_of_ne_nil _ (heardSome (by simpa using ended))]

theorem workOver {solutions : List Solution} (ended : (attend hear state solutions).more = false)
    (final final' : Nat) :
    (attend hear state solutions).work final = (attend hear state solutions).work final' := by
  obtain ⟨last, there⟩ := Option.ne_none_iff_exists'.mp
    (mt List.getLast?_eq_none_iff.mp (heardSome ended))
  simp [work, ended, there]

def outcome (attendance : Attendance α) (torus : Torus) (path : List Site) (found final : Nat) :
    Outcome α :=
  ⟨attendance.state,
    ⟨torus.withRemovals (attendance.work final), path, found + attendance.heard.length⟩,
    attendance.more⟩

end Attendance

end

theorem Position.uncoverRead {shut torus : Torus} {column : Nat}
    (undo : Torus.Reverts (·.uncover column) shut torus) (count : Nat) (path : List Site) (found : Nat) :
    Position.uncover ⟨shut.withRemovals count, path, found⟩ column =
      .ok ⟨torus.withRemovals count, path, found⟩ := by
  have undone : _ = Except.ok (torus.withRemovals count) := undo count
  simp only [Position.uncover, bind, Except.bind, undone]
  rfl

theorem Position.leaveRead {inner torus : Torus} {site : Site}
    (undo : Torus.Reverts (·.uncoverRow site) inner torus) (count : Nat) (path : List Site) (found : Nat) :
    Position.leave ⟨inner.withRemovals count, site :: path, found⟩ site =
      .ok ⟨torus.withRemovals count, path, found⟩ := by
  have undone : _ = Except.ok (torus.withRemovals count) := undo count
  simp only [Position.leave, bind, Except.bind, undone]
  rfl

namespace Woven

variable {seat : Role → Site} {sheet : Sheet} {roster : Roster} {torus : Torus}
  {covered : List Nat} {row column : Nat}

def siteAt (seat : Role → Site) (column : Nat) : List Nat → Site
  | [] => seat (.head column)
  | row :: _ => seat (.entry row column)

theorem downHead (woven : Woven seat sheet roster torus) (known : column < sheet.columns.length) :
    torus.follow (seat (.head column)) .down = .ok (siteAt seat column (roster.live column)) := by
  rw [Torus.followRead (woven.seated (.head column) known) .down]
  have loop := woven.below column known
  rw [Roster.entriesIn] at loop
  cases split : roster.live column with
  | nil =>
    rw [split] at loop
    exact congrArg Except.ok loop.nextAlone
  | cons row rest =>
    rw [split] at loop
    exact congrArg Except.ok loop.nextHead

theorem downEntry (woven : Woven seat sheet roster torus) (sound : sheet.Sound)
    (within : roster.Within sheet) {before rest : List Nat}
    (split : roster.live column = before ++ row :: rest) :
    torus.follow (seat (.entry row column)) .down = .ok (siteAt seat column rest) := by
  have holds := within.liveMeets sound (split ▸ List.mem_append_right _ List.mem_cons_self)
  rw [Torus.followRead (woven.seated (.entry row column) holds) .down]
  have loop := woven.below column (sound.known row column holds)
  simp only [Roster.entriesIn, split, List.map_append, List.map_cons] at loop
  cases rest with
  | nil => exact congrArg Except.ok loop.loopShifted.nextHead
  | cons next rest => exact congrArg Except.ok loop.loopShifted.nextHead

theorem workKept (woven : Woven seat sheet roster torus) : torus.withRemovals roster.work = torus := by
  rw [← woven.work]
  rfl

theorem coverRowCommits {shut : Torus} {closed : Nat}
    (held : Woven seat sheet { roster.cover sheet column with work := closed } shut)
    (sound : sheet.Sound) (remains : roster.Remains sheet covered) (outside : column ∉ covered)
    (live : row ∈ roster.live column) (work : Nat) :
    ∃ inner deeper, (shut.withRemovals work).coverRow (seat (.entry row column)) = .ok inner ∧
      Woven seat sheet (roster.commit sheet column row work) inner ∧
      (roster.commit sheet column row work).Remains sheet deeper ∧
      Torus.Reverts (·.uncoverRow (seat (.entry row column))) inner shut := by
  have holds := remains.within.liveMeets sound live
  have ended := (remains.coverRemains sound outside).withWork work
  obtain ⟨inner, enters, woven, leaves⟩ :=
    (held.withRemovals work).coversRow sound ended holds (remains.beyondFree sound outside live)
  exact ⟨inner, _, enters, woven, remains.commitRemains sound outside live work, leaves⟩

section
variable {α : Type} {hear : α → Solution → α × Bool} {state : α}
  {descend : α → Position → Except Fault (Outcome α)} {explore : Nat → Nat → Nat → Yield}
  {path : List Site}

theorem triesRows (woven : Woven seat sheet roster torus) (sound : sheet.Sound)
    (within : roster.Within sheet) (known : column < sheet.columns.length) {before rows : List Nat}
    (split : roster.live column = before ++ rows)
    (each : ∀ row ∈ rows, ∀ state found work, ∃ inner,
      (torus.withRemovals work).coverRow (seat (.entry row column)) = .ok inner ∧
      Torus.Reverts (·.uncoverRow (seat (.entry row column))) inner torus ∧
      descend state ⟨inner, seat (.entry row column) :: path, found⟩ =
        .ok ((attend hear state (explore row found work).solutions).outcome inner
          (seat (.entry row column) :: path) found (explore row found work).work))
    {steps : Nat} (enough : rows.length < steps) (state : α) (found work : Nat) :
    Search.tryRows descend (seat (.head column)) steps (siteAt seat column rows) state
        ⟨torus.withRemovals work, path, found⟩ =
      .ok ((attend hear state (Yield.inTurn explore rows found work).solutions).outcome torus path
        found (Yield.inTurn explore rows found work).work) := by
  induction rows generalizing before steps state found work with
  | nil =>
    obtain ⟨steps, rfl⟩ := Nat.exists_eq_succ_of_ne_zero (Nat.ne_of_gt enough)
    simp [Search.tryRows, siteAt, Yield.inTurn, attend, Attendance.outcome, Attendance.work, pure,
      Except.pure]
  | cons row rest ih =>
    obtain ⟨steps, rfl⟩ := Nat.exists_eq_succ_of_ne_zero (Nat.ne_zero_of_lt enough)
    obtain ⟨inner, enters, undo, explored⟩ := each row List.mem_cons_self state found work
    have holds := within.liveMeets sound (split ▸ List.mem_append_right _ List.mem_cons_self)
    have apart := woven.entryApart holds known
    have entered : Position.enter ⟨torus.withRemovals work, path, found⟩ (seat (.entry row column)) =
        .ok ⟨inner, seat (.entry row column) :: path, found⟩ := by
      simp [Position.enter, enters, bind, Except.bind, pure, Except.pure]
    have below := (woven.withRemovals (explore row found work).work).downEntry sound within split
    have split' : roster.live column = (before ++ [row]) ++ rest := by simpa using split
    have later := ih split'
      (fun other member => each other (List.mem_cons_of_mem _ member)) (Nat.lt_of_succ_lt_succ enough)
    simp only [Search.tryRows, siteAt, if_neg apart, bind, Except.bind, entered, explored,
      Attendance.outcome, Position.leaveRead undo, Yield.inTurn, Yield.followed]
    cases goes : (attend hear state (explore row found work).solutions).more with
    | true =>
      have tail := later (attend hear state (explore row found work).solutions).state
        (found + (explore row found work).solutions.length) (explore row found work).work
      simp only [Attendance.workMore goes, Attendance.heardAll goes, if_true, below, tail,
        Attendance.outcome, Attendance.appendMore goes, Attendance.workLater, List.length_append,
        Nat.add_assoc]
    | false =>
      simp only [Attendance.appendOver goes, goes, Bool.false_eq_true, if_false, pure, Except.pure]
      rw [Attendance.workOver goes]

section
variable {visit : α → Position → Except Fault (α × Bool)} {path : List (Nat × Nat)} {byFewest : Bool}
  {bound : Nat}

def Tells (visit : α → Position → Except Fault (α × Bool)) (hear : α → Solution → α × Bool)
    (seat : Role → Site) (sheet : Sheet) (byFewest : Bool) (bound : Nat) : Prop :=
  ∀ {roster : Roster} {torus : Torus} {covered : List Nat} {path : List (Nat × Nat)},
    Woven seat sheet roster torus → roster.Remains sheet covered →
    (∀ entry ∈ path, entry.2 ∈ sheet.columnsOf entry.1) → roster.pending.length < bound →
    ∀ state found, Search.explore visit byFewest bound state ⟨torus, sitesOf seat path, found⟩ =
      .ok ((attend hear state (roster.search sheet byFewest path found).solutions).outcome torus
        (sitesOf seat path) found (roster.search sheet byFewest path found).work)

theorem tellsHere (visits : ∀ state position solution, position.solution = .ok solution →
      visit state position = .ok (hear state solution))
    (woven : Woven seat sheet roster torus) (sound : sheet.Sound) (remains : roster.Remains sheet covered)
    (chosen : ∀ entry ∈ path, entry.2 ∈ sheet.columnsOf entry.1)
    (choice : roster.branch byFewest = none) (state : α) (found : Nat) :
    Search.explore visit byFewest (bound + 1) state ⟨torus, sitesOf seat path, found⟩ =
      .ok ((attend hear state (roster.search sheet byFewest path found).solutions).outcome torus
        (sitesOf seat path) found (roster.search sheet byFewest path found).work) := by
  have branches := woven.branchColumnRead remains byFewest
  have told := visits state _ _ (woven.solutionRead sound chosen (found + 1))
  have work : (attend hear state [sheet.solution path (found + 1) roster.work]).work roster.work =
      roster.work := Attendance.oneWork _
  rw [choice] at branches
  rw [Roster.searchOver choice, Attendance.outcome, work, woven.workKept, Attendance.attendOne]
  simp only [Search.explore, branches, bind, Except.bind, Position.countFound, told]
  rfl

theorem tellsBelow {shut : Torus} {closed : Nat} (tells : Tells visit hear seat sheet byFewest bound)
    (held : Woven seat sheet { roster.cover sheet column with work := closed } shut)
    (sound : sheet.Sound) (remains : roster.Remains sheet covered) (pending : column ∈ roster.pending)
    (chosen : ∀ entry ∈ path, entry.2 ∈ sheet.columnsOf entry.1)
    (enough : roster.pending.length < bound + 1) (live : row ∈ roster.live column) (state : α)
    (found work : Nat) :
    let below := Roster.search sheet byFewest ((row, column) :: path) found
      (roster.commit sheet column row work)
    ∃ inner, (shut.withRemovals work).coverRow (seat (.entry row column)) = .ok inner ∧
      Torus.Reverts (·.uncoverRow (seat (.entry row column))) inner shut ∧
      Search.explore visit byFewest bound state
        ⟨inner, seat (.entry row column) :: sitesOf seat path, found⟩ =
        .ok ((attend hear state below.solutions).outcome inner
          (seat (.entry row column) :: sitesOf seat path) found below.work) := by
  intro below
  have outside := (remains.memPending.mp pending).2
  obtain ⟨inner, deeper, enters, woven, after, leaves⟩ := held.coverRowCommits sound remains outside live work
  have chosen' : ∀ entry ∈ (row, column) :: path, entry.2 ∈ sheet.columnsOf entry.1 :=
    List.forall_mem_cons.mpr ⟨remains.within.liveMeets sound live, chosen⟩
  have fewer : (roster.commit sheet column row work).pending.length < _ :=
    Roster.commitShortens pending row work
  exact ⟨inner, enters, leaves, tells woven after chosen'
    (Nat.lt_of_lt_of_le fewer (Nat.le_of_lt_succ enough)) state found⟩

theorem exploreTells (visits : ∀ state position solution, position.solution = .ok solution →
      visit state position = .ok (hear state solution))
    (sound : sheet.Sound) (byFewest : Bool) (bound : Nat) :
    Tells visit hear seat sheet byFewest bound := by
  induction bound with
  | zero =>
    intro roster torus covered path woven remains chosen enough
    cases enough
  | succ bound ih =>
    intro roster torus covered path woven remains chosen enough state found
    cases choice : roster.branch byFewest with
    | none => exact woven.tellsHere visits sound remains chosen choice state found
    | some column =>
      have branches := woven.branchColumnRead remains byFewest
      rw [choice] at branches
      have pending := Roster.branchPending choice
      have outside := (remains.memPending.mp pending).2
      have known := pendingKnown remains pending
      obtain ⟨shut, covers, held, undo⟩ := woven.coverWoven sound remains known outside
      obtain ⟨-, -, -, head, -⟩ := held.headerOf known
      have first := held.downHead known
      have live : (roster.cover sheet column).live column = roster.live column := if_pos rfl
      have tried := held.triesRows sound (remains.coverRemains sound outside).within known
        (List.nil_append _).symm
        (fun row member => tellsBelow ih held sound remains pending chosen enough (live ▸ member))
        (held.liveRoom sound (remains.coverRemains sound outside).within known) state found
        (roster.cover sheet column).work
      rw [held.workKept, live] at tried
      rw [Roster.searchBranch choice]
      simp only [Search.explore, branches, bind, Except.bind, Position.cover, covers, head, first, live,
        pure, Except.pure, tried, Attendance.outcome, Position.uncoverRead undo]

end

end

end Woven

end DancingLinks
