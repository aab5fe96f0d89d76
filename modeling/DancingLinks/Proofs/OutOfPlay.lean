import DancingLinks.Proofs.ExactCovers

/-! Rows out of play. As long as no entry is set in such a row, every size counts the rows in play that
have an entry in the column, and no solution has any other row. An entry set in a row that is out of play
is linked below its head all the same, and the row's first entry is not: the size counts a row that is
shown as out of play, and a search chooses it. -/
namespace DancingLinks

namespace Solver

def rowsIn (solver : Solver) (column : Nat) : Set Nat :=
  {row | solver.isRowEnabled row = .ok (some true) ∧ solver.HasEntry row column}

def InPlay (solver : Solver) (solution : Solution) : Prop :=
  ∀ row ∈ solution.rows, solver.isRowEnabled row = .ok (some true)

structure LeavesOut (solver : Solver) : Prop where
  sizes : ∀ column, solver.columnSize column =
    (solver.resolve column).map fun index => (solver.rowsIn index).ncard
  told : ∃ reply solutions, solver.solve = .ok reply ∧
    reply.solver.listener = solver.listener.map (·.told solutions) ∧
    reply.solver.sink = solver.sink.map (fun sink => (sink.recorded solutions).flush.2) ∧
    reply.reported =
      (if solver.listener.isNone && solver.sink.isNone then [] else solutions.map Solution.rows) ∧
    ∀ solution ∈ solutions, solver.InPlay solution
  yielded : ∀ count, ∃ outcomes search, solver.enumeration.calls count = .ok (outcomes, search) ∧
    ∀ solution, some solution ∈ outcomes → solver.InPlay solution

variable {solver : Solver} {sheet : Sheet}

structure ShowsRows (solver : Solver) (sheet : Sheet) : Prop where
  sound : sheet.Sound
  enabled : ∀ row, solver.isRowEnabled row = .ok (some true) ↔ sheet.isEnabled row = true
  entries : ∀ row column, solver.HasEntry row column ↔ column ∈ sheet.columnsOf row

theorem ShowsRows.rowsLive (shows : solver.ShowsRows sheet) (column : Nat) :
    solver.rowsIn column = ((sheet.live column).toFinset : Set Nat) := by
  ext row
  rw [Finset.mem_coe, List.mem_toFinset]
  constructor
  · intro counted
    obtain ⟨enabled, member⟩ := counted
    exact (shows.sound.enabledIff ((shows.entries row column).mp member)).mp ((shows.enabled row).mp enabled)
  · intro live
    have member := shows.sound.holds column row live
    exact ⟨(shows.enabled row).mpr ((shows.sound.enabledIff member).mpr live),
      (shows.entries row column).mpr member⟩

theorem ShowsRows.rowsCounted (shows : solver.ShowsRows sheet) (column : Nat) :
    (solver.rowsIn column).ncard = (sheet.live column).length := by
  rw [shows.rowsLive, Set.ncard_coe_finset, List.toFinset_card_of_nodup (shows.sound.once column)]

namespace Keeps

theorem showsRows (keeps : solver.Keeps sheet) : solver.ShowsRows sheet :=
  ⟨keeps.sound, fun _ => keeps.enabledIff, fun _ _ => keeps.entryIff⟩

theorem columnSizeCounts (keeps : solver.Keeps sheet) (column : ColumnRef) :
    solver.columnSize column = (solver.resolve column).map fun index => (solver.rowsIn index).ncard := by
  have resolves := keeps.resolveRead column
  rw [columnSize, columnAt]
  cases resolved : solver.resolve column with
  | none => rfl
  | some index =>
    obtain ⟨seat, resting, -⟩ := keeps.holds
    have known := Sheet.resolveKnown (resolves.symm.trans resolved)
    obtain ⟨header, present, -, -, size⟩ := resting.headerOf known
    rw [Option.bind_some, present, Option.map_some, Option.map_some, keeps.showsRows.rowsCounted, size]
    rfl

theorem solutionInPlay (keeps : solver.Keeps sheet) {byFewest : Bool} {solution : Solution}
    (found : solution ∈ (sheet.search byFewest).solutions) : solver.InPlay solution := by
  intro row member
  have exhausts := keeps.sound.searchExhausts byFewest
  have completes := (exhausts.exact _).mp (List.mem_map_of_mem (List.mem_map_of_mem found))
  exact keeps.enabledIff.mpr (completes.enabled row (List.mem_toFinset.mpr member))

theorem leavesOut (keeps : solver.Keeps sheet) : solver.LeavesOut where
  sizes := keeps.columnSizeCounts
  told := by
    refine ⟨_, _, solveAnswers keeps, solver.audienceListens _, solver.audienceRecords _,
      solver.reportedTold _, fun solution heard => ?_⟩
    exact keeps.solutionInPlay ((Attendance.heardPrefix _).subset heard)
  yielded count := by
    have begun : Poised sheet solver.torus solver.config.byFewest solver.enumeration _ := .fresh
    obtain ⟨search, left, calls, -⟩ := begun.callsAnswer keeps.sound keeps.holds count
    refine ⟨_, search, calls, fun solution taken => ?_⟩
    obtain ⟨place, -, there⟩ := List.mem_map.mp taken
    exact keeps.solutionInPlay (List.mem_of_getElem? there)

end Keeps

end Solver

theorem wellBuiltLeavesOut {solver : Solver} (built : WellBuilt solver) : solver.LeavesOut := by
  obtain ⟨sheet, keeps⟩ := built.keepsSheet
  exact keeps.leavesOut

theorem choiceLeavesOut : WellBuilt .choice ∧ Solver.choice.isRowEnabled 4 = .ok (some true) ∧
    Solver.choice.isRowEnabled 6 = .ok (some false) ∧ Solver.choice.LeavesOut :=
  ⟨⟨_, _, Solver.choiceMade⟩, rfl, rfl, wellBuiltLeavesOut ⟨_, _, Solver.choiceMade⟩⟩

def Sheet.placeOut (sheet : Sheet) (column : Nat) : Sheet :=
  { sheet.place column with live := sheet.live }

theorem Sheet.Sound.placeOut {sheet : Sheet} {column : Nat} (sound : sheet.Sound)
    (known : column < sheet.columns.length) (fresh : column ∉ sheet.columnsOf sheet.rowInProgress)
    (out : sheet.isEnabled sheet.rowInProgress = false) : (sheet.placeOut column).Sound where
  known _ _ := sound.placedKnown known fresh
  distinct := sound.placedDistinct fresh
  filled _ := sound.placedFilled fresh
  once := sound.once
  holds y row live := (sound.memPlaced fresh).mpr (.inl (sound.holds y row live))
  whole y row live other inRow := by
    rcases (sound.memPlaced fresh).mp inRow with old | ⟨here, -⟩
    · exact sound.whole y row live other old
    · exact absurd (here ▸ live) (sound.liveNowhere out y)
  begun _ := by simp [Sheet.placeOut, Sheet.place, if_neg fresh]

theorem enabledOut {seat : Role → Site} {sheet : Sheet} {torus : Torus} {column row work : Nat}
    (resting : Resting seat (sheet.placeOut column) { (sheet.place column).roster with work } torus)
    (listed : Listed seat (sheet.placeOut column) torus) (sound : sheet.Sound)
    (sound' : (sheet.placeOut column).Sound) (fresh : column ∉ sheet.columnsOf sheet.rowInProgress)
    (begun : sheet.columnsOf sheet.rowInProgress ≠ [])
    (inside : row < (sheet.placeOut column).rows.length) :
    torus.isRowEnabled row = .ok ((sheet.placeOut column).isEnabled row) := by
  obtain ⟨first, rest, split⟩ := List.exists_cons_of_ne_nil (sound'.filled row inside)
  have member : first ∈ (sheet.placeOut column).columnsOf row := split ▸ List.mem_cons_self
  have older : ¬ (row = sheet.rowInProgress ∧ first = column) := by
    intro new
    obtain ⟨here, same⟩ := new
    obtain ⟨y, others, filled⟩ := List.exists_cons_of_ne_nil begun
    have whole := sound.columnsOfPlaced fresh row
    rw [if_pos here, here, filled, List.cons_append, ← here] at whole
    have top : y = first := (List.cons.inj (whole.symm.trans split)).1
    rw [filled, top, same] at fresh
    exact fresh List.mem_cons_self
  have top : torus.firstEntry row = .ok (seat (.entry row first)) := by
    simp [Torus.firstEntry, listed.first row first rest split]
  rw [enabledAt resting member (sound'.known row first member) (sound.placedOnce fresh first)
    (fun other => sound.placedHolds fresh) top]
  refine congrArg Except.ok (Bool.eq_iff_iff.mpr ?_)
  rw [decide_eq_true_iff, sound'.enabledIff member]
  exact (Sheet.livePlaced fresh).trans (or_iff_left older)

theorem Solver.stillResolved {solver : Solver} {column : ColumnRef} {index : Nat}
    (resolved : solver.resolve column = some index) {torus : Torus} (inside : index < torus.columns.size) :
    (solver.withTorus torus).resolve column = some index := by
  cases column with
  | named name => exact resolved
  | numbered number =>
    simp only [resolve] at resolved ⊢
    split at resolved
    · cases resolved
      exact if_pos inside
    · cases resolved

theorem Solver.Keeps.placedOutOvercounts {solver : Solver} {sheet : Sheet} (keeps : solver.Keeps sheet)
    {column : ColumnRef} {index : Nat} (resolved : solver.resolve column = some index) {torus : Torus}
    (placed : solver.torus.place index = .ok (.placed, torus))
    (out : solver.torus.isRowEnabled solver.torus.rowInProgress = .ok false) :
    (solver.withTorus torus).resolve column = some index ∧
      (solver.withTorus torus).columnSize column =
        some (((solver.withTorus torus).rowsIn index).ncard + 1) := by
  have sound := keeps.sound
  have known := Sheet.resolveKnown ((keeps.resolveRead column).symm.trans resolved)
  have fresh := keeps.holds.placedFresh sound known placed
  obtain ⟨stored, out⟩ := keeps.holds.outStored sound out
  have sound' := sound.placeOut known fresh out
  have within : ({ sheet.roster with work := solver.torus.removals } : Roster).Within
      (sheet.placeOut index) := fun _ => List.Sublist.refl _
  obtain ⟨seat, resting, listed⟩ := keeps.holds
  obtain ⟨seat', after, again, rests, lists⟩ :=
    placeTops resting listed sound known fresh sheet.live sound' within
  cases again.symm.trans placed
  have shows : (solver.withTorus torus).ShowsRows (sheet.placeOut index) :=
    ⟨sound', fun row => enabledShown lists.rows (enabledOut rests lists sound sound' fresh
      (sound.filled _ stored)), fun row column => entryShown lists.rows (rowStored rests lists sound')⟩
  have known' : index < (sheet.placeOut index).columns.length := Sheet.placedColumns fresh ▸ known
  obtain ⟨header, present, -, -, size⟩ := rests.headerOf known'
  have still := stillResolved resolved (Array.getElem?_eq_some_iff.mp present).1
  have grown : (sheet.place index).live index = sheet.rowInProgress :: sheet.live index := by
    rw [Sheet.placedLive fresh, if_pos rfl]
  refine ⟨still, ?_⟩
  rw [Solver.columnSize, Solver.columnAt, still, Option.bind_some, shows.rowsCounted]
  rw [show (solver.withTorus torus).torus.columns[index]? = some header from present]
  exact congrArg some (size.trans (congrArg List.length grown))

theorem leavesOutIff {solver after : Solver} (built : WellBuilt solver) {action : Action}
    (performed : solver.perform action = .ok after) : after.LeavesOut ↔ solver.Admits action := by
  constructor
  · intro leavesOut
    cases action with
    | setColumn column =>
      intro index torus resolved placed out
      obtain ⟨sheet, keeps⟩ := built.keepsSheet
      obtain ⟨still, size⟩ := keeps.placedOutOvercounts resolved placed out
      have set : solver.perform (.setColumn column) = .ok (solver.withTorus torus) := by
        simp [Solver.perform, Solver.setColumn, resolved, placed, bind, Except.bind, pure, Except.pure]
      cases set.symm.trans performed
      have counted := leavesOut.sizes column
      rw [size, still, Option.map_some] at counted
      exact Nat.succ_ne_self _ (Option.some.inj counted)
    | _ => trivial
  · intro admitted
    obtain ⟨config, actions, history⟩ := built
    obtain ⟨sheet, keeps⟩ := WellBuilt.keepsSheet ⟨_, _, history.call action admitted performed⟩
    exact keeps.leavesOut

def Solver.extendingCalls : List Action :=
  [.addColumn "b" true, .addColumn "s" false, .setColumn (.named "s"), .newRow, .setColumn (.named "s"),
    .disableRow 1, .setColumn (.named "b"), .setListener fun _ => true]

/-- Two rows with an entry in a secondary column; the second was taken out of play, and then an entry in
the primary column was set in it. -/
def Solver.extended : Solver where
  config := .standard
  position := .ofTorus ⟨#[⟨1, 1, 0, 0, .root⟩, ⟨0, 0, 5, 5, .head 0⟩, ⟨2, 2, 3, 3, .head 1⟩,
    ⟨3, 3, 2, 2, .entry 0 1⟩, ⟨5, 5, 4, 4, .entry 1 1⟩, ⟨4, 4, 1, 1, .entry 1 0⟩],
    #[⟨"b", 1, 1, true, some 1⟩, ⟨"s", 2, 1, false, some 1⟩], #[3, 4], some 4, 0⟩
  names := ⟨[("s", 1), ("b", 0)]⟩
  listener := some (.ofAnswer fun _ => true)
  sink := none

theorem Solver.extendedEmpty : Solver.extended.rowsIn 0 = ∅ := by
  refine Set.eq_empty_of_forall_notMem fun row counted => ?_
  obtain ⟨enabled, columns, stored, member⟩ := counted
  match row with
  | 0 =>
    cases stored
    simp at member
  | 1 => cases enabled
  | row + 2 =>
    have outside : ¬ row + 2 < Solver.extended.rowCount := Nat.not_lt_of_le (Nat.le_add_left 2 row)
    rw [Solver.isRowEnabled, if_neg outside] at enabled
    cases enabled

theorem extendedNotLeftOut :
    Solver.extendingCalls.foldlM Solver.perform (.ofConfig .standard) = .ok .extended ∧
      Solver.extended.isRowEnabled 1 = .ok (some false) ∧
      Solver.extended.columnSize (.named "b") = some 1 ∧ Solver.extended.rowsIn 0 = ∅ ∧
      Solver.extended.solve.map (fun reply => reply.reported) = .ok [[1]] ∧
      (Solver.extended.enumeration.calls 1).map (fun answer => answer.1.map (·.map Solution.rows)) =
        .ok [some [1]] ∧
      ¬ Solver.extended.LeavesOut := by
  refine ⟨rfl, rfl, rfl, Solver.extendedEmpty, rfl, rfl, fun leavesOut => ?_⟩
  have size : some 1 = some (Solver.extended.rowsIn 0).ncard := leavesOut.sizes (.named "b")
  rw [Solver.extendedEmpty, Set.ncard_empty] at size
  cases size

end DancingLinks
