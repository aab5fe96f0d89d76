import DancingLinks.Proofs.LoadedSolver
import DancingLinks.Proofs.OutOfPlay

/-! The rows of an arena, its heads and its names, whatever has become of its columns. An entry that is
set in a row out of play tears the vertical links apart, and rows that are toggled later tear them
further; all of this happens above and below the entries. Laid out, with every cell alone in its column,
the arena still holds a sheet that has no row in play. -/
namespace DancingLinks
open Function (update)

def Cell.laid (site : Site) (cell : Cell) : Cell := { cell with up := site, down := site }

namespace Torus

def laid (torus : Torus) : Torus :=
  { torus with
    cells := torus.cells.mapIdx Cell.laid
    columns := torus.columns.map fun column => { column with size := 0 } }

variable {torus after : Torus} {site target anchor : Site} {direction : Direction} {role : Role}
  {row column : Nat}

theorem cellLaid (torus : Torus) (site : Site) :
    torus.laid.cells[site]? = torus.cells[site]?.map (Cell.laid site) := by
  simp [laid]

theorem sizeLaid (torus : Torus) : torus.laid.cells.size = torus.cells.size := by simp [laid]

theorem columnLaid (torus : Torus) (column : Nat) :
    torus.laid.columns[column]? = torus.columns[column]?.map fun header => { header with size := 0 } := by
  simp [laid]

theorem followLaid (across : direction.isAcross = true) :
    torus.laid.follow site direction = torus.follow site direction := by
  simp only [follow, cell, cellLaid]
  cases torus.cells[site]? with
  | none => rfl
  | some cell => cases direction <;> first | rfl | cases across

theorem pointLaid (across : direction.isAcross = true) :
    torus.laid.point site direction target = (torus.point site direction target).map laid := by
  simp only [point, sizeLaid]
  split
  · refine congrArg Except.ok ?_
    simp only [laid, Torus.mk.injEq, and_true]
    refine Array.ext_getElem? fun s => ?_
    simp only [Array.getElem?_modify, Array.getElem?_mapIdx]
    split
    · cases torus.cells[s]? with
      | none => rfl
      | some cell => cases direction <;> first | rfl | cases across
    · rfl
  · rfl

theorem insertLaid (across : direction.isAcross = true) :
    torus.laid.insertBeside anchor direction site =
      (torus.insertBeside anchor direction site).map laid := by
  have back : direction.opposite.isAcross = true := by
    cases direction <;> first | rfl | cases across
  simp only [insertBeside, followLaid across]
  cases torus.follow anchor direction with
  | error fault => rfl
  | ok next =>
    simp only [bind, Except.bind, pointLaid across]
    cases torus.point site direction next with
    | error fault => rfl
    | ok first =>
      simp only [Except.map, pointLaid back]
      cases first.point site direction.opposite anchor with
      | error fault => rfl
      | ok second =>
        simp only [Except.map, pointLaid back]
        cases second.point next direction.opposite site with
        | error fault => rfl
        | ok third => exact pointLaid across

theorem walkLaid (across : direction.isAcross = true) (start : Site) (steps : Nat) (site : Site) :
    torus.laid.walk start direction steps site = torus.walk start direction steps site := by
  induction steps generalizing site with
  | zero => rfl
  | succ steps ih => simp only [walk, followLaid across, ih]

theorem columnOfLaid (torus : Torus) : torus.laid.columnOf = torus.columnOf := by
  funext s
  simp only [columnOf, cell, cellLaid]
  cases torus.cells[s]? <;> rfl

theorem storedLaid (torus : Torus) (row : Nat) : torus.laid.storedRow row = torus.storedRow row := by
  simp only [storedRow, rowColumns, fullRing, ring, sizeLaid, columnOfLaid,
    walkLaid (show Direction.right.isAcross from rfl)]
  rfl

theorem pointAside (aside : direction.isAcross = false)
    (done : torus.point site direction target = .ok after) : after.laid = torus.laid := by
  unfold point at done
  split at done
  · cases done
    simp only [laid, Torus.mk.injEq, and_true]
    refine Array.ext_getElem? fun s => ?_
    simp only [Array.getElem?_modify, Array.getElem?_mapIdx]
    split
    · cases torus.cells[s]? with
      | none => rfl
      | some cell => cases direction <;> first | rfl | cases aside
    · rfl
  · cases done

theorem insertAside (aside : direction.isAcross = false)
    (done : torus.insertBeside anchor direction site = .ok after) : after.laid = torus.laid := by
  have back : direction.opposite.isAcross = false := by
    cases direction <;> first | rfl | cases aside
  obtain ⟨next, -, done⟩ := bindOk.mp done
  obtain ⟨first, onward, done⟩ := bindOk.mp done
  obtain ⟨second, behind, done⟩ := bindOk.mp done
  obtain ⟨third, returns, last⟩ := bindOk.mp done
  rw [pointAside aside last, pointAside back returns, pointAside back behind, pointAside aside onward]

theorem editLaid (torus : Torus) (column : Nat) (edit : Column → Column)
    (edits : ∀ c, { edit c with size := 0 } = { c with size := 0 }) :
    (torus.editColumn column edit).laid = torus.laid := by
  simp only [laid, editColumn, Torus.mk.injEq, true_and, and_true]
  refine Array.ext_getElem? fun index => ?_
  simp only [Array.getElem?_map, Array.getElem?_modify]
  split
  · cases torus.columns[index]? <;> simp [edits]
  · rfl

theorem growAside (done : torus.grow column = .ok after) : after.laid = torus.laid := by
  unfold grow at done
  split at done
  · cases done
    exact editLaid torus column _ fun _ => rfl
  · cases done

theorem shrinkAside (done : torus.shrink column = .ok after) : after.laid = torus.laid := by
  obtain ⟨header, -, done⟩ := bindOk.mp done
  split at done
  · cases done
  · cases done
    exact editLaid torus column _ fun _ => rfl

theorem disableEntryAside (done : torus.disableEntry site = .ok after) : after.laid = torus.laid := by
  obtain ⟨unhooked, unhooks, done⟩ := bindOk.mp done
  obtain ⟨middle, above, below⟩ := bindOk.mp done
  obtain ⟨cell, -, unhooks⟩ := bindOk.mp unhooks
  obtain ⟨column, -, unhooks⟩ := bindOk.mp unhooks
  obtain ⟨first, down, unhooks⟩ := bindOk.mp unhooks
  obtain ⟨second, up, shrinks⟩ := bindOk.mp unhooks
  rw [pointAside rfl below, pointAside rfl above, shrinkAside shrinks, pointAside rfl up,
    pointAside rfl down]

theorem enableEntryAside (done : torus.enableEntry site = .ok after) : after.laid = torus.laid := by
  obtain ⟨column, -, done⟩ := bindOk.mp done
  obtain ⟨head, -, done⟩ := bindOk.mp done
  obtain ⟨middle, inserts, grows⟩ := bindOk.mp done
  rw [growAside grows, insertAside rfl inserts]

theorem eachAside {step : Torus → Site → Except Fault Torus} {sites : List Site}
    (each : ∀ {torus site after}, step torus site = .ok after → after.laid = torus.laid)
    (done : sites.foldlM step torus = .ok after) : after.laid = torus.laid := by
  induction sites generalizing torus with
  | nil =>
    cases done
    rfl
  | cons site rest ih =>
    rw [List.foldlM_cons] at done
    obtain ⟨middle, first, later⟩ := bindOk.mp done
    exact (ih later).trans (each first)

theorem disableRowAside {isChanged : Bool} (done : torus.disableRow row = .ok (isChanged, after)) :
    after.laid = torus.laid := by
  obtain ⟨isEnabled, -, done⟩ := bindOk.mp done
  split at done
  · obtain ⟨first, -, done⟩ := bindOk.mp done
    obtain ⟨entries, -, done⟩ := bindOk.mp done
    obtain ⟨last, disables, same⟩ := bindOk.mp done
    cases same
    exact eachAside disableEntryAside disables
  · cases done
    rfl

theorem enableRowAside {isChanged : Bool} (done : torus.enableRow row = .ok (isChanged, after)) :
    after.laid = torus.laid := by
  obtain ⟨isEnabled, -, done⟩ := bindOk.mp done
  split at done
  · cases done
    rfl
  · obtain ⟨first, -, done⟩ := bindOk.mp done
    obtain ⟨entries, -, done⟩ := bindOk.mp done
    obtain ⟨last, enables, same⟩ := bindOk.mp done
    cases same
    exact eachAside enableEntryAside enables

theorem settleLaid (torus : Torus) (role : Role) :
    torus.laid.settle role = ((torus.settle role).1, (torus.settle role).2.laid) := by
  simp only [settle, sizeLaid, Prod.mk.injEq, true_and]
  simp only [laid, Torus.mk.injEq, and_true]
  refine Array.ext_getElem? fun s => ?_
  simp only [Array.getElem?_push, Array.getElem?_mapIdx, Array.size_mapIdx]
  split
  · rename_i last
    rw [last]
    rfl
  · rfl

theorem addColumnLaid (torus : Torus) (name : String) (isPrimary : Bool) :
    torus.laid.addColumn name isPrimary =
      (torus.addColumn name isPrimary).map fun answer => (answer.1, answer.2.laid) := by
  have width : torus.laid.columns.size = torus.columns.size := by simp [laid]
  have pushed : ∀ (torus : Torus) (header : Column), header.size = 0 →
      ({ torus.laid with columns := torus.laid.columns.push header } : Torus) =
        ({ torus with columns := torus.columns.push header } : Torus).laid := by
    intro torus header none
    simp [laid, ← none]
  simp only [addColumn, width, settleLaid]
  cases isPrimary with
  | false =>
    simp only [Bool.false_eq_true, if_false, bind, Except.bind, pure, Except.pure]
    rw [pushed _ _ rfl]
    rfl
  | true =>
    simp only [if_true, bind, Except.bind, insertLaid (show Direction.left.isAcross from rfl)]
    cases (torus.settle (.head torus.columns.size)).2.insertBeside root .left
        (torus.settle (.head torus.columns.size)).1 with
    | error fault => rfl
    | ok opened =>
      simp only [Except.map, pure, Except.pure]
      rw [pushed _ _ rfl]

theorem writtenLaid (torus : Torus) (column : Nat) :
    torus.laid.written column = (torus.written column).map laid := by
  simp only [written, settleLaid, sizeLaid]
  have same : torus.laid.rowInProgress = torus.rowInProgress := rfl
  have current : torus.laid.current = torus.current := rfl
  rw [same, current]
  cases torus.current with
  | none => rfl
  | some first => exact insertLaid rfl

def noted (torus : Torus) (column row : Nat) : Torus :=
  torus.editColumn column fun header => { header with lastRow := some row }

theorem notedLaid (torus : Torus) (column row : Nat) :
    (torus.noted column row).laid = torus.laid.noted column row := by
  simp only [laid, noted, editColumn, Torus.mk.injEq, true_and, and_true]
  refine Array.ext_getElem? fun index => ?_
  simp only [Array.getElem?_map, Array.getElem?_modify]
  split
  · cases torus.columns[index]? <;> rfl
  · rfl

theorem placeCases {placement : Placement} (done : torus.place column = .ok (placement, after)) :
    ∃ header, torus.columns[column]? = some header ∧
      ((header.lastRow = some torus.rowInProgress ∧ placement = .alreadyPresent torus.rowInProgress ∧
          after = torus) ∨
        (header.lastRow ≠ some torus.rowInProgress ∧ placement = .placed ∧
          ∃ middle, torus.laid.written column = .ok middle ∧
            after.laid = middle.noted column torus.rowInProgress)) := by
  cases listed : torus.columns[column]? with
  | none => simp [place, Torus.column, listed, bind, Except.bind] at done
  | some header =>
    have read : torus.column column = .ok header := by simp [Torus.column, listed]
    refine ⟨header, rfl, ?_⟩
    by_cases last : header.lastRow = some torus.rowInProgress
    · simp only [place, read, last, if_true, bind, Except.bind, pure, Except.pure] at done
      cases done
      exact .inl ⟨last, rfl, rfl⟩
    · rw [placeSteps read last] at done
      obtain ⟨middle, writes, done⟩ := bindOk.mp done
      obtain ⟨grown, grows, done⟩ := bindOk.mp done
      obtain ⟨topped, inserts, same⟩ := bindOk.mp done
      cases same
      refine .inr ⟨last, rfl, middle.laid, by rw [writtenLaid, writes]; rfl, ?_⟩
      rw [← growAside grows, ← notedLaid]
      exact insertAside rfl inserts

end Torus

theorem Resting.restingNoted {seat : Role → Site} {sheet : Sheet} {roster : Roster} {torus : Torus}
    (resting : Resting seat sheet roster torus) (column row : Nat) :
    Resting seat sheet roster (torus.noted column row) where
  root := resting.root
  seated := resting.seated
  width := (Array.size_modify ..).trans resting.width
  headers y header listed := by
    simp only [Torus.noted, Torus.editColumn, Array.getElem?_modify] at listed
    split at listed
    · obtain ⟨former, there, rfl⟩ := Option.map_eq_some_iff.mp listed
      exact resting.headers y former there
    · exact resting.headers y header listed
  heads := resting.heads
  aside := resting.aside
  below := resting.below
  across := resting.across
  work := resting.work
  idle := resting.idle

structure Torus.Drafts (sheet : Sheet) (torus : Torus) : Prop where
  sound : sheet.Sound
  bare : ∀ column, sheet.live column = []
  holds : torus.laid.Holds sheet

namespace Torus.Drafts

variable {sheet : Sheet} {torus after : Torus} {row column : Nat}

theorem ofEmpty : Torus.empty.Drafts .empty := by
  have same : Torus.empty.laid = Torus.empty := by
    simp [Torus.laid, Torus.empty, Cell.laid, Cell.alone, Torus.root]
  exact ⟨.emptySound, fun _ => rfl, same.symm ▸ .ofEmpty⟩

theorem newRow (drafts : torus.Drafts sheet) : torus.newRow.Drafts sheet.newRow :=
  ⟨drafts.sound.newRowSound, drafts.bare, drafts.holds.newRow⟩

theorem draftsAside (drafts : torus.Drafts sheet) (same : after.laid = torus.laid) : after.Drafts sheet :=
  ⟨drafts.sound, drafts.bare, same ▸ drafts.holds⟩

theorem storedRead (drafts : torus.Drafts sheet) (inside : row < sheet.rows.length) :
    torus.storedRow row = .ok (sheet.columnsOf row) := by
  obtain ⟨seat, resting, listed⟩ := drafts.holds
  rw [← Torus.storedLaid]
  exact rowStored resting listed drafts.sound inside

theorem sizesRead (drafts : torus.Drafts sheet) :
    torus.columns.size = sheet.columns.length ∧ torus.rows.size = sheet.rows.length := by
  obtain ⟨seat, resting, listed⟩ := drafts.holds
  exact ⟨(Array.size_map ..).symm.trans resting.width, listed.rows⟩

theorem buildingIff (drafts : torus.Drafts sheet) :
    torus.rowInProgress = sheet.rowInProgress ∧
      (torus.current ≠ none ↔ sheet.columnsOf sheet.rowInProgress ≠ []) := by
  obtain ⟨seat, resting, listed⟩ := drafts.holds
  obtain ⟨current, progress⟩ := listed.listedProgress drafts.sound
  refine ⟨progress, ?_⟩
  rw [show torus.current = torus.laid.current from rfl, current]
  cases sheet.columnsOf sheet.rowInProgress <;> simp

theorem lastHere (drafts : torus.Drafts sheet) {header : Column}
    (present : torus.columns[column]? = some header) :
    header.lastRow = some torus.rowInProgress ↔ column ∈ sheet.columnsOf sheet.rowInProgress := by
  have progress := drafts.buildingIff.1
  obtain ⟨seat, resting, listed⟩ := drafts.holds
  have found : torus.laid.columns[column]? = some { header with size := 0 } := by
    rw [Torus.columnLaid, present]
    rfl
  have last : ({ header with size := 0 } : Column).lastRow = some sheet.rowInProgress ↔ _ :=
    listed.lastHere drafts.sound found
  rw [progress]
  exact last

theorem writtenDrafts (drafts : torus.Drafts sheet) (fresh : column ∉ sheet.columnsOf sheet.rowInProgress)
    {middle : Torus} (written : torus.laid.written column = .ok middle)
    (noted : after.laid = middle.noted column torus.rowInProgress) {seat : Role → Site}
    (resting : Resting seat sheet { sheet.roster with work := torus.laid.removals } torus.laid)
    (listed : Listed seat sheet torus.laid) :
    Resting (update seat (.entry sheet.rowInProgress column) torus.laid.cells.size) (sheet.placeOut column)
        { (sheet.placeOut column).roster with work := after.laid.removals } after.laid ∧
      Listed (update seat (.entry sheet.rowInProgress column) torus.laid.cells.size)
        (sheet.placeOut column) after.laid := by
  have sound := drafts.sound
  have progress := drafts.buildingIff.1
  obtain ⟨twin, same, midway⟩ := entryRests resting listed sound fresh
  cases same.symm.trans written
  have rests := (midway.resting.withLive sheet.live).restingNoted column torus.rowInProgress
  have primaries : (sheet.placeOut column).primaries = sheet.primaries :=
    congrArg Roster.pending (rosterPlaced sheet fresh 0)
  rw [noted, progress] at *
  refine ⟨?_, ⟨midway.recorded.rows, midway.recorded.first, midway.recorded.current⟩, ?_⟩
  · rw [Sheet.roster, primaries]
    have work : (middle.noted column sheet.rowInProgress).removals = torus.laid.removals := midway.work
    rw [work]
    exact rests
  · intro y former found
    rw [Torus.noted, Torus.editColumn, midway.columns] at found
    exact listed.latestPlaced sound fresh (fun _ => rfl) found

theorem placedDrafts (drafts : torus.Drafts sheet) (known : column < sheet.columns.length)
    (fresh : column ∉ sheet.columnsOf sheet.rowInProgress) {middle : Torus}
    (written : torus.laid.written column = .ok middle)
    (noted : after.laid = middle.noted column torus.rowInProgress) :
    after.Drafts (sheet.placeOut column) := by
  have out : sheet.isEnabled sheet.rowInProgress = false := by simp [Sheet.isEnabled, drafts.bare]
  obtain ⟨seat, resting, listed⟩ := drafts.holds
  exact ⟨drafts.sound.placeOut known fresh out, drafts.bare, _,
    drafts.writtenDrafts fresh written noted resting listed⟩

end Torus.Drafts

end DancingLinks
