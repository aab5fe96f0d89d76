import DancingLinks.Proofs.RestingArena

/-! Each building step on an arena at rest is the step of the same name on the sheet that it holds, and
never a fault. A row that grows must be in play: the entry that it is given is linked below its head,
so a row taken out of play would be back in one of its columns and not in the others. -/
namespace DancingLinks
open Function (update)

variable {seat : Role → Site} {sheet : Sheet} {roster : Roster} {torus : Torus} {row column y : Nat}

theorem Listed.congr {after : Torus} (listed : Listed seat sheet torus) (live : Nat → List Nat)
    (ledger : after.ledger = torus.ledger) : Listed seat { sheet with live } after := by
  simp only [Torus.ledger, Prod.mk.injEq] at ledger
  obtain ⟨rows, current, last, -⟩ := ledger
  refine ⟨⟨rows ▸ listed.rows, rows ▸ listed.first, current.trans listed.current⟩, ?_⟩
  intro column header present row
  have there := congrArg (·[column]?) last
  simp only [Array.getElem?_map, present, Option.map_some] at there
  obtain ⟨former, found, same⟩ := Option.map_eq_some_iff.mp there.symm
  rw [← same]
  exact listed.latest column former found row

theorem Resting.withLive (resting : Resting seat sheet roster torus) (live : Nat → List Nat) :
    Resting seat { sheet with live } roster torus :=
  ⟨⟨resting.root, resting.seated, resting.width, resting.headers, resting.heads, resting.aside,
    resting.below, resting.across, resting.work⟩, resting.idle⟩

namespace Torus.Holds

theorem ofEmpty : Torus.empty.Holds .empty := by
  have own : ∀ direction, Torus.empty.link direction 0 = 0 := by
    intro direction
    cases direction <;> rfl
  refine ⟨fun _ => 0, ⟨⟨rfl, ?_, rfl, ?_, Loop.loopAlone (own _) (own _), ?_, ?_, ?_, rfl⟩, ?_⟩,
    ⟨⟨rfl, ?_, rfl⟩, ?_⟩⟩
  · intro role present
    cases role with
    | root => rfl
    | head column => cases present
    | entry row column => cases present
  · intro column header present
    simp [Torus.empty] at present
  · intro column known
    cases known
  · intro column known
    cases known
  · intro row first rest split
    cases split
  · intro row column member
    cases member
  · intro row first rest split
    cases split
  · intro column header present
    simp [Torus.empty] at present

theorem newRow (holds : torus.Holds sheet) : torus.newRow.Holds sheet.newRow := by
  obtain ⟨seat, resting, listed⟩ := holds
  exact ⟨seat, ⟨⟨resting.root, resting.seated, resting.width, resting.headers, resting.heads,
    resting.aside, resting.below, resting.across, rfl⟩, resting.idle⟩,
    ⟨⟨listed.rows, listed.first, rfl⟩, listed.latest⟩⟩

theorem withRemovals (holds : torus.Holds sheet) (count : Nat) :
    (torus.withRemovals count).Holds sheet := by
  obtain ⟨seat, resting, listed⟩ := holds
  exact ⟨seat, ⟨resting.toWoven.withRemovals count, resting.idle⟩,
    ⟨⟨listed.rows, listed.first, listed.current⟩, listed.latest⟩⟩

end Torus.Holds

theorem atRest (sheet : Sheet) (work : Nat) :
    ({ sheet.roster with work } : Roster).Remains sheet [] := (Roster.Remains.ofSheet sheet).withWork work

theorem enabledAt (resting : Resting seat sheet roster torus) {first : Nat}
    (member : first ∈ sheet.columnsOf row) (known : first < sheet.columns.length)
    (once : (roster.live first).Nodup) (holds : ∀ other ∈ roster.live first, first ∈ sheet.columnsOf other)
    (top : torus.firstEntry row = .ok (seat (.entry row first))) :
    torus.isRowEnabled row = .ok (decide (row ∈ roster.live first)) := by
  have up := Torus.followRead (resting.seated (.entry row first) member) .up
  have read : torus.isRowEnabled row =
      .ok (torus.link .up (seat (.entry row first)) != seat (.entry row first)) := by
    simp [Torus.isRowEnabled, top, up, bind, Except.bind, pure, Except.pure]
  rw [read]
  by_cases live : row ∈ roster.live first
  · have around := (resting.columnAround known once holds).circleOpposite
    have inside : Role.entry row first ∈ (roster.entriesIn first).reverse :=
      List.mem_reverse.mpr (List.mem_map_of_mem live)
    have away := around.loop.leadsAway around.sitesDistinct (List.mem_map_of_mem inside)
    rw [decide_eq_true live]
    exact congrArg Except.ok (bne_iff_ne.mpr away)
  · have alone := (resting.idle row first member live).loopReversed.nextAlone
    rw [decide_eq_false live, alone, bne_self_eq_false]

theorem enabledRead (resting : Resting seat sheet { sheet.roster with work := torus.removals } torus)
    (listed : Listed seat sheet torus) (sound : sheet.Sound) (inside : row < sheet.rows.length) :
    torus.isRowEnabled row = .ok (sheet.isEnabled row) := by
  obtain ⟨first, rest, split⟩ := List.exists_cons_of_ne_nil (sound.filled row inside)
  have member : first ∈ sheet.columnsOf row := split ▸ List.mem_cons_self
  have top : torus.firstEntry row = .ok (seat (.entry row first)) := by
    simp [Torus.firstEntry, listed.first row first rest split]
  rw [enabledAt resting member (sound.known row first member) (sound.once first) (sound.holds first) top]
  refine congrArg Except.ok (Bool.eq_iff_iff.mpr ?_)
  rw [decide_eq_true_iff, sound.enabledIff member]
  rfl

theorem entriesRead (resting : Resting seat sheet roster torus) (listed : Listed seat sheet torus)
    (sound : sheet.Sound) (inside : row < sheet.rows.length) :
    ∃ first, torus.firstEntry row = .ok first ∧ torus.fullRing first .right =
      .ok ((entriesAcross row (sheet.columnsOf row)).map seat) := by
  obtain ⟨first, rest, split⟩ := List.exists_cons_of_ne_nil (sound.filled row inside)
  have member : first ∈ sheet.columnsOf row := split ▸ List.mem_cons_self
  have ring := resting.ringRight sound member
  refine ⟨seat (.entry row first), by simp [Torus.firstEntry, listed.first row first rest split], ?_⟩
  rw [split, beyondFirst] at ring
  simp [Torus.fullRing, ring, split, entriesAcross, bind, Except.bind, pure, Except.pure]

theorem rowStored (resting : Resting seat sheet roster torus) (listed : Listed seat sheet torus)
    (sound : sheet.Sound) (inside : row < sheet.rows.length) :
    torus.storedRow row = .ok (sheet.columnsOf row) := by
  obtain ⟨first, top, ring⟩ := entriesRead resting listed sound inside
  have columns : ((sheet.columnsOf row).map fun y => seat (.entry row y)).mapM torus.columnOf =
      .ok ((sheet.columnsOf row).map id) :=
    mapMOk fun y member => Torus.columnOfEntry (resting.seated (.entry row y) member)
  rw [entriesAcross, List.map_map] at ring
  rw [List.map_id] at columns
  simp only [Torus.storedRow, Torus.rowColumns, top, ring, bind, Except.bind]
  exact columns

namespace Torus.Holds

theorem disableRow (holds : torus.Holds sheet) (sound : sheet.Sound) (inside : row < sheet.rows.length) :
    ∃ after, torus.disableRow row = .ok (sheet.isEnabled row, after) ∧
      after.Holds (sheet.disable row) := by
  obtain ⟨seat, resting, listed⟩ := holds
  have enabled := enabledRead resting listed sound inside
  have within := (atRest sheet torus.removals).within
  cases inPlay : sheet.isEnabled row with
  | false =>
    refine ⟨torus, ?_, ?_⟩
    · simp [Torus.disableRow, enabled, inPlay, bind, Except.bind, pure, Except.pure]
    · rw [sound.disableIdle inPlay]
      exact ⟨seat, resting, listed⟩
  | true =>
    obtain ⟨first, top, ring⟩ := entriesRead resting listed sound inside
    have live : ∀ y ∈ sheet.columnsOf row, row ∈ sheet.live y := fun y member =>
      (sound.enabledIff member).mp inPlay
    obtain ⟨after, done, rests, ledger⟩ := resting.disabledEach sound within (sound.distinct row) live
    refine ⟨after, ?_, seat, ?_, listed.congr _ ledger⟩
    · simp [Torus.disableRow, enabled, inPlay, top, ring, done, bind, Except.bind, pure, Except.pure]
    · have struck : ∀ y, ((sheet.live y).filter fun r => (r, y) ∉ (sheet.columnsOf row).map (row, ·)) =
          (sheet.live y).filter (· ≠ row) := by
        intro y
        refine List.filter_congr fun r inColumn => ?_
        have member := sound.holds y r inColumn
        simp only [List.mem_map, Prod.mk.injEq, decide_eq_decide, not_exists, not_and]
        constructor
        · intro clear same
          subst same
          exact clear y member rfl rfl
        · intro other z _ same
          subst same
          exact absurd rfl other
      have work := congrArg (fun l => l.2.2.2) ledger
      have same := rests.withLive fun y => (sheet.live y).filter (· ≠ row)
      simp only [Roster.strike, Sheet.roster, struck] at same
      rw [← show after.removals = torus.removals from work] at same
      exact same

theorem enableRow (holds : torus.Holds sheet) (sound : sheet.Sound) (inside : row < sheet.rows.length) :
    ∃ after, torus.enableRow row = .ok (!sheet.isEnabled row, after) ∧
      after.Holds (sheet.enable row) := by
  obtain ⟨seat, resting, listed⟩ := holds
  have enabled := enabledRead resting listed sound inside
  cases inPlay : sheet.isEnabled row with
  | true =>
    refine ⟨torus, ?_, ?_⟩
    · simp [Torus.enableRow, enabled, inPlay, bind, Except.bind, pure, Except.pure]
    · rw [Sheet.enable, if_pos inPlay]
      exact ⟨seat, resting, listed⟩
  | false =>
    obtain ⟨first, top, ring⟩ := entriesRead resting listed sound inside
    have raised : sheet.enable row =
        { sheet with live := (sheet.roster.raise row (sheet.columnsOf row)).live } := by
      rw [Sheet.enable, if_neg (Bool.eq_false_iff.mp inPlay)]
      rfl
    have sound' := sound.enableSound row
    rw [raised] at sound' ⊢
    have rests := resting.withLive (sheet.roster.raise row (sheet.columnsOf row)).live
    have within : ({ sheet.roster with work := torus.removals } : Roster).Within
        { sheet with live := (sheet.roster.raise row (sheet.columnsOf row)).live } := by
      intro y
      simp only [Roster.raiseAt]
      split
      · exact List.sublist_cons_self ..
      · exact List.Sublist.refl _
    have atop : ∀ y ∈ sheet.columnsOf row, (row :: sheet.live y).Sublist
        ((sheet.roster.raise row (sheet.columnsOf row)).live y) := by
      intro y member
      rw [Roster.raiseAt, if_pos member]
      exact List.Sublist.refl _
    obtain ⟨after, done, held, ledger⟩ := rests.enabledEach sound' within (sound.distinct row)
      (fun y member => member) atop
    refine ⟨after, ?_, seat, ?_, listed.congr _ ledger⟩
    · simp [Torus.enableRow, enabled, inPlay, top, ring, done, bind, Except.bind, pure, Except.pure]
    · have work : after.removals = torus.removals := congrArg (fun l => l.2.2.2) ledger
      rw [work]
      exact held

end Torus.Holds

theorem settledSeat (seat : Role → Site) (torus : Torus) (role : Role) :
    (torus.settle role).2.roleAt (update seat role torus.cells.size role) = some role ∧
      ∀ direction, (torus.settle role).2.link direction (update seat role torus.cells.size role) =
        update seat role torus.cells.size role := by
  rw [Function.update_self, Torus.roleSettled, Function.update_self]
  refine ⟨rfl, fun direction => ?_⟩
  rw [Torus.linkSettled]
  exact torus.linkOutside direction

theorem listedColumn (listed : Listed seat sheet torus) (sound : sheet.Sound)
    (width : torus.columns.size = sheet.columns.length) (name : String) (isPrimary : Bool)
    (cells : Array Cell) (head site : Site) :
    Listed (update seat (.head sheet.columns.length) site) (sheet.addColumn name isPrimary)
      { torus with cells, columns := torus.columns.push ⟨name, head, 0, isPrimary, none⟩ } where
  rows := listed.rows
  first row first rest split := (listed.first row first rest split).trans
    (congrArg some (Function.update_of_ne (fun same => Role.noConfusion same) ..).symm)
  current := by
    have kept : ∀ y, update seat (.head sheet.columns.length) site (.entry sheet.rowInProgress y) =
        seat (.entry sheet.rowInProgress y) := fun y =>
      Function.update_of_ne (fun same => Role.noConfusion same) ..
    have same : (sheet.addColumn name isPrimary).rowInProgress = sheet.rowInProgress := rfl
    simp only [same, kept]
    exact listed.current
  latest column header present row := by
    rw [Array.getElem?_push, width] at present
    split at present
    · rename_i new
      cases present
      have outside : column ∉ sheet.columnsOf row := fun member =>
        Nat.lt_irrefl _ (new ▸ sound.known row column member)
      exact ⟨fun same => (by cases same), fun there => absurd there.1 outside⟩
    · exact listed.latest column header present row

theorem Torus.Holds.addColumn (holds : torus.Holds sheet) (sound : sheet.Sound) (name : String)
    (isPrimary : Bool) :
    ∃ after, torus.addColumn name isPrimary = .ok (sheet.columns.length, after) ∧
      after.Holds (sheet.addColumn name isPrimary) := by
  obtain ⟨seat, resting, listed⟩ := holds
  have width := resting.width
  have fresh : ¬ sheet.Seats (.head sheet.columns.length) := Nat.lt_irrefl _
  have settled := resting.settleRests sound (atRest sheet torus.removals) fresh
  obtain ⟨found, alone⟩ := settledSeat seat torus (.head sheet.columns.length)
  have added := settled.columnAdded (sound.liveNew (Nat.le_refl _)) name isPrimary found alone
  have primaries := sheet.primariesAdded name isPrimary
  have listed' := listedColumn listed sound width name isPrimary
  rw [Function.update_self] at added
  cases isPrimary with
  | false =>
    rw [if_neg Bool.false_ne_true, List.append_nil] at primaries
    refine ⟨{ (torus.settle (.head sheet.columns.length)).2 with
      columns := torus.columns.push ⟨name, torus.cells.size, 0, false, none⟩ }, ?_, _, ?_,
      listed' _ _ torus.cells.size⟩
    · simp [Torus.addColumn, width, bind, Except.bind, pure, Except.pure, Torus.settle]
    · rw [Sheet.roster, primaries]
      exact added
  | true =>
    rw [if_pos rfl] at primaries
    have inside : torus.cells.size < (torus.settle (.head sheet.columns.length)).2.cells.size := by
      simp [Torus.settle]
    have inserts := settled.rootInserts (atRest sheet torus.removals) inside
    have here : sheet.columns.length ∈ (sheet.addColumn name true).primaries := by
      rw [primaries]
      exact List.mem_append_right _ List.mem_cons_self
    have absent : sheet.columns.length ∉ sheet.primaries := fun member =>
      Nat.lt_irrefl _ (Sheet.memPrimaries.mp member).1
    have opened := added.openedRests (fun y member => by
      rw [primaries]
      exact List.mem_append_left _ member) (atRest sheet torus.removals).pendingOnce here absent
    rw [Torus.insertedColumns, Function.update_self, Torus.insertedKeeps] at opened
    rw [Torus.insertedKeeps] at inserts
    generalize (Torus.insertedBeside _ _ _ _).cells = cells at opened inserts
    refine ⟨_, ?_, _, ?_, listed' cells torus.cells.size torus.cells.size⟩
    · simp only [Torus.addColumn, width, if_true, bind, Except.bind, pure, Except.pure]
      rw [show (torus.settle (.head sheet.columns.length)).1 = torus.cells.size from rfl, inserts]
      rfl
    · rw [Sheet.roster, primaries]
      exact opened

namespace Listed

theorem listedProgress (listed : Listed seat sheet torus) (sound : sheet.Sound) :
    torus.current = (sheet.columnsOf sheet.rowInProgress).head?.map (fun column =>
        seat (.entry sheet.rowInProgress column)) ∧
      torus.rowInProgress = sheet.rowInProgress := by
  have current := listed.current
  cases building : sheet.isBuilding with
  | false =>
    have idle : sheet.rowInProgress = sheet.rows.length := by simp [Sheet.rowInProgress, building]
    rw [building, if_neg Bool.false_ne_true] at current
    rw [Torus.rowInProgress, current, idle, Sheet.columnsOfNew (Nat.le_refl _), listed.rows]
    exact ⟨rfl, rfl⟩
  | true =>
    have stored := sound.progressBounds.2.2 building
    obtain ⟨first, rest, split⟩ := List.exists_cons_of_ne_nil
      (sound.filled sheet.rowInProgress (by omega))
    rw [building, if_pos rfl] at current
    refine ⟨current, ?_⟩
    rw [Torus.rowInProgress, current, split, listed.rows, ← stored]
    rfl

theorem lastHere (listed : Listed seat sheet torus) (sound : sheet.Sound) {header : Column}
    (present : torus.columns[column]? = some header) :
    header.lastRow = some sheet.rowInProgress ↔ column ∈ sheet.columnsOf sheet.rowInProgress := by
  rw [listed.latest column header present]
  refine ⟨And.left, fun member => ⟨member, fun later after inside => ?_⟩⟩
  have bound := Sheet.rowKnown inside
  have short := sound.progressBounds.2.1
  omega

theorem latestPlaced (listed : Listed seat sheet torus) (sound : sheet.Sound)
    (fresh : column ∉ sheet.columnsOf sheet.rowInProgress) {edit : Column → Column}
    (edits : ∀ c, (edit c).lastRow = some sheet.rowInProgress) {y : Nat} {header : Column}
    (present : (torus.columns.modify column edit)[y]? = some header) (row : Nat) :
    header.lastRow = some row ↔ y ∈ (sheet.place column).columnsOf row ∧
      ∀ later, row < later → y ∉ (sheet.place column).columnsOf later := by
  have length := (sound.placeProgress fresh).1
  rw [Array.getElem?_modify] at present
  split at present
  · rename_i same
    subst same
    obtain ⟨former, -, rfl⟩ := Option.map_eq_some_iff.mp present
    have here := sound.placedHere fresh
    rw [edits, Option.some_inj]
    constructor
    · intro same
      subst same
      refine ⟨here, fun later after inside => ?_⟩
      have bound := Sheet.rowKnown inside
      omega
    · intro latest
      obtain ⟨inside, last⟩ := latest
      have bound := Sheet.rowKnown inside
      rcases Nat.lt_or_ge row sheet.rowInProgress with before | after
      · exact absurd here (last _ before)
      · omega
  · rename_i other
    have kept : ∀ row, y ∈ (sheet.place column).columnsOf row ↔ y ∈ sheet.columnsOf row := by
      intro row
      rw [sound.memPlaced fresh]
      exact or_iff_left fun new => other new.2.symm
    simp only [kept]
    exact listed.latest y header present row

end Listed

namespace Torus

def written (torus : Torus) (column : Nat) : Except Fault Torus :=
  let entry := torus.cells.size
  let settled := (torus.settle (.entry torus.rowInProgress column)).2
  match torus.current with
  | some first => settled.insertBeside first .left entry
  | none => .ok { settled with rows := settled.rows.push entry, current := some entry }

def topped (torus : Torus) (column row : Nat) (head entry : Site) : Torus :=
  (torus.insertedBeside head .down entry).editColumn column
    fun c => { c with size := c.size + 1, lastRow := some row }

theorem placeSteps {header : Column} (read : torus.column column = .ok header)
    (fresh : header.lastRow ≠ some torus.rowInProgress) :
    torus.place column = (do
      let middle ← torus.written column
      let grown ← middle.grow column
      let edited := grown.editColumn column fun c => { c with lastRow := some torus.rowInProgress }
      let after ← edited.insertBeside header.head .down torus.cells.size
      return (.placed, after)) := by
  have building : (torus.settle (.entry torus.rowInProgress column)).2.current = torus.current := rfl
  simp only [place, read, fresh, if_false, written, building, bind, Except.bind]
  cases torus.current <;> rfl

theorem grownEdited (torus : Torus) (column row : Nat) :
    (torus.grown column).editColumn column (fun c => { c with lastRow := some row }) = { torus with
      columns := torus.columns.modify column
        fun c => { c with size := c.size + 1, lastRow := some row } } := by
  simp only [grown, editColumn, Torus.mk.injEq, true_and, and_true]
  refine Array.ext_getElem? fun index => ?_
  simp only [Array.getElem?_modify]
  split
  · cases torus.columns[index]? <;> rfl
  · rfl

theorem placeRead {header : Column} (listed : torus.columns[column]? = some header)
    (fresh : header.lastRow ≠ some torus.rowInProgress) {middle : Torus}
    (written : torus.written column = .ok middle) (columns : middle.columns = torus.columns)
    {role : Role} (found : middle.roleAt header.head = some role)
    (inside : torus.cells.size < middle.cells.size)
    (next : middle.link .down header.head < middle.cells.size) :
    torus.place column =
      .ok (.placed, middle.topped column torus.rowInProgress header.head torus.cells.size) := by
  have known : column < middle.columns.size :=
    columns ▸ (Array.getElem?_eq_some_iff.mp listed).1
  have grows : middle.grow column = .ok (middle.grown column) := by simp [grow, grown, known]
  have read : torus.column column = .ok header := by simp [Torus.column, listed]
  have inserts : Torus.insertBeside { middle with
      columns := middle.columns.modify column
        fun c => { c with size := c.size + 1, lastRow := some torus.rowInProgress } } header.head .down
      torus.cells.size = _ := insertBesideInside found inside next
  rw [insertedColumns] at inserts
  rw [placeSteps read fresh]
  simp only [written, grows, grownEdited, inserts, bind, Except.bind]
  rw [topped, editColumn, insertedKeeps]
  rfl

end Torus

structure Midway (seat : Role → Site) (sheet : Sheet) (column : Nat) (torus middle : Torus) : Prop where
  resting : Resting seat (sheet.place column) { sheet.roster with work := torus.removals } middle
  recorded : Recorded seat (sheet.place column) middle
  columns : middle.columns = torus.columns
  work : middle.removals = torus.removals
  seated : seat (.entry sheet.rowInProgress column) = torus.cells.size

theorem recordedBegun (listed : Listed seat sheet torus) (sound : sheet.Sound)
    (none : sheet.columnsOf sheet.rowInProgress = []) {middle : Torus} (site : Site)
    (rows : middle.rows = torus.rows.push site) (current : middle.current = some site) :
    Recorded (update seat (.entry sheet.rowInProgress column) site) (sheet.place column) middle := by
  have fresh : column ∉ sheet.columnsOf sheet.rowInProgress := by simp [none]
  have columnsOf := sound.columnsOfPlaced fresh
  obtain ⟨length, same⟩ := sound.placeProgress fresh
  have atEnd : sheet.rowInProgress = sheet.rows.length := by
    have low := sound.progressBounds.1
    by_contra short
    exact sound.filled sheet.rowInProgress (by omega) none
  refine ⟨?_, ?_, ?_⟩
  · rw [rows, length, atEnd, ← listed.rows, Array.size_push]
  · intro row first rest split
    rw [rows]
    rw [columnsOf] at split
    split at split
    · rename_i here
      subst here
      rw [none, List.nil_append] at split
      cases split
      rw [Function.update_self, atEnd, ← listed.rows]
      exact Array.getElem?_push_size
    · rename_i other
      have former := listed.first row first rest split
      have inside := (Array.getElem?_eq_some_iff.mp former).1
      rw [Function.update_of_ne (fun same => other (Role.entry.inj same).1), ← former]
      exact (Array.getElem?_push).trans (if_neg (Nat.ne_of_lt inside))
  · have building : (sheet.place column).isBuilding = true := by
      simp only [Sheet.place, if_neg fresh]
    rw [current, building, if_pos rfl, same, columnsOf, if_pos rfl, none, List.nil_append,
      List.head?_cons, Option.map_some, Function.update_self]

theorem entryKept (seat : Role → Site) (site : Site) {other : Nat} (fresh : column ∉ sheet.columnsOf row)
    (member : y ∈ sheet.columnsOf other) :
    update seat (.entry row column) site (.entry other y) = seat (.entry other y) :=
  seatKept (show ¬ sheet.Seats (.entry row column) from fresh)
    (show sheet.Seats (.entry other y) from member) site

theorem recordedContinued (listed : Listed seat sheet torus) (sound : sheet.Sound)
    (fresh : column ∉ sheet.columnsOf sheet.rowInProgress) {first : Nat} {rest : List Nat}
    (split : sheet.columnsOf sheet.rowInProgress = first :: rest) {middle : Torus} (site : Site)
    (rows : middle.rows = torus.rows) (current : middle.current = torus.current) :
    Recorded (update seat (.entry sheet.rowInProgress column) site) (sheet.place column) middle := by
  have columnsOf := sound.columnsOfPlaced fresh
  obtain ⟨length, same⟩ := sound.placeProgress fresh
  have here : first ∈ sheet.columnsOf sheet.rowInProgress := split ▸ List.mem_cons_self
  refine ⟨?_, ?_, ?_⟩
  · rw [rows, length, listed.rows]
    have bound := Sheet.rowKnown here
    have short := sound.progressBounds.2.1
    omega
  · intro row head others whole
    rw [rows]
    rw [columnsOf] at whole
    split at whole
    · rename_i progress
      subst progress
      rw [split, List.cons_append] at whole
      cases whole
      rw [entryKept seat site fresh here]
      exact listed.first _ _ _ split
    · rw [entryKept seat site fresh (whole ▸ List.mem_cons_self)]
      exact listed.first row head others whole
  · have building : (sheet.place column).isBuilding = true := by
      simp only [Sheet.place, if_neg fresh]
    rw [current, (listed.listedProgress sound).1, building, if_pos rfl, same, columnsOf, if_pos rfl, split,
      List.cons_append, List.head?_cons, List.head?_cons, Option.map_some, Option.map_some,
      entryKept seat site fresh here]

theorem firstEntryRests (resting : Resting seat sheet { sheet.roster with work := torus.removals } torus)
    (listed : Listed seat sheet torus) (sound : sheet.Sound)
    (none : sheet.columnsOf sheet.rowInProgress = []) :
    ∃ middle, torus.written column = .ok middle ∧
      Midway (update seat (.entry sheet.rowInProgress column) torus.cells.size) sheet column torus
        middle := by
  obtain ⟨current, progress⟩ := listed.listedProgress sound
  have fresh : column ∉ sheet.columnsOf sheet.rowInProgress := by simp [none]
  have settled := resting.settleRests sound (atRest sheet torus.removals)
    (show ¬ sheet.Seats (.entry sheet.rowInProgress column) from fresh)
  obtain ⟨found, alone⟩ := settledSeat seat torus (.entry sheet.rowInProgress column)
  rw [none, List.head?_nil, Option.map_none] at current
  let middle : Torus := { (torus.settle (.entry sheet.rowInProgress column)).2 with
    rows := torus.rows.push torus.cells.size, current := some torus.cells.size }
  refine ⟨middle, ?_, ?_, recordedBegun listed sound none _ rfl rfl, rfl, rfl, Function.update_self ..⟩
  · rw [Torus.written, current, progress]
    rfl
  · refine settled.placedRests sound (atRest sheet torus.removals) fresh found alone rfl rfl rfl
      (fun _ _ => ⟨rfl, rfl⟩) (fun _ _ => ⟨rfl, rfl⟩) ?_
    intro first rest split
    rw [none, List.nil_append] at split
    cases split
    exact Loop.loopAlone (alone .right) (alone .left)

theorem laterEntryRests (resting : Resting seat sheet { sheet.roster with work := torus.removals } torus)
    (listed : Listed seat sheet torus) (sound : sheet.Sound)
    (fresh : column ∉ sheet.columnsOf sheet.rowInProgress) {first : Nat} {rest : List Nat}
    (split : sheet.columnsOf sheet.rowInProgress = first :: rest) :
    ∃ middle, torus.written column = .ok middle ∧
      Midway (update seat (.entry sheet.rowInProgress column) torus.cells.size) sheet column torus
        middle := by
  obtain ⟨current, progress⟩ := listed.listedProgress sound
  have settled := resting.settleRests sound (atRest sheet torus.removals)
    (show ¬ sheet.Seats (.entry sheet.rowInProgress column) from fresh)
  obtain ⟨found, alone⟩ := settledSeat seat torus (.entry sheet.rowInProgress column)
  have here : first ∈ sheet.columnsOf sheet.rowInProgress := split ▸ List.mem_cons_self
  have own : update seat (.entry sheet.rowInProgress column) torus.cells.size
      (.entry sheet.rowInProgress column) = torus.cells.size := Function.update_self ..
  rw [split, List.head?_cons, Option.map_some, ← entryKept seat torus.cells.size fresh here] at current
  have records : ∀ middle : Torus, middle.rows = torus.rows → middle.current = torus.current →
      Recorded _ _ middle := fun _ => recordedContinued listed sound fresh split torus.cells.size
  generalize update seat (.entry sheet.rowInProgress column) torus.cells.size = seat' at *
  have circle := settled.rowCircle sound here
  rw [split, beyondFirst] at circle
  have absent : Role.entry sheet.rowInProgress column ∉
      Role.entry sheet.rowInProgress first :: entriesAcross sheet.rowInProgress rest := by
    rw [entriesAcross, ← List.map_cons, ← split]
    simpa using fresh
  have added : Torus.Circle (Torus.insertedBeside _ _ .left _) seat' .right _ _ :=
    circle.insertedLast found absent
  have apart : Torus.Apart _ (Torus.insertedBeside _ _ .left _) .right _ := circle.followedApart found
  have below := Torus.insertedAcross (torus.settle (.entry sheet.rowInProgress column)).2
    (seat' (.entry sheet.rowInProgress first)) (seat' (.entry sheet.rowInProgress column))
    (show Direction.left ≠ .down by decide) (by decide)
  have roles := Torus.roleInserted (torus.settle (.entry sheet.rowInProgress column)).2
    (seat' (.entry sheet.rowInProgress first)) .left (seat' (.entry sheet.rowInProgress column))
  have inserts : Torus.insertBeside _ _ .left _ = _ := Torus.insertBesideInside
    (settled.seated (.entry sheet.rowInProgress first) here) (Torus.roleInside found)
    (circle.backInside List.mem_cons_self)
  rw [Torus.insertedKeeps] at added apart below roles inserts
  generalize (Torus.insertedBeside _ _ _ _).cells = cells at added apart below roles inserts
  refine ⟨{ (torus.settle (.entry sheet.rowInProgress column)).2 with cells }, ?_, ?_,
    records _ rfl rfl, rfl, rfl, own⟩
  · rw [Torus.written, current, progress, ← own]
    exact inserts
  · refine settled.placedRests sound (atRest sheet torus.removals) fresh found alone roles rfl rfl below
      (apart.mono (List.map_subset _ fun role member => ?_)) ?_
    · rw [split]
      simp only [entriesAcross, List.map_append, List.map_cons, List.mem_append, List.mem_cons] at member ⊢
      tauto
    · intro head others whole
      rw [split, List.cons_append] at whole
      cases whole
      rw [entriesAcross, List.map_append]
      exact added.loop

theorem rosterPlaced (sheet : Sheet) (fresh : column ∉ sheet.columnsOf sheet.rowInProgress) (work : Nat) :
    ({ (sheet.place column).roster with work } : Roster) =
      ({ sheet.roster with work } : Roster).raise sheet.rowInProgress [column] := by
  have primaries : (sheet.place column).primaries = sheet.primaries := by
    unfold Sheet.primaries Sheet.isPrimary
    rw [Sheet.placedColumns fresh]
  have live : (sheet.place column).live =
      (({ sheet.roster with work } : Roster).raise sheet.rowInProgress [column]).live := by
    funext y
    rw [Sheet.placedLive fresh, Roster.raiseAt]
    simp only [List.mem_singleton, Sheet.roster]
  simp only [Sheet.roster, primaries, live]
  rfl

theorem entryRests (resting : Resting seat sheet { sheet.roster with work := torus.removals } torus)
    (listed : Listed seat sheet torus) (sound : sheet.Sound)
    (fresh : column ∉ sheet.columnsOf sheet.rowInProgress) :
    ∃ middle, torus.written column = .ok middle ∧
      Midway (update seat (.entry sheet.rowInProgress column) torus.cells.size) sheet column torus
        middle := by
  cases split : sheet.columnsOf sheet.rowInProgress with
  | nil => exact firstEntryRests resting listed sound split
  | cons first rest => exact laterEntryRests resting listed sound fresh split

theorem withinPlaced (fresh : column ∉ sheet.columnsOf sheet.rowInProgress) (work : Nat) :
    ({ sheet.roster with work } : Roster).Within (sheet.place column) := by
  intro y
  rw [Sheet.placedLive fresh]
  split
  · exact List.sublist_cons_self ..
  · exact List.Sublist.refl _

theorem placeReads (resting : Resting seat sheet { sheet.roster with work := torus.removals } torus)
    (listed : Listed seat sheet torus) (sound : sheet.Sound) (known : column < sheet.columns.length)
    (fresh : column ∉ sheet.columnsOf sheet.rowInProgress) :
    ∃ seat' middle, Midway seat' sheet column torus middle ∧
      torus.place column = .ok (.placed,
        middle.topped column sheet.rowInProgress (seat' (.head column)) torus.cells.size) := by
  have progress := (listed.listedProgress sound).2
  obtain ⟨header, present, -, -, -⟩ := resting.headerOf known
  have last : header.lastRow ≠ some torus.rowInProgress := by
    rw [progress]
    exact mt (listed.lastHere sound present).mp fresh
  obtain ⟨middle, written, midway⟩ := entryRests resting listed sound fresh
  have head : header.head = update seat (.entry sheet.rowInProgress column) torus.cells.size
      (.head column) := (resting.headers column header present).2.1.trans
    (Function.update_of_ne (fun same => Role.noConfusion same) ..).symm
  generalize update seat (.entry sheet.rowInProgress column) torus.cells.size = seat' at *
  have known' : column < (sheet.place column).columns.length := Sheet.placedColumns fresh ▸ known
  have top := midway.resting.seated (.head column) known'
  have inside := Torus.roleInside
    (midway.resting.seated (.entry sheet.rowInProgress column) (sound.placedHere fresh))
  have within := (atRest sheet torus.removals).within
  have seated : ∀ role ∈ Role.head column :: sheet.roster.entriesIn column,
      middle.roleAt (seat' role) = some role := by
    refine List.forall_mem_cons.mpr ⟨top, List.forall_mem_map.mpr fun row live => ?_⟩
    exact midway.resting.seated (.entry row column)
      ((sound.memPlaced fresh).mpr (Or.inl (within.liveMeets sound live)))
  have circle : middle.Circle seat' .down (.head column) (sheet.roster.entriesIn column) :=
    ⟨midway.resting.below column known', seated, Woven.columnDistinct sound within column⟩
  have next := circle.onwardInside List.mem_cons_self
  rw [midway.seated] at inside
  rw [← head] at top next
  refine ⟨seat', middle, midway, ?_⟩
  rw [← progress, ← head]
  exact Torus.placeRead present last written midway.columns top inside next

theorem placeTops (resting : Resting seat sheet { sheet.roster with work := torus.removals } torus)
    (listed : Listed seat sheet torus) (sound : sheet.Sound) (known : column < sheet.columns.length)
    (fresh : column ∉ sheet.columnsOf sheet.rowInProgress) (live : Nat → List Nat)
    (sound' : ({ sheet.place column with live } : Sheet).Sound)
    (within : ({ sheet.roster with work := torus.removals } : Roster).Within
      { sheet.place column with live }) :
    ∃ seat' after, torus.place column = .ok (.placed, after) ∧
      Resting seat' { sheet.place column with live }
        { (sheet.place column).roster with work := after.removals } after ∧
      Listed seat' { sheet.place column with live } after := by
  obtain ⟨seat', middle, midway, read⟩ := placeReads resting listed sound known fresh
  have out : sheet.rowInProgress ∉ sheet.live column := fun there => fresh (sound.holds column _ there)
  have raised := (midway.resting.withLive live).insertedRests sound' within (sound.placedHere fresh) out
    (fun c => { c with size := c.size + 1, lastRow := some sheet.rowInProgress }) fun _ =>
      ⟨rfl, rfl, rfl, rfl⟩
  rw [midway.seated] at raised
  rw [Torus.topped] at read
  rw [Torus.insertedKeeps] at read raised
  generalize (Torus.insertedBeside _ _ _ _).cells = cells at read raised
  refine ⟨seat', _, read, ?_, ⟨⟨midway.recorded.rows, midway.recorded.first, midway.recorded.current⟩, ?_⟩⟩
  · have roster := rosterPlaced sheet fresh torus.removals
    rw [← midway.work] at raised roster
    rw [Torus.editColumn, roster]
    exact raised
  · intro y former found
    rw [Torus.editColumn, midway.columns] at found
    exact listed.latestPlaced sound fresh (fun _ => rfl) found

namespace Torus.Holds

theorem placeFresh (holds : torus.Holds sheet) (sound : sheet.Sound) (known : column < sheet.columns.length)
    (fresh : column ∉ sheet.columnsOf sheet.rowInProgress)
    (inPlay : ∀ y ∈ sheet.columnsOf sheet.rowInProgress, sheet.rowInProgress ∈ sheet.live y) :
    ∃ after, torus.place column = .ok (.placed, after) ∧ after.Holds (sheet.place column) := by
  obtain ⟨seat, resting, listed⟩ := holds
  obtain ⟨seat', after, placed, rests, lists⟩ := placeTops resting listed sound known fresh
    (sheet.place column).live (sound.placeSound known inPlay) (withinPlaced fresh torus.removals)
  exact ⟨after, placed, seat', rests, lists⟩

theorem columnsCounted (holds : torus.Holds sheet) : torus.columns.size = sheet.columns.length := by
  obtain ⟨seat, resting, listed⟩ := holds
  exact resting.width

theorem placeAnswered (holds : torus.Holds sheet) (sound : sheet.Sound)
    (known : column < sheet.columns.length) (fresh : column ∉ sheet.columnsOf sheet.rowInProgress) :
    ∃ after, torus.place column = .ok (.placed, after) := by
  obtain ⟨seat, resting, listed⟩ := holds
  obtain ⟨seat', middle, -, placed⟩ := placeReads resting listed sound known fresh
  exact ⟨_, placed⟩

theorem rowBuilt (holds : torus.Holds sheet) (sound : sheet.Sound) :
    torus.rowInProgress = sheet.rowInProgress := by
  obtain ⟨seat, resting, listed⟩ := holds
  exact (listed.listedProgress sound).2

theorem enabledStored (holds : torus.Holds sheet) (sound : sheet.Sound) {isEnabled : Bool}
    (read : torus.isRowEnabled row = .ok isEnabled) :
    row < sheet.rows.length ∧ sheet.isEnabled row = isEnabled := by
  obtain ⟨seat, resting, listed⟩ := holds
  rcases Nat.lt_or_ge row sheet.rows.length with inside | outside
  · rw [enabledRead resting listed sound inside] at read
    exact ⟨inside, Except.ok.inj read⟩
  · have none : torus.rows[row]? = none := Array.getElem?_eq_none (listed.rows ▸ outside)
    simp [Torus.isRowEnabled, Torus.firstEntry, none, bind, Except.bind] at read

theorem rowInPlay (holds : torus.Holds sheet) (sound : sheet.Sound)
    (admitted : torus.isRowEnabled torus.rowInProgress ≠ .ok false) :
    ∀ y ∈ sheet.columnsOf sheet.rowInProgress, sheet.rowInProgress ∈ sheet.live y := by
  intro y member
  rw [holds.rowBuilt sound] at admitted
  obtain ⟨seat, resting, listed⟩ := holds
  rw [enabledRead resting listed sound (Sheet.rowKnown member)] at admitted
  refine (sound.enabledIff member).mp ?_
  rw [← Bool.not_eq_false]
  exact fun out => admitted (congrArg Except.ok out)

theorem placeAgain (holds : torus.Holds sheet) (sound : sheet.Sound)
    (known : column < sheet.columns.length) (there : column ∈ sheet.columnsOf sheet.rowInProgress) :
    ∃ header, torus.column column = .ok header ∧
      torus.place column = .ok (.alreadyPresent sheet.rowInProgress, torus) := by
  obtain ⟨seat, resting, listed⟩ := holds
  have progress := (listed.listedProgress sound).2
  obtain ⟨header, present, read, -, -⟩ := resting.headerOf known
  have last := (listed.lastHere sound present).mpr there
  refine ⟨header, read, ?_⟩
  simp [Torus.place, read, progress, last, bind, Except.bind, pure, Except.pure]

theorem placedFresh (holds : torus.Holds sheet) (sound : sheet.Sound)
    (known : column < sheet.columns.length) {after : Torus}
    (placed : torus.place column = .ok (.placed, after)) :
    column ∉ sheet.columnsOf sheet.rowInProgress := by
  intro there
  obtain ⟨-, -, again⟩ := holds.placeAgain sound known there
  cases again.symm.trans placed

theorem outStored (holds : torus.Holds sheet) (sound : sheet.Sound)
    (out : torus.isRowEnabled torus.rowInProgress = .ok false) :
    sheet.rowInProgress < sheet.rows.length ∧ sheet.isEnabled sheet.rowInProgress = false := by
  rw [holds.rowBuilt sound] at out
  exact holds.enabledStored sound out

end Torus.Holds

end DancingLinks
