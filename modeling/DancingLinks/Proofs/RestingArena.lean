import DancingLinks.Proofs.ArenaCovers

/-! An arena between searches. Here the entries that are not live are by themselves vertically, the
stored rows are known by their first entries, and every column knows the last row that it was given.
An entry is linked below its head or taken out again one at a time; a new cell is by itself, so it
comes into the arena without a change to any link. -/
namespace DancingLinks
open Function (update)

namespace Torus

variable {torus : Torus} {site : Site}

theorem roleSettled (torus : Torus) (role : Role) :
    (torus.settle role).2.roleAt = update torus.roleAt torus.cells.size (some role) := by
  funext s
  simp only [settle, roleAt, Array.getElem?_push, Function.update_apply]
  split
  · rfl
  · rfl

theorem linkSettled (torus : Torus) (role : Role) (direction : Direction) :
    (torus.settle role).2.link direction = torus.link direction := by
  funext s
  simp only [settle, link, Array.getElem?_push]
  split
  · rename_i same
    subst same
    simp
  · rfl

theorem linkOutside (torus : Torus) (direction : Direction) :
    torus.link direction torus.cells.size = torus.cells.size := by simp [link]

def loned (torus : Torus) (site : Site) : Torus := (torus.pointed site .up site).pointed site .down site

theorem roleLoned (torus : Torus) (site : Site) : (torus.loned site).roleAt = torus.roleAt := by
  rw [loned, rolePointed, rolePointed]

theorem linkLoned (inside : site < torus.cells.size) :
    (torus.loned site).link .down = update (torus.link .down) site site ∧
      (torus.loned site).link .up = update (torus.link .up) site site := by
  have still : site < (torus.pointed site .up site).cells.size := by simpa [pointed] using inside
  constructor
  · rw [loned, linkPointed still, linkPointedAside (by decide)]
  · rw [loned, linkPointedAside (by decide), linkPointed inside]

theorem lonedAcross (torus : Torus) (site : Site) : torus.Apart (torus.loned site) .right [] := by
  intro s _
  simp only [loned]
  exact ⟨by rw [linkPointedAside (by decide), linkPointedAside (by decide)],
    by rw [linkPointedAside (by decide), linkPointedAside (by decide)]⟩

theorem lonedApart (inside : site < torus.cells.size) : torus.Apart (torus.loned site) .down [site] := by
  intro s outside
  have other := mt List.mem_singleton.mpr outside
  obtain ⟨down, up⟩ := linkLoned inside
  exact ⟨by rw [down, Function.update_of_ne other],
    (congrFun up s).trans (Function.update_of_ne other ..)⟩

theorem disableEntryRead {row column : Nat} (found : torus.roleAt site = some (.entry row column))
    (above : torus.link .up site < torus.cells.size)
    (below : torus.link .down site < torus.cells.size) {header : Column}
    (listed : torus.columns[column]? = some header) (counted : header.size ≠ 0) :
    torus.disableEntry site = .ok (((torus.bypassed .down site).shrunk column).loned site) := by
  have inside := roleInside found
  simp [disableEntry, unhook, cellRead found, Cell.column, pointInside, above, below, inside, pointed,
    shrink, shrunk, Torus.column, listed, counted, bypassed, loned, editColumn, Direction.opposite, bind,
    Except.bind, pure, Except.pure]

def ledger (torus : Torus) : Array Site × Option Site × Array (Option Nat) × Nat :=
  (torus.rows, torus.current, torus.columns.map Column.lastRow, torus.removals)

theorem editLedger (torus : Torus) (column : Nat) (edit : Column → Column)
    (kept : ∀ c, (edit c).lastRow = c.lastRow) :
    (torus.editColumn column edit).ledger = torus.ledger := by
  have same : (torus.columns.modify column edit).map Column.lastRow =
      torus.columns.map Column.lastRow := by
    refine Array.ext_getElem? fun index => ?_
    simp only [Array.getElem?_map, Array.getElem?_modify]
    split
    · cases torus.columns[index]? <;> simp [kept]
    · rfl
  simp only [ledger, editColumn, same]

theorem shrunkLedger (torus : Torus) (column : Nat) : (torus.shrunk column).ledger = torus.ledger :=
  editLedger torus column (fun c => { c with size := c.size - 1 }) fun _ => rfl

theorem grownLedger (torus : Torus) (column : Nat) : (torus.grown column).ledger = torus.ledger :=
  editLedger torus column (fun c => { c with size := c.size + 1 }) fun _ => rfl

theorem dimmedLedger (torus : Torus) (site : Site) (column : Nat) :
    (((torus.bypassed .down site).shrunk column).loned site).ledger =
      (torus.shrunk column).ledger := by
  simp only [ledger, bypassed, shrunk, loned, editColumn, pointed]

theorem insertedLedger (torus : Torus) (anchor : Site) (direction : Direction) (site : Site) :
    (torus.insertedBeside anchor direction site).ledger = torus.ledger := by
  rw [insertedKeeps]
  simp only [ledger]

end Torus

structure Resting (seat : Role → Site) (sheet : Sheet) (roster : Roster) (torus : Torus) : Prop
    extends Woven seat sheet roster torus where
  idle : ∀ row, ∀ column ∈ sheet.columnsOf row, row ∉ roster.live column →
    Loop (torus.link .down) (torus.link .up) (seat (.entry row column)) []

structure Recorded (seat : Role → Site) (sheet : Sheet) (torus : Torus) : Prop where
  rows : torus.rows.size = sheet.rows.length
  first : ∀ row first rest, sheet.columnsOf row = first :: rest →
    torus.rows[row]? = some (seat (.entry row first))
  current : torus.current = if sheet.isBuilding then
    (sheet.columnsOf sheet.rowInProgress).head?.map fun column =>
      seat (.entry sheet.rowInProgress column) else none

structure Listed (seat : Role → Site) (sheet : Sheet) (torus : Torus) : Prop
    extends Recorded seat sheet torus where
  latest : ∀ column header, torus.columns[column]? = some header → ∀ row,
    header.lastRow = some row ↔
      column ∈ sheet.columnsOf row ∧ ∀ later, row < later → column ∉ sheet.columnsOf later

/-- What a solver's arena holds whenever no search is under way. -/
def Torus.Holds (sheet : Sheet) (torus : Torus) : Prop :=
  ∃ seat, Resting seat sheet { sheet.roster with work := torus.removals } torus ∧
    Listed seat sheet torus

def Roster.raise (roster : Roster) (row : Nat) (columns : List Nat) : Roster :=
  { roster with live := fun y => if y ∈ columns then row :: roster.live y else roster.live y }

theorem Roster.raiseAt (roster : Roster) (row : Nat) (columns : List Nat) (y : Nat) :
    (roster.raise row columns).live y = if y ∈ columns then row :: roster.live y else roster.live y := rfl

theorem Roster.raiseCons {roster : Roster} {row column : Nat} {rest : List Nat} (fresh : column ∉ rest) :
    (roster.raise row [column]).raise row rest = roster.raise row (column :: rest) := by
  simp only [raise, Roster.mk.injEq, true_and, and_true]
  funext y
  by_cases same : y = column
  · subst same
    simp [fresh]
  · simp [same]

variable {seat : Role → Site} {sheet : Sheet} {roster : Roster} {torus : Torus}
  {covered : List Nat} {row column y : Nat}

theorem seatKept {role other : Role} (fresh : ¬ sheet.Seats role) (present : sheet.Seats other)
    (site : Site) : update seat role site other = seat other := by
  refine Function.update_of_ne ?_ _ _
  intro same
  subst same
  exact fresh present

theorem seatsKept {role : Role} {roles : List Role} (fresh : ¬ sheet.Seats role)
    (present : ∀ other ∈ roles, sheet.Seats other) (site : Site) :
    roles.map (update seat role site) = roles.map seat :=
  List.map_congr_left fun other member => seatKept fresh (present other member) site

theorem acrossPresent {first : Nat} {rest : List Nat} (split : sheet.columnsOf row = first :: rest) :
    ∀ role ∈ entriesAcross row (first :: rest), sheet.Seats role := by
  rw [← split]
  intro role inside
  obtain ⟨y, inRow, rfl⟩ := List.mem_map.mp inside
  exact inRow

namespace Resting

theorem settleRests (resting : Resting seat sheet roster torus) (sound : sheet.Sound)
    (remains : roster.Remains sheet covered) {role : Role} (fresh : ¬ sheet.Seats role) :
    Resting (update seat role torus.cells.size) sheet roster (torus.settle role).2 where
  root := (seatKept fresh (show sheet.Seats .root from trivial) _).trans resting.root
  seated other present := by
    have inside := Torus.roleInside (resting.seated other present)
    rw [seatKept fresh present, Torus.roleSettled, Function.update_of_ne (Nat.ne_of_lt inside)]
    exact resting.seated other present
  width := resting.width
  headers y header listed := by
    obtain ⟨names, head, size⟩ := resting.headers y header listed
    have known : sheet.Seats (.head y) := resting.listedKnown listed
    exact ⟨names, head.trans (seatKept fresh known _).symm, size⟩
  heads := by
    have present := Woven.headsPresent remains
    rw [Torus.linkSettled, Torus.linkSettled, seatKept fresh (present _ List.mem_cons_self),
      seatsKept fresh fun r member => present r (List.mem_cons_of_mem _ member)]
    exact resting.heads
  aside y known secondary := by
    rw [Torus.linkSettled, Torus.linkSettled, seatKept fresh (show sheet.Seats (.head y) from known)]
    exact resting.aside y known secondary
  below y known := by
    have present := Woven.columnPresent sound remains.within known
    rw [Torus.linkSettled, Torus.linkSettled, seatKept fresh (present _ List.mem_cons_self),
      seatsKept fresh fun r member => present r (List.mem_cons_of_mem _ member)]
    exact resting.below y known
  across r first rest split := by
    have present := acrossPresent split
    have others : (entriesAcross r rest).map (update seat role torus.cells.size) =
        (entriesAcross r rest).map seat :=
      seatsKept fresh (fun other member => present other (List.mem_cons_of_mem _ member)) _
    rw [Torus.linkSettled, Torus.linkSettled, seatKept fresh (present _ List.mem_cons_self), others]
    exact resting.across r first rest split
  work := resting.work
  idle r y member out := by
    rw [Torus.linkSettled, Torus.linkSettled, seatKept fresh (show sheet.Seats (.entry r y) from member)]
    exact resting.idle r y member out

theorem entryOutside (out : row ∉ roster.live column) :
    Role.entry row column ∉ Role.head y :: roster.entriesIn y := by
  simp only [Roster.entriesIn, List.mem_cons, reduceCtorEq, List.mem_map, Role.entry.injEq, false_or]
  intro member
  obtain ⟨r, live, rfl, rfl⟩ := member
  exact out live

theorem lonedWoven (woven : Woven seat sheet roster torus) (sound : sheet.Sound)
    (within : roster.Within sheet) (member : column ∈ sheet.columnsOf row)
    (out : row ∉ roster.live column) :
    Woven seat sheet roster (torus.loned (seat (.entry row column))) := by
  have found := woven.seated (.entry row column) member
  have apart : torus.Apart _ .down ([Role.entry row column].map seat) :=
    Torus.lonedApart (Torus.roleInside found)
  have circle := woven.columnCircle sound within (sound.known row column member)
  refine woven.columnChanged sound within id (Torus.roleLoned ..) (Torus.lonedAcross torus _) apart
    (List.forall_mem_singleton.mpr member) (List.forall_mem_singleton.mpr (.inr ⟨row, rfl⟩)) rfl
    (fun _ _ => rfl) (fun _ => ?_) ?_ (fun _ size => ⟨rfl, rfl, rfl, size⟩) woven.work
  · refine apart.keepsCircle (List.forall_mem_singleton.mpr found) circle.loop circle.seated ?_
    intro role inside hit
    rw [List.mem_singleton.mp hit] at inside
    exact entryOutside out inside
  · refine Array.ext_getElem? fun index => ?_
    simp [Array.getElem?_modify, Torus.loned, Torus.pointed]

theorem disableEntryRests (resting : Resting seat sheet roster torus) (sound : sheet.Sound)
    (within : roster.Within sheet) (live : row ∈ roster.live column) :
    ∃ after, torus.disableEntry (seat (.entry row column)) = .ok after ∧
      Resting seat sheet { roster.strike [(row, column)] with work := roster.work } after ∧
      after.ledger = torus.ledger := by
  have holds := within.liveMeets sound live
  have known := sound.known row column holds
  have circle := resting.columnCircle sound within known
  obtain ⟨header, listed, -, -, size⟩ := resting.headerOf known
  have found := resting.seated (.entry row column) holds
  have counted : header.size ≠ 0 := by
    rw [size]
    exact Nat.ne_of_gt (List.length_pos_of_mem live)
  have out : row ∉ (roster.strike [(row, column)]).live column := by simp [Roster.strike]
  have lowered := resting.shrunkStruck sound within live
  have inside := Torus.roleInside (lowered.seated (.entry row column) holds)
  refine ⟨_, Torus.disableEntryRead found (circle.backInside (Woven.entryInside live))
      (circle.onwardInside (Woven.entryInside live)) listed counted,
    ⟨lonedWoven lowered sound (within.strikeWithin _) holds out, ?_⟩, ?_⟩
  · intro r y member gone
    by_cases same : Role.entry r y = .entry row column
    · obtain ⟨onward, back⟩ := Torus.linkLoned inside
      rw [onward, back, same]
      exact Loop.loopAlone (Function.update_self ..) (Function.update_self ..)
    · have still : r ∉ roster.live y := by
        intro there
        refine gone (List.mem_filter.mpr ⟨there, decide_eq_true fun struck => same ?_⟩)
        obtain ⟨rfl, rfl⟩ := Prod.mk.inj (List.mem_singleton.mp struck)
        rfl
      have bypassed := (circle.bypassedApart (Woven.entryInside live)).keepsLoneCircle circle.seated
        (resting.idle r y member still) (resting.seated (.entry r y) member) (entryOutside still)
      refine (Torus.lonedApart inside).loopAside bypassed
        (List.forall_mem_singleton.mpr fun touched => same ?_)
      exact lowered.seatApart member holds (List.mem_singleton.mp touched)
  · rw [Torus.dimmedLedger, Torus.shrunkLedger]

theorem disabledEach (resting : Resting seat sheet roster torus) (sound : sheet.Sound)
    (within : roster.Within sheet) {columns : List Nat} (distinct : columns.Nodup)
    (live : ∀ y ∈ columns, row ∈ roster.live y) :
    ∃ after, ((entriesAcross row columns).map seat).foldlM Torus.disableEntry torus = .ok after ∧
      Resting seat sheet { roster.strike (columns.map (row, ·)) with work := roster.work } after ∧
      after.ledger = torus.ledger := by
  induction columns generalizing roster torus with
  | nil =>
    have none := roster.strikeNone
    refine ⟨torus, rfl, ?_, rfl⟩
    rw [List.map_nil, none]
    exact resting
  | cons column rest ih =>
    obtain ⟨fresh, distinct⟩ := List.nodup_cons.mp distinct
    obtain ⟨next, done, holding, kept⟩ :=
      resting.disableEntryRests sound within (live column List.mem_cons_self)
    have still : ∀ y ∈ rest, row ∈ (roster.strike [(row, column)]).live y := by
      intro y member
      refine List.mem_filter.mpr ⟨live y (List.mem_cons_of_mem _ member), decide_eq_true fun same => ?_⟩
      have column := (Prod.mk.inj (List.mem_singleton.mp same)).2
      exact fresh (column ▸ member)
    obtain ⟨after, all, held, ledger⟩ := ih holding (within.strikeWithin _) distinct still
    have joint := congrArg Roster.live (roster.strikeCons (row, column) (rest.map (row, ·)))
    refine ⟨after, ?_, ?_, ledger.trans kept⟩
    · rw [entriesAcross, List.map_cons, List.map_cons, List.foldlM_cons, done]
      exact all
    · simp only [Roster.strike] at held joint ⊢
      rw [List.map_cons, ← joint]
      exact held

theorem insertedRests (resting : Resting seat sheet roster torus) (sound : sheet.Sound)
    (within : roster.Within sheet) (member : column ∈ sheet.columnsOf row)
    (out : row ∉ roster.live column) (edit : Column → Column)
    (edits : ∀ c, (edit c).name = c.name ∧ (edit c).isPrimary = c.isPrimary ∧ (edit c).head = c.head ∧
      (edit c).size = c.size + 1) :
    Resting seat sheet (roster.raise row [column])
      ((torus.insertedBeside (seat (.head column)) .down (seat (.entry row column))).editColumn
        column edit) := by
  have known := sound.known row column member
  have circle := resting.columnCircle sound within known
  have found := resting.seated (.entry row column) member
  have apart := circle.insertedApart found
  have aside : ∀ y ≠ column, (roster.raise row [column]).live y = roster.live y := fun y other =>
    if_neg (mt List.mem_singleton.mp other)
  have atop : (roster.raise row [column]).live column = row :: roster.live column :=
    if_pos List.mem_cons_self
  have added := circle.insertedFirst found (entryOutside out)
  have across : torus.Apart (torus.insertedBeside (seat (.head column)) .down (seat (.entry row column)))
    .right [] := Torus.insertedAcross torus _ _ (by decide) (by decide)
  have roles := torus.roleInserted (seat (.head column)) .down (seat (.entry row column))
  rw [Torus.insertedKeeps] at added across roles apart ⊢
  generalize (torus.insertedBeside _ _ _).cells = cells at added across roles apart ⊢
  refine ⟨resting.columnChanged sound within edit roles across apart
    (List.forall_mem_cons.mpr ⟨member, Woven.columnPresent sound within known⟩)
    (List.forall_mem_cons.mpr ⟨.inr ⟨row, rfl⟩, Woven.columnOwn roster column⟩) rfl aside
    (fun _ => ?_) rfl (fun header size => ?_) resting.work, ?_⟩
  · rw [Roster.entriesIn, atop]
    exact added.loop
  · obtain ⟨name, primary, head, grown⟩ := edits header
    exact ⟨name, primary, head, by rw [grown, size, atop, List.length_cons]⟩
  · intro r y inRow gone
    have still : r ∉ roster.live y ∧ Role.entry r y ≠ .entry row column := by
      by_cases same : y = column
      · subst same
        rw [atop] at gone
        obtain ⟨other, still⟩ := not_or.mp (mt List.mem_cons.mpr gone)
        exact ⟨still, fun same => other (Role.entry.inj same).1⟩
      · rw [aside y same] at gone
        exact ⟨gone, fun other => same (Role.entry.inj other).2⟩
    refine apart.keepsLoneCircle (List.forall_mem_cons.mpr ⟨found, circle.seated⟩)
      (resting.idle r y inRow still.1) (resting.seated (.entry r y) inRow) fun hit => ?_
    rcases List.mem_cons.mp hit with same | hit
    · exact still.2 same
    · exact entryOutside still.1 hit

theorem enableEntryRead (resting : Resting seat sheet roster torus) (sound : sheet.Sound)
    (within : roster.Within sheet) (member : column ∈ sheet.columnsOf row) :
    torus.enableEntry (seat (.entry row column)) =
      .ok ((torus.insertedBeside (seat (.head column)) .down (seat (.entry row column))).grown
        column) := by
  have known := sound.known row column member
  obtain ⟨header, listed, read, head, -⟩ := resting.headerOf known
  have next := (resting.columnCircle sound within known).onwardInside List.mem_cons_self
  have found := resting.seated (.entry row column) member
  have inserts := Torus.insertBesideInside (resting.seated (.head column) known)
    (Torus.roleInside found) next
  have grows : column < (torus.insertedBeside (seat (.head column)) .down
      (seat (.entry row column))).columns.size := by
    rw [Torus.insertedKeeps]
    exact (Array.getElem?_eq_some_iff.mp listed).1
  simp [Torus.enableEntry, Torus.columnOfEntry found, head, inserts, Torus.grow, Torus.grown, grows, bind,
    Except.bind]

theorem enableEntryRests (resting : Resting seat sheet roster torus) (sound : sheet.Sound)
    (within : roster.Within sheet) (member : column ∈ sheet.columnsOf row)
    (out : row ∉ roster.live column) :
    ∃ after, torus.enableEntry (seat (.entry row column)) = .ok after ∧
      Resting seat sheet (roster.raise row [column]) after ∧ after.ledger = torus.ledger := by
  refine ⟨_, resting.enableEntryRead sound within member,
    resting.insertedRests sound within member out (fun c => { c with size := c.size + 1 }) fun _ =>
      ⟨rfl, rfl, rfl, rfl⟩, ?_⟩
  rw [Torus.grownLedger, Torus.insertedLedger]

theorem enabledEach (resting : Resting seat sheet roster torus) (sound : sheet.Sound)
    (within : roster.Within sheet) {columns : List Nat} (distinct : columns.Nodup)
    (inRow : ∀ y ∈ columns, y ∈ sheet.columnsOf row)
    (atop : ∀ y ∈ columns, (row :: roster.live y).Sublist (sheet.live y)) :
    ∃ after, ((entriesAcross row columns).map seat).foldlM Torus.enableEntry torus = .ok after ∧
      Resting seat sheet (roster.raise row columns) after ∧ after.ledger = torus.ledger := by
  induction columns generalizing roster torus with
  | nil =>
    have none : roster.raise row [] = roster := by simp [Roster.raise]
    exact ⟨torus, rfl, none ▸ resting, rfl⟩
  | cons column rest ih =>
    obtain ⟨fresh, distinct⟩ := List.nodup_cons.mp distinct
    have here := atop column List.mem_cons_self
    have out := (List.nodup_cons.mp ((sound.once column).sublist here)).1
    obtain ⟨next, done, holding, kept⟩ :=
      resting.enableEntryRests sound within (inRow column List.mem_cons_self) out
    have within' : (roster.raise row [column]).Within sheet := by
      intro y
      simp only [Roster.raise, List.mem_singleton]
      split
      · rename_i same
        exact same ▸ here
      · exact within y
    have atop' : ∀ y ∈ rest, (row :: (roster.raise row [column]).live y).Sublist (sheet.live y) := by
      intro y member
      have other : y ≠ column := fun same => fresh (same ▸ member)
      rw [Roster.raiseAt, if_neg (mt List.mem_singleton.mp other)]
      exact atop y (List.mem_cons_of_mem _ member)
    obtain ⟨after, all, held, ledger⟩ := ih holding within' distinct
      (fun y member => inRow y (List.mem_cons_of_mem _ member)) atop'
    refine ⟨after, ?_, Roster.raiseCons fresh ▸ held, ledger.trans kept⟩
    rw [entriesAcross, List.map_cons, List.map_cons, List.foldlM_cons, done]
    exact all

theorem addedKnown {name : String} {isPrimary : Bool}
    (known : y < (sheet.addColumn name isPrimary).columns.length) :
    y < sheet.columns.length ∨ y = sheet.columns.length := by
  simp only [Sheet.addColumn, List.length_append, List.length_singleton] at known
  omega

theorem columnAdded (resting : Resting seat sheet roster torus)
    (none : roster.live sheet.columns.length = []) (name : String) (isPrimary : Bool)
    (found : torus.roleAt (seat (.head sheet.columns.length)) = some (.head sheet.columns.length))
    (alone : ∀ direction, torus.link direction (seat (.head sheet.columns.length)) =
      seat (.head sheet.columns.length)) :
    Resting seat (sheet.addColumn name isPrimary) roster
      { torus with
        columns := torus.columns.push
          ⟨name, seat (.head sheet.columns.length), 0, isPrimary, .none⟩ } where
  root := resting.root
  seated role present := by
    cases role with
    | root => exact resting.seated .root trivial
    | head y =>
      rcases addedKnown present with old | new
      · exact resting.seated (.head y) old
      · exact new ▸ found
    | entry r y => exact resting.seated (.entry r y) present
  width := by simp [Sheet.addColumn, resting.width]
  headers y header listed := by
    rw [Array.getElem?_push, resting.width] at listed
    simp only [Sheet.addColumn]
    split at listed
    · rename_i new
      cases listed
      subst new
      simp [none]
    · obtain ⟨names, rest⟩ := resting.headers y header listed
      exact ⟨by rw [List.getElem?_append_left (resting.listedKnown listed), names], rest⟩
  heads := resting.heads
  aside y known secondary := by
    rcases addedKnown known with old | new
    · refine resting.aside y old ?_
      simpa only [Sheet.isPrimary, Sheet.addColumn, List.getElem?_append_left old] using secondary
    · subst new
      exact Loop.loopAlone (alone .right) (alone .left)
  below y known := by
    rcases addedKnown known with old | new
    · exact resting.below y old
    · rw [new, Roster.entriesIn, none]
      exact Loop.loopAlone (alone .down) (alone .up)
  across := resting.across
  work := resting.work
  idle := resting.idle

theorem rootInserts (resting : Resting seat sheet roster torus) (remains : roster.Remains sheet covered)
    {site : Site} (inside : site < torus.cells.size) :
    torus.insertBeside Torus.root .left site = .ok (torus.insertedBeside (seat .root) .left site) := by
  have low := (resting.openCircle remains).backInside List.mem_cons_self
  rw [← resting.root]
  exact Torus.insertBesideInside (resting.seated .root trivial) inside low

theorem openedRests (resting : Resting seat sheet roster torus)
    (primaries : ∀ y ∈ roster.pending, y ∈ sheet.primaries) (distinct : roster.pending.Nodup)
    (primary : column ∈ sheet.primaries) (absent : column ∉ roster.pending) :
    Resting seat sheet { roster with pending := roster.pending ++ [column] }
      (torus.insertedBeside (seat .root) .left (seat (.head column))) := by
  have known : ∀ y ∈ sheet.primaries, y < sheet.columns.length := fun y member =>
    (Sheet.memPrimaries.mp member).1
  have found := resting.seated (.head column) (known column primary)
  have circle : torus.Circle seat .right .root (roster.pending.map Role.head) :=
    ⟨resting.heads, List.forall_mem_cons.mpr ⟨resting.seated .root trivial,
      List.forall_mem_map.mpr fun y pending => resting.seated (.head y) (known y (primaries y pending))⟩,
      List.nodup_cons.mpr ⟨by simp, distinct.map fun _ _ same => Role.head.inj same⟩⟩
  have added : Torus.Circle (torus.insertedBeside _ .left _) seat .right .root _ :=
    circle.insertedLast found (by simpa using absent)
  have apart : torus.Apart (torus.insertedBeside _ .left _) .right _ := circle.followedApart found
  have below : torus.Apart (torus.insertedBeside (seat .root) .left (seat (.head column))) .down [] :=
    torus.insertedAcross _ _ (by decide) (by decide)
  have roles := torus.roleInserted (seat .root) .left (seat (.head column))
  rw [Torus.insertedKeeps] at added apart below roles ⊢
  generalize (torus.insertedBeside _ _ _).cells = cells at added apart below roles ⊢
  refine ⟨resting.headsChanged roles below apart ?_ rfl ?_ rfl resting.work, ?_⟩
  · refine List.forall_mem_cons.mpr ⟨.inr ⟨column, primary, rfl⟩,
      List.forall_mem_cons.mpr ⟨.inl rfl, List.forall_mem_map.mpr fun y pending => ?_⟩⟩
    exact .inr ⟨y, primaries y pending, rfl⟩
  · rw [List.map_append]
    exact added.loop
  · exact fun row y member out => below.loopKept (resting.idle row y member out)

theorem placedSeated (resting : Resting seat sheet roster torus) (sound : sheet.Sound)
    (fresh : column ∉ sheet.columnsOf sheet.rowInProgress)
    (found : torus.roleAt (seat (.entry sheet.rowInProgress column)) =
      some (.entry sheet.rowInProgress column)) {role : Role}
    (present : (sheet.place column).Seats role) : torus.roleAt (seat role) = some role := by
  cases role with
  | root => exact resting.seated .root trivial
  | head y =>
    exact resting.seated (.head y) (show y < sheet.columns.length from Sheet.placedColumns fresh ▸ present)
  | entry r y =>
    rcases (sound.memPlaced fresh).mp present with old | ⟨here, new⟩
    · exact resting.seated (.entry r y) old
    · subst here new
      exact found

theorem placedRests (resting : Resting seat sheet roster torus) (sound : sheet.Sound)
    (remains : roster.Remains sheet covered) (fresh : column ∉ sheet.columnsOf sheet.rowInProgress)
    (found : torus.roleAt (seat (.entry sheet.rowInProgress column)) =
      some (.entry sheet.rowInProgress column))
    (alone : ∀ direction, torus.link direction (seat (.entry sheet.rowInProgress column)) =
      seat (.entry sheet.rowInProgress column))
    {after : Torus} (roles : after.roleAt = torus.roleAt) (columns : after.columns = torus.columns)
    (work : after.removals = torus.removals) (below : torus.Apart after .down [])
    (apart : torus.Apart after .right ((entriesAcross sheet.rowInProgress
      (sheet.columnsOf sheet.rowInProgress ++ [column])).map seat))
    (across : ∀ first rest, sheet.columnsOf sheet.rowInProgress ++ [column] = first :: rest →
      Loop (after.link .right) (after.link .left) (seat (.entry sheet.rowInProgress first))
        ((entriesAcross sheet.rowInProgress rest).map seat)) :
    Resting seat (sheet.place column) roster after := by
  have same := Sheet.placedColumns fresh
  have isPrimary : (sheet.place column).isPrimary = sheet.isPrimary := by
    unfold Sheet.isPrimary
    rw [same]
  have moved : ∀ role ∈ entriesAcross sheet.rowInProgress
      (sheet.columnsOf sheet.rowInProgress ++ [column]), torus.roleAt (seat role) = some role := by
    refine List.forall_mem_map.mpr fun y member => resting.placedSeated sound fresh found ?_
    simpa [Sheet.Seats, sound.memPlaced fresh] using member
  refine ⟨⟨resting.root, fun role present => roles ▸ resting.placedSeated sound fresh found present,
    ?_, ?_, ?_, ?_, ?_, ?_, work.trans resting.work⟩, ?_⟩
  · rw [columns, same]
    exact resting.width
  · rw [columns, same]
    exact resting.headers
  · have circle := resting.openCircle remains
    refine apart.keepsCircle moved circle.loop circle.seated ?_
    simp [entriesAcross]
  · rw [same, isPrimary]
    intro y known secondary
    refine apart.keepsLoneCircle moved (resting.aside y known secondary) (resting.seated (.head y) known) ?_
    simp [entriesAcross]
  · rw [same]
    exact fun y known => below.loopKept (resting.below y known)
  · intro r first rest split
    rw [sound.columnsOfPlaced fresh] at split
    split at split
    · rename_i progress
      subst progress
      exact across first rest split
    · rename_i other
      refine apart.keepsCircle moved (resting.across r first rest split) (fun role member =>
        resting.seated role (acrossPresent split role member)) ?_
      rw [entriesAcross, ← List.map_cons]
      refine List.forall_mem_map.mpr fun y _ hit => ?_
      obtain ⟨z, -, same⟩ := List.mem_map.mp hit
      exact other (Role.entry.inj same).1.symm
  · intro r y member out
    rcases (sound.memPlaced fresh).mp member with old | ⟨here, new⟩
    · exact below.loopKept (resting.idle r y old out)
    · subst here new
      exact below.loopKept (Loop.loopAlone (alone .down) (alone .up))

end Resting

end DancingLinks
