import DancingLinks.Proofs.Circle
import DancingLinks.Proofs.CoveredRoster

/-! When an arena holds what a roster says. Every role that the matrix has is seated on a site of its
own, and each list of the matrix is a loop of links: the open heads through the root, the live rows
through the head of their column, the columns of a row through any of its entries. Nothing is asked
of the vertical links of entries that are not live; they keep what undoing needs. -/
namespace DancingLinks

def Roster.entriesIn (roster : Roster) (column : Nat) : List Role :=
  (roster.live column).map fun row => .entry row column

def entriesAcross (row : Nat) (columns : List Nat) : List Role := columns.map (Role.entry row)

structure Woven (seat : Role → Site) (sheet : Sheet) (roster : Roster) (torus : Torus) : Prop where
  root : seat .root = Torus.root
  seated : ∀ role, sheet.Seats role → torus.roleAt (seat role) = some role
  width : torus.columns.size = sheet.columns.length
  headers : ∀ column header, torus.columns[column]? = some header →
    sheet.columns[column]? = some (header.name, header.isPrimary) ∧
    header.head = seat (.head column) ∧ header.size = (roster.live column).length
  heads : Loop (torus.link .right) (torus.link .left) (seat .root)
    ((roster.pending.map Role.head).map seat)
  aside : ∀ column < sheet.columns.length, sheet.isPrimary column = false →
    Loop (torus.link .right) (torus.link .left) (seat (.head column)) []
  below : ∀ column < sheet.columns.length,
    Loop (torus.link .down) (torus.link .up) (seat (.head column)) ((roster.entriesIn column).map seat)
  across : ∀ row first rest, sheet.columnsOf row = first :: rest →
    Loop (torus.link .right) (torus.link .left) (seat (.entry row first))
      ((entriesAcross row rest).map seat)
  work : torus.removals = roster.work

theorem bindOk {ε α β : Type} {first : Except ε α} {next : α → Except ε β} {b : β} :
    (first >>= next) = .ok b ↔ ∃ a, first = .ok a ∧ next a = .ok b := by
  cases first <;> simp [bind, Except.bind]

theorem mapMOk {α β γ ε : Type} {f : β → Except ε γ} {s : α → β} {g : α → γ} {items : List α}
    (each : ∀ x ∈ items, f (s x) = .ok (g x)) : (items.map s).mapM f = .ok (items.map g) := by
  induction items with
  | nil => rfl
  | cons x rest ih =>
    have tail := ih fun y member => each y (List.mem_cons_of_mem _ member)
    simp [List.mapM_cons, each x List.mem_cons_self, tail, bind, Except.bind, pure, Except.pure]

namespace Woven

variable {seat : Role → Site} {sheet : Sheet} {roster : Roster} {torus : Torus}
  {covered : List Nat} {row column y : Nat}

theorem withRemovals (woven : Woven seat sheet roster torus) (work : Nat) :
    Woven seat sheet { roster with work } (torus.withRemovals work) :=
  ⟨woven.root, woven.seated, woven.width, woven.headers, woven.heads, woven.aside, woven.below,
    woven.across, rfl⟩

theorem countRemovalWoven (woven : Woven seat sheet roster torus) :
    Woven seat sheet { roster with work := roster.work + 1 } torus.countRemoval :=
  ⟨woven.root, woven.seated, woven.width, woven.headers, woven.heads, woven.aside, woven.below,
    woven.across, congrArg (· + 1) woven.work⟩

theorem sameCells (woven : Woven seat sheet roster torus) {after : Torus}
    (cells : after.cells = torus.cells) (columns : after.columns = torus.columns)
    (work : after.removals = torus.removals) : Woven seat sheet roster after where
  root := woven.root
  seated := Torus.roleCells cells ▸ woven.seated
  width := columns ▸ woven.width
  headers := columns ▸ woven.headers
  heads := by simpa only [Torus.linkCells cells] using woven.heads
  aside := by simpa only [Torus.linkCells cells] using woven.aside
  below := by simpa only [Torus.linkCells cells] using woven.below
  across := by simpa only [Torus.linkCells cells] using woven.across
  work := work.trans woven.work

theorem seatApart (woven : Woven seat sheet roster torus) {first second : Role}
    (present : sheet.Seats first) (other : sheet.Seats second) (same : seat first = seat second) :
    first = second :=
  Torus.seatApart (woven.seated first present) (woven.seated second other) same

theorem entryApart (woven : Woven seat sheet roster torus) (member : column ∈ sheet.columnsOf row)
    (known : y < sheet.columns.length) : seat (.entry row column) ≠ seat (.head y) := fun same =>
  Role.noConfusion (woven.seatApart (show sheet.Seats (.entry row column) from member)
    (show sheet.Seats (.head y) from known) same)

theorem listedKnown (woven : Woven seat sheet roster torus) {header : Column}
    (listed : torus.columns[column]? = some header) : column < sheet.columns.length :=
  woven.width ▸ (Array.getElem?_eq_some_iff.mp listed).1

theorem headerOf (woven : Woven seat sheet roster torus) (known : column < sheet.columns.length) :
    ∃ header, torus.columns[column]? = some header ∧ torus.column column = .ok header ∧
      torus.headOf column = .ok (seat (.head column)) ∧
      header.size = (roster.live column).length := by
  have inside : column < torus.columns.size := woven.width.symm ▸ known
  have listed := Array.getElem?_eq_getElem inside
  obtain ⟨-, head, size⟩ := woven.headers column _ listed
  have read : torus.column column = .ok torus.columns[column] := by simp [Torus.column, listed]
  refine ⟨_, listed, read, ?_, size⟩
  simp [Torus.headOf, read, head, bind, Except.bind, pure, Except.pure]

theorem columnPresent (sound : sheet.Sound) (within : roster.Within sheet)
    (known : column < sheet.columns.length) :
    ∀ role ∈ Role.head column :: roster.entriesIn column, sheet.Seats role := by
  intro role member
  rcases List.mem_cons.mp member with rfl | inside
  · exact known
  · obtain ⟨row, live, rfl⟩ := List.mem_map.mp inside
    exact within.liveMeets sound live

theorem columnDistinct (sound : sheet.Sound) (within : roster.Within sheet)
    (column : Nat) : (Role.head column :: roster.entriesIn column).Nodup := by
  refine List.nodup_cons.mpr ⟨by simp [Roster.entriesIn], ?_⟩
  exact (within.liveDistinct sound column).map fun a b same => (Role.entry.inj same).1

theorem columnAround (woven : Woven seat sheet roster torus) (known : column < sheet.columns.length)
    (once : (roster.live column).Nodup) (holds : ∀ row ∈ roster.live column, column ∈ sheet.columnsOf row) :
    torus.Circle seat .down (.head column) (roster.entriesIn column) := by
  refine ⟨woven.below column known, List.forall_mem_cons.mpr ⟨woven.seated (.head column) known, ?_⟩,
    List.nodup_cons.mpr ⟨by simp [Roster.entriesIn], ?_⟩⟩
  · exact List.forall_mem_map.mpr fun row live => woven.seated (.entry row column) (holds row live)
  · exact once.map fun a b same => (Role.entry.inj same).1

theorem columnCircle (woven : Woven seat sheet roster torus) (sound : sheet.Sound)
    (within : roster.Within sheet) (known : column < sheet.columns.length) :
    torus.Circle seat .down (.head column) (roster.entriesIn column) :=
  woven.columnAround known (within.liveDistinct sound column) fun _ live => within.liveMeets sound live

theorem ringBelow (woven : Woven seat sheet roster torus) (sound : sheet.Sound)
    (within : roster.Within sheet) (known : column < sheet.columns.length) :
    torus.ring (seat (.head column)) .down = .ok ((roster.entriesIn column).map seat) :=
  (woven.columnCircle sound within known).ringRead

theorem ringAbove (woven : Woven seat sheet roster torus) (sound : sheet.Sound)
    (within : roster.Within sheet) (known : column < sheet.columns.length) :
    torus.ring (seat (.head column)) .up = .ok ((roster.entriesIn column).reverse.map seat) :=
  (woven.columnCircle sound within known).circleOpposite.ringRead

theorem acrossFrom (woven : Woven seat sheet roster torus) (member : column ∈ sheet.columnsOf row) :
    Loop (torus.link .right) (torus.link .left) (seat (.entry row column))
      ((entriesAcross row (beyond column (sheet.columnsOf row))).map seat) := by
  obtain ⟨before, after, split, fresh⟩ := List.eq_append_cons_of_mem member
  rw [split, beyondSplit fresh]
  cases before with
  | nil => simpa using woven.across row column after split
  | cons first before =>
    have loop := woven.across row first (before ++ column :: after) split
    simp only [entriesAcross, List.map_append, List.map_cons] at loop ⊢
    exact loop.loopShifted

theorem rowPresent (sound : sheet.Sound) (member : column ∈ sheet.columnsOf row) :
    ∀ role ∈ Role.entry row column :: entriesAcross row (beyond column (sheet.columnsOf row)),
      sheet.Seats role := by
  intro role inside
  rcases List.mem_cons.mp inside with rfl | inside
  · exact member
  · obtain ⟨y, there, rfl⟩ := List.mem_map.mp inside
    exact ((memBeyond (sound.distinct row) member).mp there).1

theorem rowDistinct (sound : sheet.Sound) (member : column ∈ sheet.columnsOf row) :
    (Role.entry row column :: entriesAcross row (beyond column (sheet.columnsOf row))).Nodup := by
  rw [entriesAcross, ← List.map_cons]
  refine List.Nodup.map (fun a b same => (Role.entry.inj same).2) ?_
  exact (beyondPerm member).nodup_iff.mpr (sound.distinct row)

theorem rowCircle (woven : Woven seat sheet roster torus) (sound : sheet.Sound)
    (member : column ∈ sheet.columnsOf row) :
    torus.Circle seat .right (.entry row column)
      (entriesAcross row (beyond column (sheet.columnsOf row))) :=
  ⟨woven.acrossFrom member, fun role inside => woven.seated role (rowPresent sound member role inside),
    rowDistinct sound member⟩

theorem ringRight (woven : Woven seat sheet roster torus) (sound : sheet.Sound)
    (member : column ∈ sheet.columnsOf row) :
    torus.ring (seat (.entry row column)) .right =
      .ok ((entriesAcross row (beyond column (sheet.columnsOf row))).map seat) :=
  (woven.rowCircle sound member).ringRead

theorem ringLeft (woven : Woven seat sheet roster torus) (sound : sheet.Sound)
    (member : column ∈ sheet.columnsOf row) :
    torus.ring (seat (.entry row column)) .left =
      .ok ((entriesAcross row (beyond column (sheet.columnsOf row))).reverse.map seat) :=
  (woven.rowCircle sound member).circleOpposite.ringRead

theorem headsPresent (remains : roster.Remains sheet covered) :
    ∀ role ∈ Role.root :: roster.pending.map Role.head, sheet.Seats role := by
  intro role member
  rcases List.mem_cons.mp member with rfl | inside
  · trivial
  · obtain ⟨column, pending, rfl⟩ := List.mem_map.mp inside
    exact (Sheet.memPrimaries.mp (remains.memPending.mp pending).1).1

theorem headsDistinct (remains : roster.Remains sheet covered) :
    (Role.root :: roster.pending.map Role.head).Nodup :=
  List.nodup_cons.mpr ⟨by simp, remains.pendingOnce.map fun _ _ same => Role.head.inj same⟩

theorem openCircle (woven : Woven seat sheet roster torus) (remains : roster.Remains sheet covered) :
    torus.Circle seat .right .root (roster.pending.map Role.head) :=
  ⟨woven.heads, fun role member => woven.seated role (headsPresent remains role member),
    headsDistinct remains⟩

theorem ringHeads (woven : Woven seat sheet roster torus) (remains : roster.Remains sheet covered) :
    torus.ring Torus.root .right = .ok ((roster.pending.map Role.head).map seat) := by
  rw [← woven.root]
  exact (woven.openCircle remains).ringRead

theorem asideCircle (woven : Woven seat sheet roster torus) (known : column < sheet.columns.length)
    (secondary : sheet.isPrimary column = false) : torus.Circle seat .right (.head column) [] :=
  ⟨woven.aside column known secondary, List.forall_mem_singleton.mpr (woven.seated (.head column) known),
    List.nodup_singleton _⟩

def sitesOf (seat : Role → Site) (entries : List (Nat × Nat)) : List Site :=
  entries.map fun entry => seat (.entry entry.1 entry.2)

theorem besideRead {along around : Direction} {head : Site} {entries : List Site}
    {rows : List (List Site)} (top : torus.headOf column = .ok head)
    (ring : torus.ring head along = .ok entries)
    (across : entries.mapM (torus.ring · around) = .ok rows) :
    torus.beside column along around = .ok rows.flatten := by
  simp [Torus.beside, top, ring, across, bind, Except.bind, pure, Except.pure]

theorem besideDown (woven : Woven seat sheet roster torus) (sound : sheet.Sound)
    (within : roster.Within sheet) (known : column < sheet.columns.length) :
    torus.beside column .down .right = .ok (sitesOf seat (roster.besides sheet column)) := by
  obtain ⟨-, -, -, head, -⟩ := woven.headerOf known
  have rows : ((roster.entriesIn column).map seat).mapM (torus.ring · .right) =
      .ok ((roster.live column).map fun row =>
        (entriesAcross row (beyond column (sheet.columnsOf row))).map seat) := by
    rw [Roster.entriesIn, List.map_map]
    exact mapMOk fun row live => woven.ringRight sound (within.liveMeets sound live)
  rw [besideRead head (woven.ringBelow sound within known) rows]
  simp [sitesOf, Roster.besides, entriesAcross, List.flatMap, List.map_flatten,
    Function.comp_def]

theorem besideUp (woven : Woven seat sheet roster torus) (sound : sheet.Sound)
    (within : roster.Within sheet) (known : column < sheet.columns.length) :
    torus.beside column .up .left = .ok (sitesOf seat (roster.besides sheet column)).reverse := by
  obtain ⟨-, -, -, head, -⟩ := woven.headerOf known
  have rows : ((roster.entriesIn column).reverse.map seat).mapM (torus.ring · .left) =
      .ok ((roster.live column).reverse.map fun row =>
        (entriesAcross row (beyond column (sheet.columnsOf row))).reverse.map seat) := by
    rw [Roster.entriesIn, ← List.map_reverse, List.map_map]
    exact mapMOk fun row live =>
      woven.ringLeft sound (within.liveMeets sound (List.mem_reverse.mp live))
  rw [besideRead head (woven.ringAbove sound within known) rows]
  simp [sitesOf, Roster.besides, entriesAcross, List.flatMap, List.map_flatten,
    List.reverse_flatten, Function.comp_def]

theorem columnChanged (woven : Woven seat sheet roster torus) (sound : sheet.Sound)
    (within : roster.Within sheet) {after : Torus} {next : Roster} {touched : List Role}
    (edit : Column → Column) (roles : after.roleAt = torus.roleAt) (across : torus.Apart after .right [])
    (apart : torus.Apart after .down (touched.map seat)) (seats : ∀ role ∈ touched, sheet.Seats role)
    (own : ∀ role ∈ touched, role = .head column ∨ ∃ row, role = .entry row column)
    (pending : next.pending = roster.pending) (elsewhere : ∀ y ≠ column, next.live y = roster.live y)
    (here : column < sheet.columns.length → Loop (after.link .down) (after.link .up)
      (seat (.head column)) ((next.entriesIn column).map seat))
    (columns : after.columns = torus.columns.modify column edit)
    (edits : ∀ header, header.size = (roster.live column).length → (edit header).name = header.name ∧
      (edit header).isPrimary = header.isPrimary ∧ (edit header).head = header.head ∧
      (edit header).size = (next.live column).length)
    (work : after.removals = next.work) : Woven seat sheet next after where
  root := woven.root
  seated := roles ▸ woven.seated
  width := by
    rw [columns, Array.size_modify]
    exact woven.width
  headers y edited present := by
    rw [columns, Array.getElem?_modify] at present
    split at present
    · rename_i same
      subst same
      obtain ⟨header, listed, rfl⟩ := Option.map_eq_some_iff.mp present
      obtain ⟨names, top, size⟩ := woven.headers column header listed
      obtain ⟨name, primary, head, counted⟩ := edits header size
      rw [name, primary, head]
      exact ⟨names, top, counted⟩
    · rename_i other
      rw [elsewhere y (Ne.symm other)]
      exact woven.headers y edited present
  heads := by
    rw [pending]
    exact across.loopKept woven.heads
  aside y known secondary := across.loopKept (woven.aside y known secondary)
  below y known := by
    by_cases same : y = column
    · subst same
      exact here known
    · have circle := woven.columnCircle sound within known
      rw [Roster.entriesIn, elsewhere y same]
      refine apart.keepsCircle (fun role hit => woven.seated role (seats role hit)) circle.loop
        circle.seated ?_
      intro role member hit
      rcases List.mem_cons.mp member with rfl | member
      · rcases own _ hit with there | ⟨row, there⟩ <;> cases there
        exact same rfl
      · obtain ⟨row, -, rfl⟩ := List.mem_map.mp member
        rcases own _ hit with there | ⟨row, there⟩ <;> cases there
        exact same rfl
  across row first rest split := across.loopKept (woven.across row first rest split)
  work := work

theorem headsChanged (woven : Woven seat sheet roster torus) {after : Torus} {next : Roster}
    {touched : List Role} (roles : after.roleAt = torus.roleAt) (below : torus.Apart after .down [])
    (apart : torus.Apart after .right (touched.map seat))
    (own : ∀ role ∈ touched, role = .root ∨ ∃ y ∈ sheet.primaries, role = .head y)
    (live : next.live = roster.live)
    (heads : Loop (after.link .right) (after.link .left) (seat .root)
      ((next.pending.map Role.head).map seat))
    (columns : after.columns = torus.columns) (work : after.removals = next.work) :
    Woven seat sheet next after := by
  have moved : ∀ role ∈ touched, torus.roleAt (seat role) = some role := by
    intro role hit
    rcases own role hit with rfl | ⟨y, primary, rfl⟩
    · exact woven.seated .root trivial
    · exact woven.seated (.head y) (Sheet.memPrimaries.mp primary).1
  refine ⟨woven.root, roles ▸ woven.seated, columns ▸ woven.width, ?_, heads, ?_, ?_, ?_, work⟩
  · rw [columns, live]
    exact woven.headers
  · intro y known secondary
    refine apart.keepsLoneCircle moved (woven.aside y known secondary) (woven.seated (.head y) known) ?_
    intro hit
    rcases own _ hit with there | ⟨z, primary, there⟩ <;> cases there
    rw [(Sheet.memPrimaries.mp primary).2] at secondary
    cases secondary
  · intro y known
    rw [Roster.entriesIn, live]
    exact below.loopKept (woven.below y known)
  · intro row first rest split
    have entries : ∀ role ∈ Role.entry row first :: entriesAcross row rest,
        ∃ y ∈ sheet.columnsOf row, role = .entry row y := by
      rw [split, entriesAcross, ← List.map_cons]
      intro role member
      obtain ⟨y, inRow, same⟩ := List.mem_map.mp member
      exact ⟨y, inRow, same.symm⟩
    refine apart.keepsCircle moved (woven.across row first rest split) ?_ ?_
    · intro role member
      obtain ⟨y, inRow, rfl⟩ := entries role member
      exact woven.seated (.entry row y) inRow
    · intro role member hit
      obtain ⟨y, -, rfl⟩ := entries role member
      rcases own _ hit with there | ⟨z, -, there⟩ <;> cases there

end Woven

end DancingLinks
