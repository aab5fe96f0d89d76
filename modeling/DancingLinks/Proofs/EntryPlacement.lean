import DancingLinks.Proofs.TorusOutline

/-! Entries placed after any history. Every column remembers the last row that it was given an entry of,
and that row is the one being built exactly if a walk around the row being built would meet an entry of
the column. This rests on rows alone, so it does not matter how torn the columns are, and an entry is
placed in every column that the row does not have yet. -/
namespace DancingLinks
open Function (update)

namespace Torus

def Meets (torus : Torus) (row column : Nat) : Prop :=
  ∃ first entries, torus.current = some first ∧ torus.rows[row]? = some first ∧
    torus.fullRing first .right = .ok entries ∧ ∃ entry ∈ entries, torus.columnOf entry = .ok column

/-- There is one site more, an entry at the end of the row being built or the first entry of a new row;
the walks around all other rows meet the sites that they met before. -/
structure Gains (torus : Torus) (column : Nat) (after : Torus) : Prop where
  size : after.cells.size = torus.cells.size + 1
  roles : after.roleAt = update torus.roleAt torus.cells.size (some (.entry torus.rowInProgress column))
  columns : after.columns = torus.columns.modify column fun header =>
    { header with size := header.size + 1, lastRow := some torus.rowInProgress }
  continues : ∀ first, torus.current = some first → after.current = some first ∧
    after.rows = torus.rows ∧ ∃ entries, torus.fullRing first .right = .ok entries ∧
      after.fullRing first .right = .ok (entries ++ [torus.cells.size])
  begins : torus.current = none → after.current = some torus.cells.size ∧
    after.rows = torus.rows.push torus.cells.size ∧
      after.fullRing torus.cells.size .right = .ok [torus.cells.size]
  others : ∀ (row : Nat) (first : Site), torus.rows[row]? = some first → torus.current ≠ some first →
    after.fullRing first .right = torus.fullRing first .right

variable {torus middle after : Torus} {sheet : Sheet} {site target anchor first : Site}
  {direction : Direction} {role : Role} {row column index : Nat} {name : String} {isPrimary : Bool}
  {header : Column}

def withColumn (torus : Torus) (header : Column) : Torus :=
  { torus with columns := torus.columns.push header }

theorem outlineColumn (torus : Torus) (head : Site) (isPrimary : Bool) :
    torus.outline.withColumn ⟨name, head, 0, false, none⟩ =
      (torus.withColumn ⟨name, head, 0, isPrimary, none⟩).outline := by
  simp [outline, withColumn]

theorem writtenRead (done : torus.written column = .ok middle) :
    middle.cells.size = torus.cells.size + 1 ∧ middle.columns = torus.columns ∧
      (torus.current = none → middle.rows = torus.rows.push torus.cells.size ∧
        middle.current = some torus.cells.size) ∧
      ∀ first, torus.current = some first → middle.rows = torus.rows ∧ middle.current = some first := by
  unfold written at done
  cases current : torus.current with
  | none =>
    simp only [current] at done
    cases done
    refine ⟨by simp [settle], rfl, fun _ => ⟨rfl, rfl⟩, fun first same => ?_⟩
    cases same
  | some first =>
    simp only [current] at done
    obtain rfl := insertBesideRead done
    refine ⟨by simp [insertedBeside, pointed, settle], by rw [insertedKeeps]; rfl, fun none => ?_,
      fun top same => ?_⟩
    · cases none
    · cases same
      rw [insertedKeeps]
      exact ⟨rfl, current⟩

theorem toppedKeeps (torus : Torus) (column row : Nat) (head entry : Site) :
    (torus.topped column row head entry).cells.size = torus.cells.size ∧
      (torus.topped column row head entry).rows = torus.rows ∧
      (torus.topped column row head entry).current = torus.current ∧
      (torus.topped column row head entry).columns = torus.columns.modify column fun header =>
        { header with size := header.size + 1, lastRow := some row } := by
  simp [topped, insertedBeside, pointed, editColumn]

theorem Abreast.inRow (abreast : torus.Abreast direction site target)
    (entry : torus.roleAt site = some (.entry row column)) (across : direction.isAcross = true) :
    ∃ y, torus.roleAt target = some (.entry row y) := by
  obtain ⟨role, other, here, there, same⟩ := abreast
  cases entry.symm.trans here
  obtain ⟨y, rfl⟩ := (Role.inRow across).mp (same.symm.trans ((Role.inRow across).mpr ⟨column, rfl⟩))
  exact ⟨y, there⟩

namespace Laned

theorem walkOutline (laned : torus.Laned) (across : direction.isAcross = true)
    (entry : torus.roleAt site = some (.entry row column)) (start : Site) (steps : Nat) :
    torus.outline.walk start direction steps site = torus.walk start direction steps site := by
  induction steps generalizing site column with
  | zero => rfl
  | succ steps ih =>
    have outlined : torus.outline.roleAt site = some (.entry row column) := by rw [outlineRoles, entry]
    obtain ⟨y, next⟩ := (laned.leads site _ entry direction).inRow entry across
    simp only [walk, followRead entry, followRead outlined, linkOutline entry across, bind,
      Except.bind, ih next]

theorem ringOutline (laned : torus.Laned) (entry : torus.roleAt site = some (.entry row column)) :
    torus.outline.fullRing site .right = torus.fullRing site .right := by
  have size : torus.outline.cells.size = torus.cells.size := by simp [outline]
  simp only [fullRing, ring, size, laned.walkOutline (show Direction.right.isAcross from rfl) entry]

theorem settleLaned (laned : torus.Laned) (role : Role) : (torus.settle role).2.Laned := by
  have kept : ∀ {site kind}, torus.roleAt site = some kind →
      (torus.settle role).2.roleAt site = some kind := by
    intro site kind found
    rw [roleSettled, Function.update_of_ne (Nat.ne_of_lt (roleInside found)), found]
  refine ⟨kept laned.root, fun column header listed => kept (laned.heads column header listed), ?_⟩
  intro site kind found direction
  rw [linkSettled]
  by_cases new : site = torus.cells.size
  · subst new
    rw [linkOutside]
    exact .abreastSelf found
  · rw [roleSettled, Function.update_of_ne new] at found
    obtain ⟨own, other, here, there, same⟩ := laned.leads site kind found direction
    exact ⟨own, other, kept here, kept there, same⟩

theorem withColumn (laned : torus.Laned)
    (found : torus.roleAt header.head = some (.head torus.columns.size)) :
    (torus.withColumn header).Laned where
  root := laned.root
  heads column former listed := by
    rw [Torus.withColumn, Array.getElem?_push] at listed
    split at listed
    · rename_i last
      cases listed
      exact last ▸ found
    · exact laned.heads column former listed
  leads := laned.leads

theorem insertedAside (laned : torus.Laned) (abreast : torus.Abreast direction anchor site)
    (found : torus.roleAt anchor = some role) (aside : ∀ row, role.lane direction ≠ some (.row row)) :
    (torus.insertedBeside anchor direction site).outline = torus.outline := by
  have next := laned.leads anchor role found direction
  rw [insertedBeside, pointedAside, pointedAside, pointedAside, pointedAside]
  · exact abreast.clearOfRows found aside
  · rw [rolePointed]
    exact abreast.clearBack found aside
  · rw [rolePointed, rolePointed]
    exact next.clearBack found aside
  · rw [rolePointed, rolePointed, rolePointed]
    exact (Abreast.abreastSelf found).clearOfRows found aside

theorem headInsertShifts (laned : torus.Laned) (found : torus.roleAt site = some (.head column))
    (done : torus.insertBeside Torus.root .left site = .ok after) :
    torus.Shifts after ∧ after.columns = torus.columns := by
  have abreast : torus.Abreast .left Torus.root site := ⟨_, _, laned.root, found, rfl⟩
  have aside : ∀ row, Role.root.lane .left ≠ some (.row row) := fun row => by
    simp [Role.lane, Direction.isAcross]
  obtain rfl := insertBesideRead done
  exact ⟨⟨laned.insertedLaned abreast, laned.insertedAside abreast laned.root aside⟩, by rw [insertedKeeps]⟩

theorem addsColumn (laned : torus.Laned) (done : torus.addColumn name isPrimary = .ok (index, after)) :
    after.Laned ∧ torus.outline.addColumn name false = .ok (index, after.outline) := by
  have width : torus.outline.columns.size = torus.columns.size := by simp [outline]
  have settled := laned.settleLaned (.head torus.columns.size)
  have found : (torus.settle (.head torus.columns.size)).2.roleAt torus.cells.size =
      some (.head torus.columns.size) := by rw [roleSettled, Function.update_self]
  have plain : torus.outline.addColumn name false = .ok (torus.columns.size,
      (torus.settle (.head torus.columns.size)).2.outline.withColumn
        ⟨name, torus.cells.size, 0, false, none⟩) := by
    simp only [addColumn, width, settleOutline]
    rfl
  rw [plain]
  cases isPrimary with
  | false =>
    cases done
    exact ⟨settled.withColumn found, by rw [outlineColumn _ _ false]; rfl⟩
  | true =>
    obtain ⟨opened, opens, same⟩ := bindOk.mp done
    cases same
    obtain ⟨shifts, columns⟩ := settled.headInsertShifts found opens
    refine ⟨shifts.laned.withColumn ?_, ?_⟩
    · rw [shifts.rolesKept, columns]
      exact found
    · rw [← shifts.outline, outlineColumn _ _ true]
      rfl

theorem insertedOutline (laned : torus.Laned) (across : direction.isAcross = true)
    (entry : torus.roleAt anchor = some (.entry row column))
    (new : torus.roleAt site = some (.entry row index)) :
    torus.outline.insertedBeside anchor direction site =
      (torus.insertedBeside anchor direction site).outline := by
  have back : direction.opposite.isAcross = true := direction.oppositeAcross.trans across
  obtain ⟨y, next⟩ := (laned.leads anchor _ entry direction).inRow entry across
  simp only [insertedBeside, linkOutline entry across]
  rw [pointedOutline new across, pointedOutline (by rwa [rolePointed]) back,
    pointedOutline (by rwa [rolePointed, rolePointed]) back,
    pointedOutline (by rwa [rolePointed, rolePointed, rolePointed]) across]

theorem writtenOutline (laned : torus.Laned)
    (building : ∀ first, torus.current = some first →
      ∃ y, torus.roleAt first = some (.entry torus.rowInProgress y)) (column : Nat) :
    ∃ middle, torus.written column = .ok middle ∧ torus.outline.written column = .ok middle.outline ∧
      middle.Laned ∧
      middle.roleAt = update torus.roleAt torus.cells.size (some (.entry torus.rowInProgress column)) := by
  have size : torus.outline.cells.size = torus.cells.size := by simp [outline]
  have progress : torus.outline.rowInProgress = torus.rowInProgress := rfl
  have current : torus.outline.current = torus.current := rfl
  have settled := laned.settleLaned (.entry torus.rowInProgress column)
  have roles := torus.roleSettled (.entry torus.rowInProgress column)
  simp only [written, settleOutline, size, progress, current]
  cases started : torus.current with
  | none => exact ⟨_, rfl, rfl, ⟨settled.root, settled.heads, settled.leads⟩, roles⟩
  | some first =>
    obtain ⟨y, entry⟩ := building first started
    have new : (torus.settle (.entry torus.rowInProgress column)).2.roleAt torus.cells.size =
        some (.entry torus.rowInProgress column) := by rw [roles, Function.update_self]
    have old : (torus.settle (.entry torus.rowInProgress column)).2.roleAt first =
        some (.entry torus.rowInProgress y) := by
      rw [roles, Function.update_of_ne (Nat.ne_of_lt (roleInside entry)), entry]
    have abreast : (torus.settle (.entry torus.rowInProgress column)).2.Abreast .left first torus.cells.size :=
      ⟨_, _, old, new, rfl⟩
    have outlined := settled.insertedOutline (show Direction.left.isAcross from rfl) old new
    have next := settled.linkInside old .left
    have inserts := insertBesideInside old (roleInside new) next
    rw [← outlineRoles] at old new
    have same : (torus.settle (.entry torus.rowInProgress column)).2.outline.cells.size =
        (torus.settle (.entry torus.rowInProgress column)).2.cells.size := by simp [outline]
    have link := linkOutline ((outlineRoles _ ▸ old)) (show Direction.left.isAcross from rfl)
    refine ⟨_, inserts, ?_, settled.insertedLaned abreast, by rw [roleInserted, roles]⟩
    rw [← outlined]
    exact insertBesideInside old (roleInside new) (by rw [link, same]; exact next)

theorem placeOutline (laned : torus.Laned)
    (building : ∀ first, torus.current = some first →
      ∃ y, torus.roleAt first = some (.entry torus.rowInProgress y))
    (listed : torus.columns[column]? = some header) (fresh : header.lastRow ≠ some torus.rowInProgress) :
    ∃ middle, torus.written column = .ok middle ∧ torus.outline.written column = .ok middle.outline ∧
      ∃ after, torus.place column = .ok (.placed, after) ∧
        after = middle.topped column torus.rowInProgress header.head torus.cells.size ∧ after.Laned ∧
        after.outline = middle.outline.noted column torus.rowInProgress := by
  obtain ⟨middle, written, outlined, laned', roles⟩ := laned.writtenOutline building column
  obtain ⟨-, columns, -⟩ := writtenRead written
  have top := laned'.heads column header (columns ▸ listed)
  have new : middle.roleAt torus.cells.size = some (.entry torus.rowInProgress column) := by
    rw [roles, Function.update_self]
  have placed := placeRead listed fresh written columns top (roleInside new) (laned'.linkInside top .down)
  refine ⟨middle, written, outlined, _, placed, rfl, ?_, ?_⟩
  · have abreast : middle.Abreast .down header.head torus.cells.size := ⟨_, _, top, new, rfl⟩
    exact (laned'.insertedLaned abreast).editedLaned column
      (fun c => { c with size := c.size + 1, lastRow := some torus.rowInProgress }) fun _ => rfl
  · obtain ⟨former, -, ⟨-, same, -⟩ | ⟨-, -, laid, writes, same⟩⟩ := placeCases placed
    · cases same
    · rw [writtenLaid, written] at writes
      cases writes
      rw [← notedLaid] at same
      rw [outlineAside same, notedOutline]

end Laned

structure Bears (sheet : Sheet) (torus : Torus) : Prop where
  laned : torus.Laned
  drafts : torus.outline.Drafts sheet

namespace Bears

theorem ofEmpty : Torus.empty.Bears .empty where
  laned :=
    { root := rfl
      heads := fun column header listed => by simp [Torus.empty] at listed
      leads := fun site role found direction => by
        obtain ⟨rfl, rfl⟩ := emptyRole found
        have own : Torus.empty.link direction root = root := by cases direction <;> rfl
        rw [own]
        exact .abreastSelf found }
  drafts := by
    have same : Torus.empty.outline = Torus.empty := by
      simp [outline, Torus.empty, Cell.outline, Cell.alone, Torus.root]
    exact same.symm ▸ .ofEmpty

theorem bearsShifted (bears : torus.Bears sheet) (shifts : torus.Shifts after) : after.Bears sheet :=
  ⟨shifts.laned, shifts.outline ▸ bears.drafts⟩

theorem newRow (bears : torus.Bears sheet) : torus.newRow.Bears sheet.newRow :=
  ⟨⟨bears.laned.root, bears.laned.heads, bears.laned.leads⟩, bears.drafts.newRow⟩

theorem addColumn (bears : torus.Bears sheet) (done : torus.addColumn name isPrimary = .ok (index, after)) :
    after.Bears (sheet.addColumn name false) ∧ index = sheet.columns.length := by
  obtain ⟨laned, plain⟩ := bears.laned.addsColumn done
  obtain ⟨twin, added, drafts, -⟩ := bears.drafts.addColumnWidens name false
  cases plain.symm.trans added
  exact ⟨⟨laned, drafts⟩, rfl⟩

theorem sizesRead (bears : torus.Bears sheet) :
    torus.columns.size = sheet.columns.length ∧ torus.rows.size = sheet.rows.length := by
  obtain ⟨columns, rows⟩ := bears.drafts.sizesRead
  exact ⟨(Array.size_map ..).symm.trans columns, rows⟩

theorem rowWalked {seat : Role → Site} {roster : Roster} (laned : torus.Laned) (sound : sheet.Sound)
    (resting : Resting seat sheet roster torus.outline) (listed : Listed seat sheet torus.outline)
    (stored : torus.rows[row]? = some first) :
    (∃ y, torus.roleAt first = some (.entry row y)) ∧
      torus.fullRing first .right = .ok ((entriesAcross row (sheet.columnsOf row)).map seat) := by
  have inside : row < sheet.rows.length := listed.rows ▸ (Array.getElem?_eq_some_iff.mp stored).1
  obtain ⟨column, rest, split⟩ := List.exists_cons_of_ne_nil (sound.filled row inside)
  have member : column ∈ sheet.columnsOf row := split ▸ List.mem_cons_self
  obtain rfl : seat (.entry row column) = first :=
    Option.some.inj ((listed.first row column rest split).symm.trans stored)
  have entry := resting.seated (.entry row column) member
  obtain ⟨top, read, ring⟩ := entriesRead resting listed sound inside
  rw [outlineRoles] at entry
  have same : top = seat (.entry row column) := by
    simp [firstEntry, listed.first row column rest split] at read
    exact read.symm
  rw [same, laned.ringOutline entry] at ring
  exact ⟨⟨column, entry⟩, ring⟩

theorem seatedOutline (bears : torus.Bears sheet) : ∃ seat,
    Resting seat sheet { sheet.roster with work := torus.outline.removals } torus.outline ∧
      Listed seat sheet torus.outline := by
  have holds := bears.drafts.holds
  rwa [outlineTwice] at holds

theorem rowInProgressRead (bears : torus.Bears sheet) :
    torus.rowInProgress = sheet.rowInProgress ∧
      (torus.current = none ∧ sheet.columnsOf sheet.rowInProgress = [] ∧
          sheet.rowInProgress = sheet.rows.length ∨
        ∃ first, torus.current = some first ∧ torus.rows[sheet.rowInProgress]? = some first) := by
  obtain ⟨seat, resting, listed⟩ := bears.seatedOutline
  have sound := bears.drafts.sound
  obtain ⟨current, progress⟩ := listed.listedProgress sound
  refine ⟨progress, ?_⟩
  cases split : sheet.columnsOf sheet.rowInProgress with
  | nil =>
    rw [split] at current
    have atEnd : sheet.rowInProgress = sheet.rows.length := by
      have low := sound.progressBounds.1
      by_contra short
      exact sound.filled sheet.rowInProgress (by omega) split
    exact .inl ⟨current, rfl, atEnd⟩
  | cons column rest =>
    rw [split] at current
    exact .inr ⟨_, current, listed.first _ column rest split⟩

theorem meetsIff (bears : torus.Bears sheet) :
    torus.Meets row column ↔
      row = sheet.rowInProgress ∧ column ∈ sheet.columnsOf sheet.rowInProgress := by
  obtain ⟨seat, resting, listed⟩ := bears.seatedOutline
  have sound := bears.drafts.sound
  have columns : ∀ row, ∀ y ∈ sheet.columnsOf row, torus.columnOf (seat (.entry row y)) = .ok y := by
    intro row y member
    have entry := resting.seated (.entry row y) member
    rw [outlineRoles] at entry
    exact columnOfEntry entry
  obtain ⟨-, ⟨idle, none, -⟩ | ⟨first, current, stored⟩⟩ := bears.rowInProgressRead
  · constructor
    · rintro ⟨first, -, current, -⟩
      cases idle.symm.trans current
    · rintro ⟨-, member⟩
      rw [none] at member
      cases member
  · obtain ⟨⟨y, entry⟩, ring⟩ := rowWalked bears.laned sound resting listed stored
    constructor
    · rintro ⟨top, entries, begun, listedAt, walked, site, met, own⟩
      cases current.symm.trans begun
      obtain ⟨⟨z, again⟩, -⟩ := rowWalked bears.laned sound resting listed listedAt
      cases entry.symm.trans again
      cases ring.symm.trans walked
      refine ⟨rfl, ?_⟩
      rw [entriesAcross, List.map_map] at met
      obtain ⟨x, member, rfl⟩ := List.mem_map.mp met
      cases (columns _ x member).symm.trans own
      exact member
    · rintro ⟨rfl, member⟩
      refine ⟨first, _, current, stored, ring, seat (.entry _ column), ?_, columns _ column member⟩
      exact List.mem_map_of_mem (List.mem_map_of_mem member)

theorem presentIff (bears : torus.Bears sheet) (known : column < torus.columns.size) :
    ∃ header, torus.columns[column]? = some header ∧
      (header.lastRow = some torus.rowInProgress ↔ column ∈ sheet.columnsOf sheet.rowInProgress) := by
  have listed := Array.getElem?_eq_getElem known
  have outlined : torus.outline.columns[column]? =
      some { torus.columns[column] with size := 0, isPrimary := false } := by
    simp [outline, listed]
  have last := bears.drafts.lastHere outlined
  exact ⟨_, listed, last⟩

theorem placedAgain (bears : torus.Bears sheet) (known : column < torus.columns.size)
    (there : column ∈ sheet.columnsOf sheet.rowInProgress) :
    torus.place column = .ok (.alreadyPresent sheet.rowInProgress, torus) := by
  obtain ⟨header, listed, last⟩ := bears.presentIff known
  have here := last.mpr there
  simp [place, Torus.column, listed, here, bears.rowInProgressRead.1, bind, Except.bind, pure, Except.pure]

theorem placedAround (bears : torus.Bears sheet) (known : column < torus.columns.size)
    (fresh : column ∉ sheet.columnsOf sheet.rowInProgress)
    (writes : torus.outline.written column = .ok middle.outline) (laned : after.Laned)
    (noted : after.outline = middle.outline.noted column torus.rowInProgress) :
    after.Bears (sheet.placeOut column) ∧
      ∀ row first, after.rows[row]? = some first →
        (torus.rows[row]? = some first → ∃ entries, torus.fullRing first .right = .ok entries ∧
          after.fullRing first .right =
            .ok (entries ++ if row = sheet.rowInProgress then [torus.cells.size] else [])) ∧
        (row = sheet.rowInProgress → sheet.columnsOf row = [] →
          after.fullRing first .right = .ok [torus.cells.size]) := by
  have sound := bears.drafts.sound
  have size : torus.outline.cells.size = torus.cells.size := by simp [outline]
  rw [← outlineTwice] at writes
  rw [← outlineTwice after] at noted
  have drafts := bears.drafts.placedDrafts (bears.sizesRead.1 ▸ known) fresh writes noted
  obtain ⟨seat, resting, listed⟩ := bears.drafts.holds
  obtain ⟨resting', listed'⟩ := bears.drafts.writtenDrafts fresh writes noted resting listed
  rw [outlineTwice] at resting listed resting' listed'
  rw [outlineTwice, size] at resting' listed'
  refine ⟨⟨laned, drafts⟩, fun row first stored => ?_⟩
  obtain ⟨-, ring⟩ := rowWalked laned drafts.sound resting' listed' stored
  have old : (entriesAcross row (sheet.columnsOf row)).map
      (update seat (.entry sheet.rowInProgress column) torus.cells.size) =
        (entriesAcross row (sheet.columnsOf row)).map seat :=
    List.map_congr_left fun role member => by
      obtain ⟨y, inRow, rfl⟩ := List.mem_map.mp member
      exact entryKept seat _ fresh inRow
  have columns : (sheet.placeOut column).columnsOf row = _ := sound.columnsOfPlaced fresh row
  rw [columns] at ring
  constructor
  · intro former
    obtain ⟨-, whole⟩ := rowWalked bears.laned sound resting listed former
    refine ⟨_, whole, ?_⟩
    rw [ring, ← old]
    split
    · rename_i here
      subst here
      simp [entriesAcross]
    · simp
  · rintro rfl none
    rw [ring, if_pos rfl, none]
    simp [entriesAcross]

theorem placeGains (bears : torus.Bears sheet) (known : column < torus.columns.size)
    (fresh : column ∉ sheet.columnsOf sheet.rowInProgress) :
    ∃ after, torus.place column = .ok (.placed, after) ∧ torus.Gains column after ∧
      after.Bears (sheet.placeOut column) := by
  obtain ⟨header, listed, last⟩ := bears.presentIff known
  obtain ⟨progress, built⟩ := bears.rowInProgressRead
  have building : ∀ first, torus.current = some first →
      ∃ y, torus.roleAt first = some (.entry torus.rowInProgress y) := by
    obtain ⟨seat, resting, lists⟩ := bears.seatedOutline
    intro first current
    rcases built with ⟨idle, -⟩ | ⟨top, begun, stored⟩
    · cases idle.symm.trans current
    · cases begun.symm.trans current
      rw [progress]
      exact (rowWalked bears.laned bears.drafts.sound resting lists stored).1
  obtain ⟨middle, written, outlined, after, placed, topped, laned, noted⟩ :=
    bears.laned.placeOutline building listed (mt last.mp fresh)
  obtain ⟨held, around⟩ := bears.placedAround known fresh outlined laned noted
  obtain ⟨more, columns, begins, continues⟩ := writtenRead written
  obtain ⟨size, rows, current, edited⟩ :=
    middle.toppedKeeps column torus.rowInProgress header.head torus.cells.size
  rw [← topped] at size rows current edited
  refine ⟨after, placed, ⟨size.trans more, entrySettled placed, columns ▸ edited, ?_, ?_, ?_⟩, held⟩
  · intro first begun
    obtain ⟨kept, same⟩ := continues first begun
    rcases built with ⟨idle, -⟩ | ⟨top, started, stored⟩
    · cases idle.symm.trans begun
    · cases started.symm.trans begun
      obtain ⟨entries, before, now⟩ := (around _ first (by rw [rows, kept, stored])).1 stored
      rw [if_pos rfl] at now
      exact ⟨current.trans same, rows.trans kept, entries, before, now⟩
  · intro idle
    obtain ⟨pushed, same⟩ := begins idle
    rcases built with ⟨-, none, atEnd⟩ | ⟨top, started, -⟩
    · have stored : after.rows[sheet.rowInProgress]? = some torus.cells.size := by
        rw [rows, pushed, atEnd, ← bears.sizesRead.2]
        exact Array.getElem?_push_size
      exact ⟨current.trans same, rows.trans pushed, (around _ _ stored).2 rfl none⟩
    · cases idle.symm.trans started
  · intro row first stored other
    have apart : row ≠ sheet.rowInProgress := by
      rintro rfl
      rcases built with ⟨-, -, atEnd⟩ | ⟨top, started, there⟩
      · have inside := (Array.getElem?_eq_some_iff.mp stored).1
        rw [bears.sizesRead.2, atEnd] at inside
        exact Nat.lt_irrefl _ inside
      · cases there.symm.trans stored
        exact other started
    have still : after.rows[row]? = some first := by
      rw [rows]
      cases begun : torus.current with
      | none =>
        have inside := (Array.getElem?_eq_some_iff.mp stored).1
        rw [(begins begun).1, Array.getElem?_push, if_neg (Nat.ne_of_lt inside), stored]
      | some top => rw [(continues top begun).1, stored]
    obtain ⟨entries, before, now⟩ := (around row first still).1 stored
    rw [now, before, if_neg apart, List.append_nil]

theorem storedRead (bears : torus.Bears sheet) (inside : row < torus.rows.size) :
    torus.storedRow row = .ok (sheet.columnsOf row) := by
  obtain ⟨seat, resting, listed⟩ := bears.seatedOutline
  have found := Array.getElem?_eq_getElem inside
  obtain ⟨-, ring⟩ := rowWalked bears.laned bears.drafts.sound resting listed found
  have columns : ((sheet.columnsOf row).map fun y => seat (.entry row y)).mapM torus.columnOf =
      .ok ((sheet.columnsOf row).map id) := mapMOk fun y member => by
    have entry := resting.seated (.entry row y) member
    rw [outlineRoles] at entry
    exact columnOfEntry entry
  rw [entriesAcross, List.map_map] at ring
  rw [List.map_id] at columns
  simp only [storedRow, firstEntry, found, rowColumns, ring, bind, Except.bind]
  exact columns

theorem editBears (bears : torus.Bears sheet) {edit : Edit} (done : torus.edit edit = .ok after) :
    ∃ sheet', after.Bears sheet' := by
  cases edit with
  | addColumn name isPrimary =>
    obtain ⟨⟨index, torus⟩, adds, same⟩ := bindOk.mp done
    cases same
    exact ⟨_, (bears.addColumn adds).1⟩
  | newRow =>
    cases done
    exact ⟨_, bears.newRow⟩
  | place column =>
    obtain ⟨⟨placement, torus⟩, places, same⟩ := bindOk.mp done
    cases same
    obtain ⟨header, listed, -⟩ := placeCases places
    have known := (Array.getElem?_eq_some_iff.mp listed).1
    by_cases there : column ∈ sheet.columnsOf sheet.rowInProgress
    · cases (bears.placedAgain known there).symm.trans places
      exact ⟨_, bears⟩
    · obtain ⟨after, placed, -, held⟩ := bears.placeGains known there
      cases placed.symm.trans places
      exact ⟨_, held⟩
  | disableRow row =>
    obtain ⟨⟨isChanged, torus⟩, turns, same⟩ := bindOk.mp done
    cases same
    exact ⟨_, bears.bearsShifted (bears.laned.disableRowShifts turns)⟩
  | enableRow row =>
    obtain ⟨⟨isChanged, torus⟩, turns, same⟩ := bindOk.mp done
    cases same
    exact ⟨_, bears.bearsShifted (bears.laned.enableRowShifts turns)⟩

theorem editsEach (bears : torus.Bears sheet) {edits : List Edit}
    (done : edits.foldlM Torus.edit torus = .ok after) : ∃ sheet', after.Bears sheet' := by
  induction edits generalizing torus sheet with
  | nil =>
    cases done
    exact ⟨sheet, bears⟩
  | cons edit rest ih =>
    rw [List.foldlM_cons] at done
    obtain ⟨middle, first, later⟩ := bindOk.mp done
    obtain ⟨sheet', held⟩ := bears.editBears first
    exact ih held later

end Bears

end Torus

theorem repeatsAreMet {edits : List Edit} {torus : Torus} (done : edits.foldlM Torus.edit .empty = .ok torus) :
    (∀ column < torus.columns.size,
      (∀ row after, torus.place column = .ok (.alreadyPresent row, after) ↔
        torus.Meets row column ∧ after = torus) ∧
      ((∀ row, ¬ torus.Meets row column) →
        ∃ after, torus.place column = .ok (.placed, after) ∧ torus.Gains column after)) ∧
    ∀ row < torus.rows.size, ∃ columns, torus.storedRow row = .ok columns ∧ columns.Nodup := by
  obtain ⟨sheet, bears⟩ := Torus.Bears.ofEmpty.editsEach done
  constructor
  · intro column known
    by_cases there : column ∈ sheet.columnsOf sheet.rowInProgress
    · have again := bears.placedAgain known there
      refine ⟨fun row after => ?_, fun never => absurd (bears.meetsIff.mpr ⟨rfl, there⟩) (never _)⟩
      rw [again, bears.meetsIff]
      constructor
      · intro same
        cases same
        exact ⟨⟨rfl, there⟩, rfl⟩
      · rintro ⟨⟨rfl, -⟩, rfl⟩
        rfl
    · obtain ⟨after, placed, gains, -⟩ := bears.placeGains known there
      refine ⟨fun row other => ?_, fun _ => ⟨after, placed, gains⟩⟩
      rw [placed, bears.meetsIff]
      exact ⟨nofun, fun met => absurd met.1.2 there⟩
  · exact fun row inside => ⟨_, bears.storedRead inside, bears.drafts.sound.distinct row⟩

def Edit.hasty : List Edit :=
  [.addColumn "a" true, .newRow, .place 0, .disableRow 0, .addColumn "b" false, .place 1, .place 0,
    .enableRow 0]

theorem hastyMet : ∃ torus, Edit.hasty.foldlM Torus.edit .empty = .ok torus ∧
    (∀ column < torus.columns.size,
      (∀ row after, torus.place column = .ok (.alreadyPresent row, after) ↔
        torus.Meets row column ∧ after = torus) ∧
      ((∀ row, ¬ torus.Meets row column) →
        ∃ after, torus.place column = .ok (.placed, after) ∧ torus.Gains column after)) ∧
    ∀ row < torus.rows.size, ∃ columns, torus.storedRow row = .ok columns ∧ columns.Nodup := by
  have done : Edit.hasty.foldlM Torus.edit .empty = .ok _ := rfl
  exact ⟨_, done, repeatsAreMet done⟩

end DancingLinks
