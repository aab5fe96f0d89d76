import DancingLinks.Proofs.SiteRoles
import DancingLinks.Proofs.LinkLanes
import DancingLinks.Proofs.RejectedCalls

/-! What no torn column can spoil. Along either axis every site leads to a site of its own lane, whatever
rows were taken out of play, put back or made longer, and whatever columns were covered meanwhile. So
links between the entries of a row are pointed elsewhere only when an entry is placed in that row. The
outline of an arena has these links, the heads and what the columns were told, and nothing else; it holds
a sheet without primary columns and without a row in play. -/
namespace DancingLinks
open Function (update)

def Cell.outline (site : Site) (cell : Cell) : Cell :=
  match cell.role with
  | .entry _ _ => cell.laid site
  | _ => .alone site cell.role

namespace Torus

/-- Every cell is alone but for the links of entries across; every column is secondary and counts none. -/
def outline (torus : Torus) : Torus :=
  { torus with
    cells := torus.cells.mapIdx Cell.outline
    columns := torus.columns.map fun column => { column with size := 0, isPrimary := false }
    removals := 0 }

def Abreast (torus : Torus) (direction : Direction) (site target : Site) : Prop :=
  ∃ role other, torus.roleAt site = some role ∧ torus.roleAt target = some other ∧
    role.lane direction = other.lane direction

structure Laned (torus : Torus) : Prop where
  root : torus.roleAt root = some .root
  heads : ∀ (column : Nat) (header : Column), torus.columns[column]? = some header →
    torus.roleAt header.head = some (.head column)
  leads : ∀ site role, torus.roleAt site = some role → ∀ direction,
    torus.Abreast direction site (torus.link direction site)

structure Shifts (before after : Torus) : Prop where
  laned : after.Laned
  outline : after.outline = before.outline

variable {torus middle after : Torus} {site target anchor first second firstTarget secondTarget : Site}
  {direction : Direction} {role : Role} {row column index : Nat} {name : String} {isPrimary : Bool}

theorem cellOutline (torus : Torus) (site : Site) :
    torus.outline.cells[site]? = torus.cells[site]?.map (Cell.outline site) := by
  simp [outline]

theorem outlineRoles (torus : Torus) : torus.outline.roleAt = torus.roleAt := by
  funext s
  simp only [roleAt, cellOutline, Option.map_map]
  cases torus.cells[s]? with
  | none => rfl
  | some cell =>
    simp only [Option.map_some, Function.comp_apply, Cell.outline]
    split <;> rfl

theorem outlineLaid (torus : Torus) : torus.laid.outline = torus.outline := by
  have cells : torus.laid.outline.cells = torus.outline.cells := by
    refine Array.ext_getElem? fun s => ?_
    rw [cellOutline, cellOutline, cellLaid, Option.map_map]
    rfl
  have columns : torus.laid.outline.columns = torus.outline.columns := by
    simp [outline, laid, Function.comp_def]
  simp only [outline, Torus.mk.injEq, and_true] at cells columns ⊢
  exact ⟨cells, columns, rfl, rfl⟩

theorem outlineAside (same : after.laid = torus.laid) : after.outline = torus.outline := by
  rw [← outlineLaid after, same, outlineLaid]

theorem outlineTwice (torus : Torus) : torus.outline.laid = torus.outline := by
  have cells : torus.outline.laid.cells = torus.outline.cells := by
    refine Array.ext_getElem? fun s => ?_
    rw [cellLaid, cellOutline, Option.map_map]
    refine congrArg (torus.cells[s]?.map ·) (funext fun cell => ?_)
    simp only [Function.comp_apply, Cell.outline]
    split <;> rfl
  have columns : torus.outline.laid.columns = torus.outline.columns := by
    simp [outline, laid, Function.comp_def]
  simp only [outline, laid, Torus.mk.injEq, and_true] at cells columns ⊢
  exact ⟨cells, columns⟩

theorem linkOutline (entry : torus.roleAt site = some (.entry row column))
    (across : direction.isAcross = true) : torus.outline.link direction site = torus.link direction site := by
  obtain ⟨cell, present, kind⟩ := cellOfRole entry
  simp only [link, cellOutline, present, Option.map_some, Option.getD_some, Cell.outline, kind]
  cases direction <;> first | rfl | cases across

theorem pointedOutline (entry : torus.roleAt site = some (.entry row column))
    (across : direction.isAcross = true) (target : Site) :
    torus.outline.pointed site direction target = (torus.pointed site direction target).outline := by
  obtain ⟨cell, present, kind⟩ := cellOfRole entry
  simp only [outline, pointed, Torus.mk.injEq, and_true]
  refine Array.ext_getElem? fun s => ?_
  simp only [Array.getElem?_modify, Array.getElem?_mapIdx]
  split
  · rename_i same
    subst same
    simp only [present, Option.map_some, Cell.outline, kind, Cell.roleTurned]
    cases direction <;> first | rfl | cases across
  · rfl

theorem pointedAside (aside : ∀ role, torus.roleAt site = some role → ∀ row,
    role.lane direction ≠ some (.row row)) (target : Site) :
    (torus.pointed site direction target).outline = torus.outline := by
  simp only [outline, pointed, Torus.mk.injEq, and_true]
  refine Array.ext_getElem? fun s => ?_
  simp only [Array.getElem?_modify, Array.getElem?_mapIdx]
  split
  · rename_i same
    subst same
    cases present : torus.cells[site]? with
    | none => rfl
    | some cell =>
      have clear := aside cell.role (by simp [roleAt, present])
      simp only [Option.map_some, Cell.outline, Cell.roleTurned]
      split
      · rename_i row column kind
        rw [kind] at clear
        cases direction <;> first | rfl | exact absurd rfl (clear row)
      · rfl
  · rfl

theorem notedOutline (torus : Torus) (column row : Nat) :
    (torus.noted column row).outline = torus.outline.noted column row := by
  simp only [outline, noted, editColumn, Torus.mk.injEq, true_and, and_true]
  refine Array.ext_getElem? fun index => ?_
  simp only [Array.getElem?_map, Array.getElem?_modify]
  split
  · cases torus.columns[index]? <;> rfl
  · rfl

theorem settleOutline (torus : Torus) (role : Role) :
    torus.outline.settle role = ((torus.settle role).1, (torus.settle role).2.outline) := by
  have size : torus.outline.cells.size = torus.cells.size := by simp [outline]
  have alone : Cell.outline torus.cells.size (.alone torus.cells.size role) =
    .alone torus.cells.size role := by
    cases role <;> rfl
  simp only [settle, size, Prod.mk.injEq, true_and]
  simp only [outline, Torus.mk.injEq, and_true]
  refine Array.ext_getElem? fun s => ?_
  simp only [Array.getElem?_push, Array.getElem?_mapIdx, Array.size_mapIdx]
  split
  · rename_i last
    rw [last, Option.map_some, alone]
  · rfl

namespace Abreast

theorem symm (abreast : torus.Abreast direction site target) : torus.Abreast direction target site := by
  obtain ⟨role, other, here, there, same⟩ := abreast
  exact ⟨other, role, there, here, same.symm⟩

theorem trans (abreast : torus.Abreast direction first second)
    (next : torus.Abreast direction second site) : torus.Abreast direction first site := by
  obtain ⟨role, other, here, middle, same⟩ := abreast
  obtain ⟨twin, last, again, there, onward⟩ := next
  cases middle.symm.trans again
  exact ⟨role, last, here, there, same.trans onward⟩

theorem opposite (abreast : torus.Abreast direction site target) :
    torus.Abreast direction.opposite site target := by
  obtain ⟨role, other, here, there, same⟩ := abreast
  refine ⟨role, other, here, there, ?_⟩
  rwa [Role.laneOpposite, Role.laneOpposite]

theorem abreastMoved (abreast : torus.Abreast direction site target) (roles : after.roleAt = torus.roleAt) :
    after.Abreast direction site target := by
  rwa [Abreast, roles]

theorem abreastSelf (found : torus.roleAt site = some role) : torus.Abreast direction site site :=
  ⟨role, role, found, found, rfl⟩

theorem clearOfRows (abreast : torus.Abreast direction site target) (found : torus.roleAt site = some role)
    (aside : ∀ row, role.lane direction ≠ some (.row row)) :
    ∀ kind, torus.roleAt target = some kind → ∀ row, kind.lane direction ≠ some (.row row) := by
  intro kind seated row
  obtain ⟨own, twin, present, known, same⟩ := abreast
  cases found.symm.trans present
  cases seated.symm.trans known
  exact same ▸ aside row

theorem clearBack (abreast : torus.Abreast direction site target) (found : torus.roleAt site = some role)
    (aside : ∀ row, role.lane direction ≠ some (.row row)) :
    ∀ kind, torus.roleAt target = some kind → ∀ row, kind.lane direction.opposite ≠ some (.row row) := by
  intro kind seated row
  rw [Role.laneOpposite]
  exact abreast.clearOfRows found aside kind seated row

end Abreast

theorem uprightAside {role : Role} (upright : direction.isAcross = false) (row : Nat) :
    role.lane direction ≠ some (.row row) := by
  cases role <;> simp [Role.lane, upright]

theorem headsAside (column row : Nat) : (Role.head column).lane .right ≠ some (.row row) := by
  simp [Role.lane, Direction.isAcross]

theorem cellKnown {cell : Cell} (read : torus.cell site = .ok cell) :
    ∃ role, torus.roleAt site = some role ∧ cell = ⟨torus.link .left site, torus.link .right site,
      torus.link .up site, torus.link .down site, role⟩ := by
  have found : torus.roleAt site = some cell.role := by
    unfold Torus.cell at read
    split at read
    · rename_i present
      cases read
      rw [roleAt, present]
      rfl
    · cases read
  exact ⟨cell.role, found, Except.ok.inj (read.symm.trans (cellRead found))⟩

theorem laneOfColumn (read : torus.columnOf site = .ok column) :
    ∃ role, torus.roleAt site = some role ∧ role.lane .down = some (.column column) := by
  obtain ⟨cell, present, kind⟩ := bindOk.mp read
  obtain ⟨role, found, rfl⟩ := cellKnown present
  refine ⟨role, found, ?_⟩
  cases role with
  | root => cases kind
  | head y =>
    cases kind
    rfl
  | entry r y =>
    cases kind
    rfl

namespace Laned

theorem leadsBack (laned : torus.Laned) (found : torus.roleAt site = some role) (direction : Direction) :
    torus.Abreast direction site (torus.link direction.opposite site) := by
  have back := (laned.leads site role found direction.opposite).opposite
  rwa [Direction.oppositeTwice] at back

theorem linkInside (laned : torus.Laned) (found : torus.roleAt site = some role) (direction : Direction) :
    torus.link direction site < torus.cells.size := by
  obtain ⟨-, other, -, there, -⟩ := laned.leads site role found direction
  exact roleInside there

theorem pointedLaned (laned : torus.Laned) (abreast : torus.Abreast direction site target) :
    (torus.pointed site direction target).Laned where
  root := by rw [rolePointed, laned.root]
  heads column header listed := by rw [rolePointed, laned.heads column header listed]
  leads s role found d := by
    obtain ⟨own, -, present, -⟩ := id abreast
    rw [rolePointed] at found
    have former := (laned.leads s role found d).abreastMoved (rolePointed torus site direction target)
    by_cases axis : direction = d
    · subst axis
      rw [linkPointed (roleInside present), Function.update_apply]
      split
      · rename_i same
        subst same
        exact abreast.abreastMoved (rolePointed ..)
      · exact former
    · rwa [linkPointedAside axis]

theorem pointsTo (laned : torus.Laned) (abreast : torus.Abreast direction site target)
    (aside : ∀ role, torus.roleAt site = some role → ∀ row, role.lane direction ≠ some (.row row))
    (done : torus.point site direction target = .ok after) : torus.Shifts after := by
  rw [pointRead done]
  exact ⟨laned.pointedLaned abreast, pointedAside aside target⟩

theorem editedLaned (laned : torus.Laned) (index : Nat) (edit : Column → Column)
    (kept : ∀ header, (edit header).head = header.head) : (torus.editColumn index edit).Laned where
  root := laned.root
  heads column header listed := by
    simp only [editColumn, Array.getElem?_modify] at listed
    split at listed
    · obtain ⟨former, there, rfl⟩ := Option.map_eq_some_iff.mp listed
      rw [kept]
      exact laned.heads column former there
    · exact laned.heads column header listed
  leads := laned.leads

theorem withRemovals (laned : torus.Laned) (count : Nat) : torus.Shifts (torus.withRemovals count) :=
  ⟨⟨laned.root, laned.heads, laned.leads⟩, rfl⟩

theorem growShifts (laned : torus.Laned) (done : torus.grow column = .ok after) : torus.Shifts after := by
  refine ⟨?_, outlineAside (growAside done)⟩
  unfold grow at done
  split at done
  · cases done
    exact laned.editedLaned column (fun c => { c with size := c.size + 1 }) fun _ => rfl
  · cases done

theorem shrinkShifts (laned : torus.Laned) (done : torus.shrink column = .ok after) : torus.Shifts after := by
  refine ⟨?_, outlineAside (shrinkAside done)⟩
  obtain ⟨header, -, done⟩ := bindOk.mp done
  split at done
  · cases done
  · cases done
    exact laned.editedLaned column (fun c => { c with size := c.size - 1 }) fun _ => rfl

end Laned

namespace Shifts

theorem refl (laned : torus.Laned) : torus.Shifts torus := ⟨laned, rfl⟩

theorem trans (shifts : torus.Shifts middle) (later : middle.Shifts after) : torus.Shifts after :=
  ⟨later.laned, later.outline.trans shifts.outline⟩

theorem rolesKept (shifts : torus.Shifts after) : after.roleAt = torus.roleAt := by
  rw [← outlineRoles after, shifts.outline, outlineRoles]

theorem eachShifts {α : Type} {step : Torus → α → Except Fault Torus} {items : List α}
    (steps : ∀ {torus item after}, torus.Laned → step torus item = .ok after → torus.Shifts after)
    (laned : torus.Laned) (done : items.foldlM step torus = .ok after) : torus.Shifts after := by
  induction items generalizing torus with
  | nil =>
    cases done
    exact .refl laned
  | cons item rest ih =>
    rw [List.foldlM_cons] at done
    obtain ⟨middle, now, later⟩ := bindOk.mp done
    have shifts := steps laned now
    exact shifts.trans (ih shifts.laned later)

end Shifts

namespace Laned

theorem rejoinShifts (laned : torus.Laned) (found : torus.roleAt site = some role)
    (aside : ∀ row, role.lane direction ≠ some (.row row))
    (here : torus.Abreast direction site first) (onward : torus.Abreast direction site firstTarget)
    (there : torus.Abreast direction site second) (back : torus.Abreast direction site secondTarget)
    (points : torus.point first direction firstTarget = .ok middle)
    (closes : middle.point second direction.opposite secondTarget = .ok after) : torus.Shifts after := by
  have once := laned.pointsTo (here.symm.trans onward) (here.clearOfRows found aside) points
  refine once.trans (once.laned.pointsTo ((there.symm.trans back).opposite.abreastMoved once.rolesKept)
    ?_ closes)
  rw [once.rolesKept]
  exact there.clearBack found aside

theorem unhookShifts (laned : torus.Laned) (done : torus.unhook site = .ok after) : torus.Shifts after := by
  obtain ⟨cell, read, done⟩ := bindOk.mp done
  obtain ⟨role, found, rfl⟩ := cellKnown read
  obtain ⟨column, -, done⟩ := bindOk.mp done
  obtain ⟨joined, points, done⟩ := bindOk.mp done
  obtain ⟨closed, closes, shrinks⟩ := bindOk.mp done
  have below := laned.leads site _ found .down
  have above := laned.leadsBack found .down
  have links := laned.rejoinShifts found (uprightAside rfl) above below below above points closes
  exact links.trans (links.laned.shrinkShifts shrinks)

theorem detachShifts (laned : torus.Laned) (done : torus.detach site = .ok after) : torus.Shifts after := by
  obtain ⟨unhooked, unhooks, same⟩ := bindOk.mp done
  cases same
  have links := laned.unhookShifts unhooks
  exact links.trans (links.laned.withRemovals _)

theorem reattachShifts (laned : torus.Laned) (done : torus.reattach site = .ok after) :
    torus.Shifts after := by
  obtain ⟨cell, read, done⟩ := bindOk.mp done
  obtain ⟨role, found, rfl⟩ := cellKnown read
  obtain ⟨column, -, done⟩ := bindOk.mp done
  obtain ⟨joined, points, done⟩ := bindOk.mp done
  obtain ⟨closed, closes, grows⟩ := bindOk.mp done
  have links := laned.rejoinShifts found (uprightAside rfl) (laned.leadsBack found .down) (.abreastSelf found)
    (laned.leads site _ found .down) (.abreastSelf found) points closes
  exact links.trans (links.laned.growShifts grows)

theorem headRole (laned : torus.Laned) {head : Site} (top : torus.headOf column = .ok head) :
    torus.roleAt head = some (.head column) := by
  obtain ⟨header, read, same⟩ := bindOk.mp top
  cases same
  unfold Torus.column at read
  split at read
  · rename_i listed
    cases read
    exact laned.heads column _ listed
  · cases read

theorem closeHeadShifts (laned : torus.Laned) (found : torus.roleAt site = some (.head column))
    (done : torus.closeHead site = .ok after) : torus.Shifts after := by
  obtain ⟨cell, read, done⟩ := bindOk.mp done
  cases (cellRead found).symm.trans read
  obtain ⟨joined, points, done⟩ := bindOk.mp done
  obtain ⟨closed, closes, same⟩ := bindOk.mp done
  cases same
  have beyond := laned.leads site _ found .right
  have before := laned.leadsBack found .right
  have links := laned.rejoinShifts found (headsAside column) before beyond beyond before points closes
  exact links.trans (links.laned.withRemovals _)

theorem reopenHeadShifts (laned : torus.Laned) (found : torus.roleAt site = some (.head column))
    (done : torus.reopenHead site = .ok after) : torus.Shifts after := by
  obtain ⟨cell, read, done⟩ := bindOk.mp done
  cases (cellRead found).symm.trans read
  obtain ⟨joined, points, closes⟩ := bindOk.mp done
  exact laned.rejoinShifts found (headsAside column) (laned.leadsBack found .right) (.abreastSelf found)
    (laned.leads site _ found .right) (.abreastSelf found) points closes

theorem coverShifts (laned : torus.Laned) (done : torus.cover column = .ok after) : torus.Shifts after := by
  obtain ⟨head, top, done⟩ := bindOk.mp done
  obtain ⟨shut, closes, done⟩ := bindOk.mp done
  obtain ⟨entries, -, detaches⟩ := bindOk.mp done
  have closing := laned.closeHeadShifts (laned.headRole top) closes
  exact closing.trans (.eachShifts Laned.detachShifts closing.laned detaches)

theorem uncoverShifts (laned : torus.Laned) (done : torus.uncover column = .ok after) :
    torus.Shifts after := by
  obtain ⟨head, top, done⟩ := bindOk.mp done
  obtain ⟨entries, -, done⟩ := bindOk.mp done
  obtain ⟨back, reattaches, reopens⟩ := bindOk.mp done
  have put := Shifts.eachShifts Laned.reattachShifts laned reattaches
  exact put.trans (put.laned.reopenHeadShifts (put.rolesKept ▸ laned.headRole top) reopens)

theorem coverRowShifts (laned : torus.Laned) (done : torus.coverRow site = .ok after) :
    torus.Shifts after := by
  obtain ⟨others, -, done⟩ := bindOk.mp done
  refine Shifts.eachShifts (fun laned done => ?_) laned done
  obtain ⟨column, -, done⟩ := bindOk.mp done
  exact laned.coverShifts done

theorem uncoverRowShifts (laned : torus.Laned) (done : torus.uncoverRow site = .ok after) :
    torus.Shifts after := by
  obtain ⟨others, -, done⟩ := bindOk.mp done
  refine Shifts.eachShifts (fun laned done => ?_) laned done
  obtain ⟨column, -, done⟩ := bindOk.mp done
  exact laned.uncoverShifts done

theorem disableEntryShifts (laned : torus.Laned) (done : torus.disableEntry site = .ok after) :
    torus.Shifts after := by
  obtain ⟨unhooked, unhooks, done⟩ := bindOk.mp done
  obtain ⟨lifted, above, below⟩ := bindOk.mp done
  obtain ⟨cell, read, -⟩ := bindOk.mp unhooks
  obtain ⟨role, found, -⟩ := cellKnown read
  have off := laned.unhookShifts unhooks
  rw [← off.rolesKept] at found
  have up := off.laned.pointsTo (.abreastSelf found) (fun _ _ => uprightAside rfl) above
  exact off.trans (up.trans (up.laned.pointsTo (.abreastSelf (up.rolesKept ▸ found))
    (fun _ _ => uprightAside rfl) below))

theorem insertedLaned (laned : torus.Laned) (abreast : torus.Abreast direction anchor site) :
    (torus.insertedBeside anchor direction site).Laned := by
  obtain ⟨own, -, found, -⟩ := id abreast
  have next := laned.leads anchor own found direction
  have roles : ∀ {torus : Torus} {site direction target}, (torus.pointed site direction target).roleAt =
      torus.roleAt := rolePointed ..
  have onward := laned.pointedLaned (abreast.symm.trans next)
  have behind := onward.pointedLaned (abreast.symm.opposite.abreastMoved roles)
  have returns := behind.pointedLaned ((next.symm.trans abreast).opposite.abreastMoved (roles.trans roles))
  exact returns.pointedLaned (abreast.abreastMoved (roles.trans (roles.trans roles)))

theorem enableEntryShifts (laned : torus.Laned) (done : torus.enableEntry site = .ok after) :
    torus.Shifts after := by
  refine ⟨?_, outlineAside (enableEntryAside done)⟩
  obtain ⟨column, read, done⟩ := bindOk.mp done
  obtain ⟨head, top, done⟩ := bindOk.mp done
  obtain ⟨joined, inserts, grows⟩ := bindOk.mp done
  obtain ⟨role, found, lane⟩ := laneOfColumn read
  have abreast : torus.Abreast .down head site := ⟨_, role, laned.headRole top, found, lane.symm⟩
  rw [insertBesideRead inserts] at grows
  exact ((laned.insertedLaned abreast).growShifts grows).laned

theorem disableRowShifts {isChanged : Bool} (laned : torus.Laned)
    (done : torus.disableRow row = .ok (isChanged, after)) : torus.Shifts after := by
  obtain ⟨isEnabled, -, done⟩ := bindOk.mp done
  cases isEnabled with
  | false =>
    cases done
    exact .refl laned
  | true =>
    obtain ⟨first, -, done⟩ := bindOk.mp done
    obtain ⟨entries, -, done⟩ := bindOk.mp done
    obtain ⟨last, turns, same⟩ := bindOk.mp done
    cases same
    exact .eachShifts Laned.disableEntryShifts laned turns

theorem enableRowShifts {isChanged : Bool} (laned : torus.Laned)
    (done : torus.enableRow row = .ok (isChanged, after)) : torus.Shifts after := by
  obtain ⟨isEnabled, -, done⟩ := bindOk.mp done
  cases isEnabled with
  | true =>
    cases done
    exact .refl laned
  | false =>
    obtain ⟨first, -, done⟩ := bindOk.mp done
    obtain ⟨entries, -, done⟩ := bindOk.mp done
    obtain ⟨last, turns, same⟩ := bindOk.mp done
    cases same
    exact .eachShifts Laned.enableEntryShifts laned turns

end Laned

end Torus

end DancingLinks
