import DancingLinks.Proofs.OrderlyCovers
import DancingLinks.Proofs.RestingArena

/-! Lanes of an arena: along either axis a link leads from a site to one of the same row, of the same
column, or from the root and the heads to one of them. This holds while rows and columns are taken out
and put back, in whatever order and whether or not the rings are whole, and what is done in one lane
leaves the links of all others as they are. -/
namespace DancingLinks

theorem Direction.oppositeAcross (direction : Direction) :
    direction.opposite.isAcross = direction.isAcross := by cases direction <;> rfl

inductive Lane where
  | heads
  | row (row : Nat)
  | column (column : Nat)

def Role.lane (direction : Direction) : Role → Option Lane
  | .root => if direction.isAcross then some .heads else none
  | .head column => some (if direction.isAcross then .heads else .column column)
  | .entry row column => some (if direction.isAcross then .row row else .column column)

namespace Role

variable {direction : Direction} {role : Role} {row column : Nat}

theorem laneOpposite (direction : Direction) (role : Role) :
    role.lane direction.opposite = role.lane direction := by
  cases role <;> simp only [lane, Direction.oppositeAcross]

theorem inRow (across : direction.isAcross = true) :
    role.lane direction = some (.row row) ↔ ∃ y, role = .entry row y := by
  cases role <;> simp [lane, across]

theorem inColumn (upright : direction.isAcross = false) :
    role.lane direction = some (.column column) ↔
      role = .head column ∨ ∃ r, role = .entry r column := by
  cases role <;> simp [lane, upright]

end Role

def Along (seat : Role → Site) (sheet : Sheet) (direction : Direction) (lane : Lane) (site : Site) : Prop :=
  ∃ role, sheet.Seats role ∧ role.lane direction = some lane ∧ site = seat role

structure Lanes (seat : Role → Site) (sheet : Sheet) (torus : Torus) : Prop where
  seated : ∀ role, sheet.Seats role → torus.roleAt (seat role) = some role
  heads : ∀ column head, torus.headOf column = .ok head →
    sheet.Seats (.head column) ∧ head = seat (.head column)
  leads : ∀ direction lane site, Along seat sheet direction lane site →
    Along seat sheet direction lane (torus.link direction site)

structure Redraws (seat : Role → Site) (sheet : Sheet) (touched : Lane → Prop) (before after : Torus) :
    Prop where
  lanes : Lanes seat sheet after
  size : after.cells.size = before.cells.size
  aside : ∀ direction lane site, Along seat sheet direction lane site → ¬ touched lane →
    after.link direction site = before.link direction site

variable {seat : Role → Site} {sheet : Sheet} {torus before middle after : Torus}
  {touched more : Lane → Prop} {role : Role} {direction : Direction} {lane : Lane}
  {site target first second firstTarget secondTarget : Site} {row column : Nat}

theorem Along.opposite (along : Along seat sheet direction lane site) :
    Along seat sheet direction.opposite lane site := by
  obtain ⟨role, present, here, same⟩ := along
  exact ⟨role, present, (Role.laneOpposite direction role).trans here, same⟩

namespace Redraws

theorem refl (lanes : Lanes seat sheet torus) (touched : Lane → Prop) :
    Redraws seat sheet touched torus torus := ⟨lanes, rfl, fun _ _ _ _ _ => rfl⟩

theorem trans (first : Redraws seat sheet touched before middle)
    (second : Redraws seat sheet touched middle after) : Redraws seat sheet touched before after where
  lanes := second.lanes
  size := second.size.trans first.size
  aside direction lane site along clear :=
    (second.aside direction lane site along clear).trans (first.aside direction lane site along clear)

theorem mono (redraws : Redraws seat sheet touched before after) (within : ∀ lane, touched lane → more lane) :
    Redraws seat sheet more before after where
  lanes := redraws.lanes
  size := redraws.size
  aside direction lane site along clear :=
    redraws.aside direction lane site along fun hit => clear (within lane hit)

end Redraws

namespace Lanes

theorem followRead (lanes : Lanes seat sheet torus) (along : Along seat sheet direction lane site)
    (direction' : Direction) : torus.follow site direction' = .ok (torus.link direction' site) := by
  obtain ⟨role, present, -, rfl⟩ := along
  exact Torus.followRead (lanes.seated role present) direction'

theorem laneUnique (lanes : Lanes seat sheet torus) {other : Lane}
    (along : Along seat sheet direction lane site)
    (there : Along seat sheet direction other site) : lane = other := by
  obtain ⟨role, present, here, rfl⟩ := along
  obtain ⟨twin, seated, inOther, same⟩ := there
  obtain rfl := Torus.seatApart (lanes.seated role present) (lanes.seated twin seated) same
  exact Option.some.inj (here.symm.trans inOther)

theorem headsRedraw (lanes : Lanes seat sheet torus) (heads : after.headOf = torus.headOf)
    (cells : after.cells = torus.cells) (touched : Lane → Prop) :
    Redraws seat sheet touched torus after where
  lanes :=
    { seated := Torus.roleCells cells ▸ lanes.seated
      heads := heads ▸ lanes.heads
      leads := by simpa only [Torus.linkCells cells] using lanes.leads }
  size := congrArg Array.size cells
  aside direction _ site _ _ := congrFun (Torus.linkCells cells direction) site

theorem countRedraws (lanes : Lanes seat sheet torus) (touched : Lane → Prop) :
    Redraws seat sheet touched torus torus.countRemoval :=
  have heads : torus.countRemoval.headOf = torus.headOf := rfl
  lanes.headsRedraw heads rfl touched

theorem withRemovals (lanes : Lanes seat sheet torus) (count : Nat) :
    Lanes seat sheet (torus.withRemovals count) := ⟨lanes.seated, lanes.heads, lanes.leads⟩

theorem editRedraws (lanes : Lanes seat sheet torus) (index : Nat) (edit : Column → Column)
    (kept : ∀ header, (edit header).head = header.head) (touched : Lane → Prop) :
    Redraws seat sheet touched torus (torus.editColumn index edit) := by
  have heads : (torus.editColumn index edit).headOf = torus.headOf := by
    funext column
    simp only [Torus.headOf, Torus.column, Torus.editColumn, Array.getElem?_modify]
    by_cases same : index = column
    · rw [if_pos same]
      cases torus.columns[column]? with
      | none => rfl
      | some header => exact congrArg Except.ok (kept header)
    · rw [if_neg same]
  exact lanes.headsRedraw heads rfl touched

theorem growRedraws (lanes : Lanes seat sheet torus) (done : torus.grow column = .ok after)
    (touched : Lane → Prop) : Redraws seat sheet touched torus after := by
  unfold Torus.grow at done
  split at done
  · cases done
    exact lanes.editRedraws column (fun c => { c with size := c.size + 1 }) (fun _ => rfl) touched
  · cases done

theorem shrinkRedraws (lanes : Lanes seat sheet torus) (done : torus.shrink column = .ok after)
    (touched : Lane → Prop) : Redraws seat sheet touched torus after := by
  obtain ⟨header, -, done⟩ := bindOk.mp done
  split at done
  · cases done
  · cases done
    exact lanes.editRedraws column (fun c => { c with size := c.size - 1 }) (fun _ => rfl) touched

theorem pointRedraws (lanes : Lanes seat sheet torus) (here : Along seat sheet direction lane site)
    (there : Along seat sheet direction lane target)
    (done : torus.point site direction target = .ok after) :
    Redraws seat sheet (· = lane) torus after := by
  have inside : site < torus.cells.size := by
    obtain ⟨role, present, -, rfl⟩ := here
    exact Torus.roleInside (lanes.seated role present)
  obtain rfl := Torus.pointRead done
  have moved : ∀ d s, (torus.pointed site direction target).link d s =
      if d = direction ∧ s = site then target else torus.link d s := by
    intro d s
    by_cases axis : direction = d
    · subst axis
      rw [Torus.linkPointed inside, Function.update_apply]
      simp only [true_and]
    · rw [Torus.linkPointedAside axis, if_neg fun hit => axis hit.1.symm]
  refine ⟨⟨fun role present => ?_, lanes.heads, fun d l s along => ?_⟩, ?_, fun d l s along clear => ?_⟩
  · rw [Torus.rolePointed]
    exact lanes.seated role present
  · rw [moved]
    split
    · rename_i hit
      obtain ⟨rfl, rfl⟩ := hit
      exact lanes.laneUnique here along ▸ there
    · exact lanes.leads d l s along
  · simp [Torus.pointed]
  · rw [moved, if_neg]
    rintro ⟨rfl, rfl⟩
    exact clear (lanes.laneUnique along here)

theorem rejoinRedraws (lanes : Lanes seat sheet torus) (here : Along seat sheet direction lane first)
    (onward : Along seat sheet direction lane firstTarget) (there : Along seat sheet direction lane second)
    (back : Along seat sheet direction lane secondTarget)
    (points : torus.point first direction firstTarget = .ok middle)
    (closes : middle.point second direction.opposite secondTarget = .ok after) :
    Redraws seat sheet (· = lane) torus after :=
  have once := lanes.pointRedraws here onward points
  once.trans (once.lanes.pointRedraws there.opposite back.opposite closes)

theorem leadsBack (lanes : Lanes seat sheet torus) (along : Along seat sheet direction lane site) :
    Along seat sheet direction lane (torus.link direction.opposite site) := by
  have back := (lanes.leads _ _ _ along.opposite).opposite
  rwa [Direction.oppositeTwice] at back

theorem alongColumn (member : column ∈ sheet.columnsOf row) :
    Along seat sheet .down (.column column) (seat (.entry row column)) :=
  ⟨.entry row column, member, rfl, rfl⟩

theorem alongHeads (known : sheet.Seats (.head column)) :
    Along seat sheet .right .heads (seat (.head column)) := ⟨.head column, known, rfl, rfl⟩

theorem detachRedraws (lanes : Lanes seat sheet torus) (member : column ∈ sheet.columnsOf row)
    (done : torus.detach (seat (.entry row column)) = .ok after) :
    Redraws seat sheet (· = .column column) torus after := by
  have below := lanes.leads _ _ _ (alongColumn member)
  have above := lanes.leadsBack (alongColumn member)
  obtain ⟨unhooked, unhooks, same⟩ := bindOk.mp done
  obtain ⟨cell, read, unhooks⟩ := bindOk.mp unhooks
  cases (Torus.cellRead (lanes.seated (.entry row column) member)).symm.trans read
  obtain ⟨index, -, unhooks⟩ := bindOk.mp unhooks
  obtain ⟨joined, points, unhooks⟩ := bindOk.mp unhooks
  obtain ⟨closed, closes, shrinks⟩ := bindOk.mp unhooks
  cases same
  have links := lanes.rejoinRedraws above below below above points closes
  have counted := links.trans (links.lanes.shrinkRedraws shrinks _)
  exact counted.trans (counted.lanes.countRedraws _)

theorem reattachRedraws (lanes : Lanes seat sheet torus) (member : column ∈ sheet.columnsOf row)
    (done : torus.reattach (seat (.entry row column)) = .ok after) :
    Redraws seat sheet (· = .column column) torus after := by
  have here : Along seat sheet .down (.column column) (seat (.entry row column)) := alongColumn member
  have below := lanes.leads _ _ _ here
  have above := lanes.leadsBack here
  obtain ⟨cell, read, done⟩ := bindOk.mp done
  cases (Torus.cellRead (lanes.seated (.entry row column) member)).symm.trans read
  obtain ⟨index, -, done⟩ := bindOk.mp done
  obtain ⟨joined, points, done⟩ := bindOk.mp done
  obtain ⟨closed, closes, grows⟩ := bindOk.mp done
  have links := lanes.rejoinRedraws above here below here points closes
  exact links.trans (links.lanes.growRedraws grows _)

theorem closesHead (lanes : Lanes seat sheet torus) (known : sheet.Seats (.head column))
    (done : torus.closeHead (seat (.head column)) = .ok after) :
    Redraws seat sheet (· = .heads) torus after := by
  have beyond := lanes.leads _ _ _ (alongHeads known)
  have before := lanes.leadsBack (alongHeads known)
  obtain ⟨cell, read, done⟩ := bindOk.mp done
  cases (Torus.cellRead (lanes.seated (.head column) known)).symm.trans read
  obtain ⟨joined, points, done⟩ := bindOk.mp done
  obtain ⟨closed, closes, same⟩ := bindOk.mp done
  cases same
  have links := lanes.rejoinRedraws before beyond beyond before points closes
  exact links.trans (links.lanes.countRedraws _)

theorem reopensHead (lanes : Lanes seat sheet torus) (known : sheet.Seats (.head column))
    (done : torus.reopenHead (seat (.head column)) = .ok after) :
    Redraws seat sheet (· = .heads) torus after := by
  have here : Along seat sheet .right .heads (seat (.head column)) := alongHeads known
  have beyond := lanes.leads _ _ _ here
  have before := lanes.leadsBack here
  obtain ⟨cell, read, done⟩ := bindOk.mp done
  cases (Torus.cellRead (lanes.seated (.head column) known)).symm.trans read
  obtain ⟨joined, points, closes⟩ := bindOk.mp done
  exact lanes.rejoinRedraws before here beyond here points closes

end Lanes

theorem Torus.Circle.leadsOn {start : Role} {others : List Role}
    (circle : torus.Circle seat direction start others) (here : role ∈ start :: others)
    (inside : ∀ other ∈ start :: others, sheet.Seats other ∧ other.lane direction = some lane) :
    Along seat sheet direction lane (torus.link direction (seat role)) ∧
      Along seat sheet direction lane (torus.link direction.opposite (seat role)) := by
  obtain ⟨next, there, onward⟩ := List.mem_map.mp (circle.linkMember here)
  obtain ⟨last, behind, back⟩ := List.mem_map.mp (circle.backMember here)
  exact ⟨⟨next, (inside next there).1, (inside next there).2, onward.symm⟩,
    ⟨last, (inside last behind).1, (inside last behind).2, back.symm⟩⟩

namespace Resting

variable {roster : Roster}

theorem leadsAcross (resting : Resting seat sheet roster torus) (sound : sheet.Sound)
    (remains : roster.Remains sheet []) (present : sheet.Seats role) (here : role.lane .right = some lane) :
    Along seat sheet .right lane (torus.link .right (seat role)) ∧
      Along seat sheet .right lane (torus.link .left (seat role)) := by
  have heads : ∀ other ∈ Role.root :: roster.pending.map Role.head,
      sheet.Seats other ∧ other.lane .right = some .heads := by
    intro other member
    refine ⟨Woven.headsPresent remains other member, ?_⟩
    rcases List.mem_cons.mp member with rfl | member
    · rfl
    · obtain ⟨y, -, rfl⟩ := List.mem_map.mp member
      rfl
  cases role with
  | root =>
    cases here
    exact (resting.openCircle remains).leadsOn List.mem_cons_self heads
  | head column =>
    cases here
    cases primary : sheet.isPrimary column with
    | true =>
      have pending := remains.memPending.mpr ⟨Sheet.memPrimaries.mpr ⟨present, primary⟩, List.not_mem_nil⟩
      exact (resting.openCircle remains).leadsOn
        (List.mem_cons_of_mem _ (List.mem_map_of_mem pending)) heads
    | false =>
      exact (resting.asideCircle present primary).leadsOn List.mem_cons_self
        (List.forall_mem_singleton.mpr ⟨present, rfl⟩)
  | entry row column =>
    cases here
    refine (resting.rowCircle sound present).leadsOn List.mem_cons_self fun other member => ?_
    refine ⟨Woven.rowPresent sound present other member, ?_⟩
    rcases List.mem_cons.mp member with rfl | member
    · rfl
    · obtain ⟨y, -, rfl⟩ := List.mem_map.mp member
      rfl

theorem leadsUpright (resting : Resting seat sheet roster torus) (sound : sheet.Sound)
    (within : roster.Within sheet) (present : sheet.Seats role) (here : role.lane .down = some lane) :
    Along seat sheet .down lane (torus.link .down (seat role)) ∧
      Along seat sheet .down lane (torus.link .up (seat role)) := by
  have column : ∀ column, sheet.Seats (.head column) →
      ∀ other ∈ Role.head column :: roster.entriesIn column,
        sheet.Seats other ∧ other.lane .down = some (.column column) := by
    intro column known other member
    refine ⟨Woven.columnPresent sound within known other member, ?_⟩
    rcases Woven.columnOwn roster column other member with rfl | ⟨row, rfl⟩ <;> rfl
  cases role with
  | root => cases here
  | head y =>
    cases here
    exact (resting.columnCircle sound within present).leadsOn List.mem_cons_self (column y present)
  | entry row y =>
    cases here
    have known := sound.known row y present
    by_cases live : row ∈ roster.live y
    · exact (resting.columnCircle sound within known).leadsOn (Woven.entryInside live) (column y known)
    · have alone : torus.Circle seat .down (.entry row y) [] :=
        ⟨resting.idle row y present live, List.forall_mem_singleton.mpr (resting.seated _ present),
          List.nodup_singleton _⟩
      exact alone.leadsOn List.mem_cons_self (List.forall_mem_singleton.mpr ⟨present, rfl⟩)

theorem restingLanes (resting : Resting seat sheet roster torus) (sound : sheet.Sound)
    (remains : roster.Remains sheet []) : Lanes seat sheet torus where
  seated := resting.seated
  heads column head found := by
    obtain ⟨header, read, same⟩ := bindOk.mp found
    cases same
    unfold Torus.column at read
    split at read
    · rename_i listed
      cases read
      exact ⟨resting.listedKnown listed, (resting.headers column _ listed).2.1⟩
    · cases read
  leads direction lane site along := by
    obtain ⟨role, present, here, rfl⟩ := along
    cases direction with
    | right => exact (resting.leadsAcross sound remains present here).1
    | left => exact (resting.leadsAcross sound remains present
      ((Role.laneOpposite .left role).trans here)).2.opposite
    | down => exact (resting.leadsUpright sound remains.within present here).1
    | up => exact (resting.leadsUpright sound remains.within present
        ((Role.laneOpposite .up role).trans here)).2.opposite

end Resting

end DancingLinks
