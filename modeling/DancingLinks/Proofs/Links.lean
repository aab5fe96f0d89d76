import DancingLinks.Proofs.Loop
import DancingLinks.Torus.Cover

/-! The links of an arena as functions, one for each direction, beside what its sites stand for.
A site outside the arena counts as its own neighbour, so a cell that is put there alone changes no
link. Every step on an arena is made of pointing links; bypassing a site and readmitting it are
opposite. Two arenas with the same roles and the same links have the same cells. -/
namespace DancingLinks
open Function (update)

def Direction.isAcross : Direction → Bool
  | .left | .right => true
  | .up | .down => false

theorem Direction.oppositeOther (direction : Direction) : direction.opposite ≠ direction := by
  cases direction <;> decide

theorem Direction.acrossOpposite {direction other : Direction} (onward : direction ≠ other)
    (back : direction.opposite ≠ other) :
    direction ≠ other.opposite ∧ direction.opposite ≠ other.opposite := by
  cases direction <;> cases other <;> simp_all [Direction.opposite]

namespace Torus

def link (torus : Torus) (direction : Direction) (site : Site) : Site :=
  (torus.cells[site]?.map (·.toward direction)).getD site

def roleAt (torus : Torus) (site : Site) : Option Role := torus.cells[site]?.map Cell.role

variable {torus : Torus} {site target start : Site} {direction other : Direction} {role : Role}
  {row column count : Nat}

theorem cellOfRole (found : torus.roleAt site = some role) :
    ∃ cell, torus.cells[site]? = some cell ∧ cell.role = role := Option.map_eq_some_iff.mp found

theorem roleInside (found : torus.roleAt site = some role) : site < torus.cells.size := by
  obtain ⟨cell, present, -⟩ := cellOfRole found
  exact (Array.getElem?_eq_some_iff.mp present).1

theorem cellRead (found : torus.roleAt site = some role) :
    torus.cell site = .ok ⟨torus.link .left site, torus.link .right site, torus.link .up site,
      torus.link .down site, role⟩ := by
  obtain ⟨cell, present, rfl⟩ := cellOfRole found
  simp [Torus.cell, link, present, Cell.toward]

theorem followRead (found : torus.roleAt site = some role) (direction : Direction) :
    torus.follow site direction = .ok (torus.link direction site) := by
  rw [follow, cellRead found]
  cases direction <;> rfl

theorem columnOfEntry (found : torus.roleAt site = some (.entry row column)) :
    torus.columnOf site = .ok column := by
  rw [columnOf, cellRead found]
  rfl

theorem columnOfHead (found : torus.roleAt site = some (.head column)) :
    torus.columnOf site = .ok column := by
  rw [columnOf, cellRead found]
  rfl

theorem rowOfEntry (found : torus.roleAt site = some (.entry row column)) :
    torus.rowOf site = .ok row := by
  rw [rowOf, cellRead found]
  rfl

theorem sameCells {first second : Torus} (roles : first.roleAt = second.roleAt)
    (links : ∀ direction, first.link direction = second.link direction) :
    first.cells = second.cells := by
  refine Array.ext_getElem? fun site => ?_
  have role := congrFun roles site
  have toward := fun direction => congrFun (links direction) site
  simp only [roleAt, link] at role toward
  cases hf : first.cells[site]? with
  | none =>
    simp only [hf, Option.map_none] at role
    exact (Option.map_eq_none_iff.mp role.symm).symm
  | some cell =>
    simp only [hf, Option.map_some] at role toward
    obtain ⟨twin, present, same⟩ := Option.map_eq_some_iff.mp role.symm
    simp only [present, Option.map_some, Option.getD_some] at toward
    have left := toward .left
    have right := toward .right
    have up := toward .up
    have down := toward .down
    rw [present]
    cases cell
    cases twin
    simp only [Cell.toward] at left right up down same
    simp [left, right, up, down, same]

theorem walkOfChain {back : Site → Site} {rest : List Site}
    (chain : List.IsChain (Joined (torus.link direction) back) (site :: (rest ++ [start])))
    (present : ∀ s ∈ site :: rest, (torus.roleAt s).isSome) (absent : start ∉ rest)
    {steps : Nat} (enough : rest.length < steps) :
    torus.walk start direction steps site = .ok rest := by
  induction rest generalizing site steps with
  | nil =>
    obtain ⟨role, found⟩ := Option.isSome_iff_exists.mp (present site (by simp))
    cases steps with
    | zero => simp at enough
    | succ steps =>
      have leads : torus.link direction site = start := (List.isChain_cons_cons.mp chain).1.1
      simp [walk, followRead found, leads, bind, Except.bind, pure, Except.pure]
  | cons next rest ih =>
    obtain ⟨role, found⟩ := Option.isSome_iff_exists.mp (present site (by simp))
    cases steps with
    | zero => simp at enough
    | succ steps =>
      obtain ⟨joined, chain⟩ := List.isChain_cons_cons.mp chain
      obtain ⟨apart, absent⟩ := not_or.mp (mt List.mem_cons.mpr absent)
      have tail := ih chain (fun s member => present s (List.mem_cons_of_mem _ member)) absent
        (Nat.lt_of_succ_lt_succ enough)
      have leads : torus.link direction site = next := joined.1
      simp [walk, followRead found, leads, Ne.symm apart, tail, bind, Except.bind, pure, Except.pure]

def withRemovals (torus : Torus) (count : Nat) : Torus := { torus with removals := count }

def pointed (torus : Torus) (site : Site) (direction : Direction) (target : Site) : Torus :=
  { torus with cells := torus.cells.modify site (·.turn direction target) }

theorem pointInside (inside : site < torus.cells.size) (direction : Direction) (target : Site) :
    torus.point site direction target = .ok (torus.pointed site direction target) := by
  simp [point, pointed, inside]

theorem pointRead {after : Torus} (done : torus.point site direction target = .ok after) :
    after = torus.pointed site direction target := by
  unfold point at done
  split at done
  · exact (Except.ok.inj done).symm
  · cases done

theorem rolePointed (torus : Torus) (site : Site) (direction : Direction) (target : Site) :
    (torus.pointed site direction target).roleAt = torus.roleAt := by
  funext s
  simp only [roleAt, pointed, Array.getElem?_modify]
  split
  · cases torus.cells[s]? <;> simp
  · rfl

theorem linkPointed (inside : site < torus.cells.size) (direction : Direction) (target : Site) :
    (torus.pointed site direction target).link direction =
      update (torus.link direction) site target := by
  funext s
  simp only [link, pointed, Array.getElem?_modify]
  by_cases same : site = s
  · subst same
    simp [inside]
  · rw [if_neg same, Function.update_of_ne (Ne.symm same)]
    rfl

theorem linkPointedAside (different : direction ≠ other) (torus : Torus) (site target : Site) :
    (torus.pointed site direction target).link other = torus.link other := by
  funext s
  simp only [link, pointed, Array.getElem?_modify]
  split
  · cases torus.cells[s]? <;> simp [Cell.towardOther _ _ different]
  · rfl

def bypassed (torus : Torus) (direction : Direction) (site : Site) : Torus :=
  (torus.pointed (torus.link direction.opposite site) direction (torus.link direction site)).pointed
    (torus.link direction site) direction.opposite (torus.link direction.opposite site)

def readmitted (torus : Torus) (direction : Direction) (site : Site) : Torus :=
  (torus.pointed (torus.link direction.opposite site) direction site).pointed
    (torus.link direction site) direction.opposite site

theorem roleBypassed (torus : Torus) (direction : Direction) (site : Site) :
    (torus.bypassed direction site).roleAt = torus.roleAt := by
  rw [bypassed, rolePointed, rolePointed]

theorem sizeBypassed (torus : Torus) (direction : Direction) (site : Site) :
    (torus.bypassed direction site).cells.size = torus.cells.size := by simp [bypassed, pointed]

theorem linkBypassed (before : torus.link direction.opposite site < torus.cells.size) :
    (torus.bypassed direction site).link direction =
      update (torus.link direction) (torus.link direction.opposite site)
        (torus.link direction site) := by
  rw [bypassed, linkPointedAside direction.oppositeOther, linkPointed before]

theorem linkBypassedBack (after : torus.link direction site < torus.cells.size) :
    (torus.bypassed direction site).link direction.opposite =
      update (torus.link direction.opposite) (torus.link direction site)
        (torus.link direction.opposite site) := by
  rw [bypassed, linkPointed (by simpa [pointed] using after),
    linkPointedAside direction.oppositeOther.symm]

theorem linkBypassedAside (onward : direction ≠ other) (back : direction.opposite ≠ other) :
    (torus.bypassed direction site).link other = torus.link other := by
  rw [bypassed, linkPointedAside back, linkPointedAside onward]

theorem bypassedKeepsOwn (before : torus.link direction.opposite site < torus.cells.size) :
    (torus.bypassed direction site).link direction site = torus.link direction site := by
  rw [linkBypassed before, Function.update_apply]
  split <;> rfl

theorem bypassedKeepsOwnBack (after : torus.link direction site < torus.cells.size) :
    (torus.bypassed direction site).link direction.opposite site =
      torus.link direction.opposite site := by
  rw [linkBypassedBack after, Function.update_apply]
  split <;> rfl

theorem readmittedBypassed (before : torus.link direction.opposite site < torus.cells.size)
    (after : torus.link direction site < torus.cells.size)
    (joined : torus.link direction (torus.link direction.opposite site) = site ∧
      torus.link direction.opposite (torus.link direction site) = site) :
    ((torus.bypassed direction site).readmitted direction site).cells = torus.cells := by
  have size := sizeBypassed torus direction site
  refine sameCells ?_ fun other => ?_
  · rw [readmitted, rolePointed, rolePointed, roleBypassed]
  rw [readmitted, bypassedKeepsOwnBack after, bypassedKeepsOwn before]
  by_cases onward : direction = other
  · subst onward
    rw [linkPointedAside direction.oppositeOther, linkPointed (size ▸ before), linkBypassed before,
      Function.update_idem]
    exact Function.update_eq_self_iff.mpr joined.1.symm
  · by_cases back : direction.opposite = other
    · subst back
      rw [linkPointed (by simpa [pointed, size] using after),
        linkPointedAside direction.oppositeOther.symm, linkBypassedBack after, Function.update_idem]
      exact Function.update_eq_self_iff.mpr joined.2.symm
    · rw [linkPointedAside back, linkPointedAside onward, linkBypassedAside onward back]

theorem bypassedAlone (onward : torus.link direction site = site)
    (back : torus.link direction.opposite site = site)
    (before : torus.link direction.opposite site < torus.cells.size) :
    (torus.bypassed direction site).cells = torus.cells := by
  have after : torus.link direction site < torus.cells.size := by rwa [onward, ← back]
  refine sameCells (roleBypassed ..) fun other => ?_
  by_cases along : direction = other
  · subst along
    rw [linkBypassed before, back]
    exact Function.update_eq_self_iff.mpr rfl
  · by_cases against : direction.opposite = other
    · subst against
      rw [linkBypassedBack after, onward]
      exact Function.update_eq_self_iff.mpr rfl
    · exact linkBypassedAside along against

theorem linkCells {first second : Torus} (cells : first.cells = second.cells)
    (direction : Direction) : first.link direction = second.link direction := by
  unfold link
  rw [cells]

theorem roleCells {first second : Torus} (cells : first.cells = second.cells) :
    first.roleAt = second.roleAt := by
  unfold roleAt
  rw [cells]

theorem readmittedCells {first second : Torus} (cells : first.cells = second.cells)
    (direction : Direction) (site : Site) :
    (first.readmitted direction site).cells = (second.readmitted direction site).cells := by
  simp only [readmitted, pointed, link, cells]

theorem readmittedAs (torus : Torus) (direction : Direction) (site : Site) :
    torus.readmitted direction site =
      { torus with cells := (torus.readmitted direction site).cells } := rfl

def shrunk (torus : Torus) (column : Nat) : Torus :=
  torus.editColumn column fun c => { c with size := c.size - 1 }

def grown (torus : Torus) (column : Nat) : Torus :=
  torus.editColumn column fun c => { c with size := c.size + 1 }

def insertedBeside (torus : Torus) (anchor : Site) (direction : Direction) (site : Site) : Torus :=
  let next := torus.link direction anchor
  (((torus.pointed site direction next).pointed site direction.opposite anchor).pointed next
    direction.opposite site).pointed anchor direction site

theorem insertBesideInside {anchor : Site} (found : torus.roleAt anchor = some role)
    (inside : site < torus.cells.size) (next : torus.link direction anchor < torus.cells.size) :
    torus.insertBeside anchor direction site = .ok (torus.insertedBeside anchor direction site) := by
  have present := roleInside found
  simp [insertBeside, insertedBeside, followRead found, pointInside, inside, next, present, pointed,
    bind, Except.bind]

theorem roleInserted (torus : Torus) (anchor : Site) (direction : Direction) (site : Site) :
    (torus.insertedBeside anchor direction site).roleAt = torus.roleAt := by
  simp only [insertedBeside, rolePointed]

theorem linkInserted {anchor : Site} (present : anchor < torus.cells.size)
    (inside : site < torus.cells.size) :
    (torus.insertedBeside anchor direction site).link direction =
      update (update (torus.link direction) site (torus.link direction anchor)) anchor site := by
  simp only [insertedBeside]
  rw [linkPointed (by simpa [pointed] using present), linkPointedAside direction.oppositeOther,
    linkPointedAside direction.oppositeOther, linkPointed inside]

theorem linkInsertedBack {anchor : Site} (inside : site < torus.cells.size)
    (next : torus.link direction anchor < torus.cells.size) :
    (torus.insertedBeside anchor direction site).link direction.opposite =
      update (update (torus.link direction.opposite) site anchor) (torus.link direction anchor)
        site := by
  simp only [insertedBeside]
  rw [linkPointedAside direction.oppositeOther.symm, linkPointed (by simpa [pointed] using next),
    linkPointed (by simpa [pointed] using inside), linkPointedAside direction.oppositeOther.symm]

theorem linkInsertedAside {anchor : Site} (onward : direction ≠ other)
    (back : direction.opposite ≠ other) :
    (torus.insertedBeside anchor direction site).link other = torus.link other := by
  simp only [insertedBeside]
  rw [linkPointedAside onward, linkPointedAside back, linkPointedAside back,
    linkPointedAside onward]

theorem insertedKeeps (torus : Torus) (anchor : Site) (direction : Direction) (site : Site) :
    torus.insertedBeside anchor direction site =
      { torus with cells := (torus.insertedBeside anchor direction site).cells } := by
  simp only [insertedBeside, pointed]

theorem insertedColumns (torus : Torus) (columns : Array Column) (anchor : Site)
    (direction : Direction) (site : Site) :
    ({ torus with columns }).insertedBeside anchor direction site =
      { torus.insertedBeside anchor direction site with columns } := by
  simp only [insertedBeside, pointed, link]

def Apart (before after : Torus) (direction : Direction) (sites : List Site) : Prop :=
  ∀ site ∉ sites, after.link direction site = before.link direction site ∧
    after.link direction.opposite site = before.link direction.opposite site

theorem bypassedApart (direction : Direction)
    (before : torus.link direction.opposite site < torus.cells.size)
    (after : torus.link direction site < torus.cells.size) :
    torus.Apart (torus.bypassed direction site) direction
      [torus.link direction.opposite site, torus.link direction site] := by
  intro s outside
  obtain ⟨first, second⟩ := not_or.mp (mt List.mem_cons.mpr outside)
  rw [linkBypassed before, linkBypassedBack after, Function.update_of_ne first,
    Function.update_of_ne (mt List.mem_singleton.mpr second)]
  exact ⟨rfl, rfl⟩

theorem insertedApart {anchor : Site} (direction : Direction) (present : anchor < torus.cells.size)
    (inside : site < torus.cells.size) (next : torus.link direction anchor < torus.cells.size) :
    torus.Apart (torus.insertedBeside anchor direction site) direction
      [site, anchor, torus.link direction anchor] := by
  intro s outside
  simp only [List.mem_cons, List.not_mem_nil, or_false, not_or] at outside
  obtain ⟨own, first, second⟩ := outside
  rw [linkInserted present inside, linkInsertedBack inside next, Function.update_of_ne first,
    Function.update_of_ne own, Function.update_of_ne second, Function.update_of_ne own]
  exact ⟨rfl, rfl⟩

theorem bypassedAcross (torus : Torus) (site : Site) (onward : direction ≠ other)
    (back : direction.opposite ≠ other) : torus.Apart (torus.bypassed direction site) other [] := by
  intro s _
  obtain ⟨onward', back'⟩ := Direction.acrossOpposite onward back
  rw [linkBypassedAside onward back, linkBypassedAside onward' back']
  exact ⟨rfl, rfl⟩

theorem insertedAcross (torus : Torus) (anchor site : Site) (onward : direction ≠ other)
    (back : direction.opposite ≠ other) :
    torus.Apart (torus.insertedBeside anchor direction site) other [] := by
  intro s _
  obtain ⟨onward', back'⟩ := Direction.acrossOpposite onward back
  rw [linkInsertedAside onward back, linkInsertedAside onward' back']
  exact ⟨rfl, rfl⟩

theorem Apart.flip {after : Torus} {sites : List Site} (apart : torus.Apart after direction sites) :
    torus.Apart after direction.opposite sites := by
  intro s outside
  rw [direction.oppositeTwice]
  exact (apart s outside).symm

theorem Apart.mono {after : Torus} {sites more : List Site} (apart : torus.Apart after direction sites)
    (within : sites ⊆ more) : torus.Apart after direction more := fun s outside =>
  apart s fun inside => outside (within inside)

theorem Apart.loopAside {after : Torus} {sites others : List Site}
    (apart : torus.Apart after direction sites)
    (loop : Loop (torus.link direction) (torus.link direction.opposite) start others)
    (clear : ∀ s ∈ start :: others, s ∉ sites) :
    Loop (after.link direction) (after.link direction.opposite) start others :=
  loop.congr (fun s member => (apart s (clear s member)).1) fun s member =>
    (apart s (clear s member)).2

theorem Apart.loopKept {after : Torus} {others : List Site} (apart : torus.Apart after direction [])
    (loop : Loop (torus.link direction) (torus.link direction.opposite) start others) :
    Loop (after.link direction) (after.link direction.opposite) start others :=
  apart.loopAside loop fun _ _ => List.not_mem_nil

/-- An action can be undone, no matter how much work has been counted meanwhile. -/
def Reverts (undo : Torus → Except Fault Torus) (after before : Torus) : Prop :=
  ∀ count, undo (after.withRemovals count) = .ok (before.withRemovals count)

theorem Reverts.cons {undo : Torus → Site → Except Fault Torus} {before next after : Torus}
    {sites : List Site} (first : Reverts (undo · site) next before)
    (rest : Reverts (fun t => sites.reverse.foldlM undo t) after next) :
    Reverts (fun t => (site :: sites).reverse.foldlM undo t) after before := by
  intro count
  have inner : sites.reverse.foldlM undo (after.withRemovals count) = _ := rest count
  have outer : undo (next.withRemovals count) site = _ := first count
  dsimp only
  rw [List.reverse_cons, List.foldlM_append, inner]
  change List.foldlM undo (next.withRemovals count) [site] = _
  rw [List.foldlM_cons, outer]
  rfl

theorem detachRead (found : torus.roleAt site = some (.entry row column))
    (above : torus.link .up site < torus.cells.size)
    (below : torus.link .down site < torus.cells.size) {header : Column}
    (listed : torus.columns[column]? = some header) (counted : header.size ≠ 0) :
    torus.detach site = .ok ((torus.bypassed .down site).shrunk column).countRemoval := by
  simp [detach, unhook, cellRead found, Cell.column, pointInside, above, below, pointed, shrink, shrunk,
    Torus.column, listed, counted, bypassed, Direction.opposite, bind, Except.bind, pure, Except.pure]

theorem reattachRead (found : torus.roleAt site = some (.entry row column))
    (above : torus.link .up site < torus.cells.size)
    (below : torus.link .down site < torus.cells.size) (listed : column < torus.columns.size) :
    torus.reattach site = .ok ((torus.readmitted .down site).grown column) := by
  simp [reattach, cellRead found, Cell.column, pointInside, above, below, pointed, grow, grown, listed,
    readmitted, Direction.opposite, bind, Except.bind]

theorem closeHeadRead (found : torus.roleAt site = some (.head column))
    (before : torus.link .left site < torus.cells.size)
    (after : torus.link .right site < torus.cells.size) :
    torus.closeHead site = .ok (torus.bypassed .right site).countRemoval := by
  simp [closeHead, cellRead found, pointInside, before, after, pointed, bypassed,
    Direction.opposite, bind, Except.bind, pure, Except.pure]

theorem reopenHeadRead (found : torus.roleAt site = some (.head column))
    (before : torus.link .left site < torus.cells.size)
    (after : torus.link .right site < torus.cells.size) :
    torus.reopenHead site = .ok (torus.readmitted .right site) := by
  simp [reopenHead, cellRead found, pointInside, before, after, pointed, readmitted,
    Direction.opposite, bind, Except.bind]

theorem reattachReverts (found : torus.roleAt site = some (.entry row column))
    (above : torus.link .up site < torus.cells.size)
    (below : torus.link .down site < torus.cells.size)
    (joined : torus.link .down (torus.link .up site) = site ∧
      torus.link .up (torus.link .down site) = site)
    {header : Column} (listed : torus.columns[column]? = some header) (counted : header.size ≠ 0) :
    Reverts (·.reattach site) ((torus.bypassed .down site).shrunk column).countRemoval torus := by
  intro count
  let after := ((torus.bypassed .down site).shrunk column).countRemoval.withRemovals count
  have cells : after.cells = (torus.bypassed .down site).cells := rfl
  have size : after.cells.size = torus.cells.size := cells ▸ sizeBypassed torus .down site
  have role : after.roleAt site = some (.entry row column) := by
    rw [roleCells cells, roleBypassed, found]
  have up : after.link .up site = torus.link .up site :=
    (congrFun (linkCells cells .up) site).trans (bypassedKeepsOwnBack below)
  have down : after.link .down site = torus.link .down site :=
    (congrFun (linkCells cells .down) site).trans (bypassedKeepsOwn above)
  have inside : column < after.columns.size := by
    have known : column < torus.columns.size := (Array.getElem?_eq_some_iff.mp listed).1
    simpa [after, shrunk, editColumn, countRemoval, withRemovals, bypassed, pointed] using known
  have read := reattachRead role (by rw [up, size]; exact above) (by rw [down, size]; exact below)
    inside
  have readmit : (after.readmitted .down site).cells = torus.cells :=
    (readmittedCells cells .down site).trans (readmittedBypassed above below joined)
  refine read.trans (congrArg Except.ok ?_)
  rw [readmittedAs, readmit]
  have columns : (torus.columns.modify column fun c => { c with size := c.size - 1 }).modify column
      (fun c => { c with size := c.size + 1 }) = torus.columns := by
    refine Array.ext_getElem? fun index => ?_
    simp only [Array.getElem?_modify]
    by_cases same : column = index
    · subst same
      have restored : header.size - 1 + 1 = header.size := by omega
      simp [listed, restored]
    · simp [same]
  simp only [after, shrunk, grown, editColumn, countRemoval, withRemovals, bypassed, pointed, columns]

theorem closeHeadReverts (found : torus.roleAt site = some (.head column))
    (before : torus.link .left site < torus.cells.size)
    (after : torus.link .right site < torus.cells.size)
    (joined : torus.link .right (torus.link .left site) = site ∧
      torus.link .left (torus.link .right site) = site) :
    Reverts (·.reopenHead site) (torus.bypassed .right site).countRemoval torus := by
  intro count
  let closed := (torus.bypassed .right site).countRemoval.withRemovals count
  have cells : closed.cells = (torus.bypassed .right site).cells := rfl
  have size : closed.cells.size = torus.cells.size := cells ▸ sizeBypassed torus .right site
  have role : closed.roleAt site = some (.head column) := by
    rw [roleCells cells, roleBypassed, found]
  have left : closed.link .left site = torus.link .left site :=
    (congrFun (linkCells cells .left) site).trans (bypassedKeepsOwnBack after)
  have right : closed.link .right site = torus.link .right site :=
    (congrFun (linkCells cells .right) site).trans (bypassedKeepsOwn before)
  have read := reopenHeadRead role (by rw [left, size]; exact before)
    (by rw [right, size]; exact after)
  have readmit : (closed.readmitted .right site).cells = torus.cells :=
    (readmittedCells cells .right site).trans (readmittedBypassed before after joined)
  refine read.trans (congrArg Except.ok ?_)
  rw [readmittedAs, readmit]
  simp only [closed, countRemoval, withRemovals, bypassed, pointed]

end Torus

end DancingLinks
