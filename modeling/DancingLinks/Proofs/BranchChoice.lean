import DancingLinks.Proofs.Woven
import DancingLinks.Search.Position

/-! What a search reads off an arena: the column to branch on, which is the one that the roster has,
and the solution at a path, which is the one that the matrix has whatever is covered. The arena also
has room for all that the roster lists, so no bound taken from its size is ever met. -/
namespace DancingLinks

theorem fewestArgmin (size : Nat → Nat) (best : Nat) (rest : List Nat) :
    some (Torus.fewest (best, size best) (rest.map fun y => (y, size y))) =
      rest.foldl (List.argAux fun b c => size b < size c) (some best) := by
  induction rest generalizing best with
  | nil => rfl
  | cons next rest ih =>
    simp only [List.map_cons, Torus.fewest, List.foldl_cons, List.argAux]
    split
    · exact ih next
    · exact ih best

namespace Woven

variable {seat : Role → Site} {sheet : Sheet} {roster : Roster} {torus : Torus}
  {covered : List Nat} {row column : Nat}

theorem pendingKnown (remains : roster.Remains sheet covered) (pending : column ∈ roster.pending) :
    column < sheet.columns.length :=
  (Sheet.memPrimaries.mp (remains.memPending.mp pending).1).1

theorem openColumnsRead (woven : Woven seat sheet roster torus) (remains : roster.Remains sheet covered) :
    torus.openColumns = .ok roster.pending := by
  have columns : (roster.pending.map fun y => seat (.head y)).mapM torus.columnOf =
      .ok (roster.pending.map id) :=
    mapMOk fun y pending => Torus.columnOfHead (woven.seated (.head y) (pendingKnown remains pending))
  rw [List.map_id] at columns
  have heads := woven.ringHeads remains
  rw [List.map_map] at heads
  simp only [Torus.openColumns, heads, bind, Except.bind]
  exact columns

theorem sizesRead (woven : Woven seat sheet roster torus) {columns : List Nat}
    (known : ∀ y ∈ columns, y < sheet.columns.length) :
    (columns.mapM fun index => do
      let column ← torus.column index
      return (index, column.size)) = .ok (columns.map fun y => (y, (roster.live y).length)) := by
  rw [← List.map_id columns]
  refine (mapMOk fun y member => ?_).trans (by rw [List.map_id])
  obtain ⟨header, -, read, -, size⟩ := woven.headerOf (known y member)
  simp [read, size, bind, Except.bind, pure, Except.pure]

theorem branchColumnRead (woven : Woven seat sheet roster torus) (remains : roster.Remains sheet covered)
    (byFewest : Bool) : torus.branchColumn byFewest = .ok (roster.branch byFewest) := by
  have first := Torus.followRead (woven.seated .root trivial) .right
  have loop := woven.heads
  rw [woven.root] at first loop
  cases split : roster.pending with
  | nil =>
    rw [split] at loop
    simp [Torus.branchColumn, first, loop.nextAlone, Roster.branch, split, bind, Except.bind, pure,
      Except.pure]
  | cons column rest =>
    rw [split] at loop
    have known : ∀ y ∈ column :: rest, y < sheet.columns.length := fun y member =>
      pendingKnown remains (split ▸ member)
    have inside : sheet.Seats (.head column) := known column List.mem_cons_self
    have leads : torus.link .right Torus.root = seat (.head column) := loop.nextHead
    have apart : seat (.head column) ≠ Torus.root := by
      rw [← woven.root]
      intro same
      exact Role.noConfusion (woven.seatApart inside (show sheet.Seats .root from trivial) same)
    cases byFewest with
    | false =>
      have head := Torus.columnOfHead (woven.seated _ inside)
      simp [Torus.branchColumn, first, leads, apart, head, Roster.branch, split, bind, Except.bind,
        pure, Except.pure]
    | true =>
      have opened := woven.openColumnsRead remains
      have sized := woven.sizesRead known
      have least := fewestArgmin (fun y => (roster.live y).length) column rest
      rw [split] at opened
      simp only [bind, Except.bind] at sized
      simp only [Torus.branchColumn, first, leads, apart, opened, sized, bind, Except.bind]
      simp only [Roster.branch, split, List.argmin, List.foldl_cons, List.argAux, List.map_cons,
        pure, Except.pure, if_true]
      exact congrArg Except.ok least

theorem namesRead (woven : Woven seat sheet roster torus) {columns : List Nat}
    (known : ∀ y ∈ columns, y < sheet.columns.length) :
    columns.mapM torus.columnName = .ok (columns.map sheet.nameOf) := by
  rw [← List.map_id columns]
  refine (mapMOk fun y member => ?_).trans (by rw [List.map_id])
  obtain ⟨header, listed, read, -, -⟩ := woven.headerOf (known y member)
  have name := (woven.headers y header listed).1
  simp [Torus.columnName, Sheet.nameOf, read, name, bind, Except.bind, pure, Except.pure]

theorem columnsRead (woven : Woven seat sheet roster torus) (sound : sheet.Sound)
    (member : column ∈ sheet.columnsOf row) :
    torus.rowColumns (seat (.entry row column)) =
      .ok (column :: beyond column (sheet.columnsOf row)) := by
  have entries : ((column :: beyond column (sheet.columnsOf row)).map fun y =>
      seat (.entry row y)).mapM torus.columnOf =
      .ok ((column :: beyond column (sheet.columnsOf row)).map id) := by
    refine mapMOk fun y inside => Torus.columnOfEntry (woven.seated (.entry row y) ?_)
    exact (beyondPerm member).mem_iff.mp inside
  have ring := woven.ringRight sound member
  rw [entriesAcross, List.map_map] at ring
  rw [List.map_id] at entries
  simp only [Torus.rowColumns, Torus.fullRing, ring, bind, Except.bind, pure, Except.pure]
  exact entries

theorem rowRead (woven : Woven seat sheet roster torus) (sound : sheet.Sound)
    (member : column ∈ sheet.columnsOf row) :
    torus.rowNames (seat (.entry row column)) =
      .ok ((column :: beyond column (sheet.columnsOf row)).map sheet.nameOf) := by
  rw [Torus.rowNames, woven.columnsRead sound member]
  exact woven.namesRead fun y inside =>
    sound.known row y ((beyondPerm member).mem_iff.mp inside)

theorem solutionRead (woven : Woven seat sheet roster torus) (sound : sheet.Sound)
    {path : List (Nat × Nat)} (chosen : ∀ entry ∈ path, entry.2 ∈ sheet.columnsOf entry.1)
    (found : Nat) :
    Position.solution ⟨torus, sitesOf seat path, found⟩ =
      .ok (sheet.solution path found roster.work) := by
  have there : ∀ entry ∈ path.reverse, entry.2 ∈ sheet.columnsOf entry.1 := fun entry member =>
    chosen entry (List.mem_reverse.mp member)
  have rows : (path.reverse.map fun entry => seat (.entry entry.1 entry.2)).mapM torus.rowOf =
      .ok (path.reverse.map Prod.fst) :=
    mapMOk fun entry member => Torus.rowOfEntry (woven.seated _ (there entry member))
  have names := mapMOk fun entry member => woven.rowRead sound (there entry member)
  simp only [Position.solution, sitesOf, ← List.map_reverse, rows, names, bind, Except.bind, pure,
    Except.pure, woven.work]
  rfl

theorem pendingRoom (woven : Woven seat sheet roster torus)
    (remains : roster.Remains sheet covered) : roster.pending.length < torus.cells.size := by
  have bound := (woven.openCircle remains).fewerThanCells
  rwa [List.length_map] at bound

theorem liveRoom (woven : Woven seat sheet roster torus) (sound : sheet.Sound)
    (within : roster.Within sheet) (known : column < sheet.columns.length) :
    (roster.live column).length < torus.cells.size := by
  have bound := (woven.columnCircle sound within known).fewerThanCells
  rwa [Roster.entriesIn, List.length_map] at bound

end Woven

end DancingLinks
