import DancingLinks.Proofs.ArenaBuilding
import DancingLinks.Proofs.BranchChoice

/-! What can be read off an arena that holds a sheet. Every ring gives its list when it is walked one
way and the same list backwards when it is walked the other way; the entries of a row out of play and
the heads of secondary columns are their own neighbours. -/
namespace DancingLinks

namespace Torus

def RowReads (torus : Torus) (row : Nat) (columns : List Nat) : Prop :=
  ∃ first others, torus.firstEntry row = .ok first ∧ torus.ring first .right = .ok others ∧
    torus.ring first .left = .ok others.reverse ∧
    (first :: others).mapM torus.columnOf = .ok columns ∧
    ∀ entry ∈ first :: others, torus.rowOf entry = .ok row

def ColumnReads (torus : Torus) (column : Nat) (header : Column) (rows : List Nat) : Prop :=
  ∃ entries, torus.ring header.head .down = .ok entries ∧
    torus.ring header.head .up = .ok entries.reverse ∧
    entries.mapM torus.rowOf = .ok rows ∧
    (∀ entry ∈ entries, torus.columnOf entry = .ok column) ∧ header.size = rows.length

structure Shows (sheet : Sheet) (torus : Torus) : Prop where
  stored : torus.rows.size = sheet.rows.length
  rows : ∀ row columns, sheet.rows[row]? = some columns → torus.RowReads row columns
  columns : torus.columns.toList.map (fun header => (header.name, header.isPrimary)) = sheet.columns
  live : ∀ column header, torus.columns[column]? = some header →
    torus.ColumnReads column header (sheet.live column)
  inPlay : ∀ column row, row ∈ sheet.live column ↔
    torus.isRowEnabled row = .ok true ∧ column ∈ sheet.columnsOf row
  alone : ∀ row first entries, torus.isRowEnabled row = .ok false → torus.firstEntry row = .ok first →
    torus.fullRing first .right = .ok entries →
    ∀ entry ∈ entries, torus.follow entry .up = .ok entry ∧ torus.follow entry .down = .ok entry
  heads : ∃ heads, torus.ring root .right = .ok heads ∧ torus.ring root .left = .ok heads.reverse ∧
    heads.mapM torus.columnOf = .ok sheet.primaries
  aside : ∀ (column : Nat) (header : Column), torus.columns[column]? = some header → header.isPrimary = false →
    torus.follow header.head .left = .ok header.head ∧
      torus.follow header.head .right = .ok header.head

end Torus

variable {seat : Role → Site} {sheet : Sheet} {roster : Roster} {torus : Torus} {row column : Nat}
  {covered : List Nat}

theorem Sheet.columnsAt {columns : List Nat} (found : sheet.rows[row]? = some columns) :
    sheet.columnsOf row = columns := by
  rw [Sheet.columnsOf, List.getD_eq_getElem?_getD, found]
  rfl

theorem Loop.alonePair {next back : Site → Site} {site : Site} (loop : Loop next back site []) :
    back site = site ∧ next site = site := ⟨loop.loopReversed.nextAlone, loop.nextAlone⟩

namespace Woven

theorem rowReads (woven : Woven seat sheet roster torus) (sound : sheet.Sound) {first : Nat}
    {rest : List Nat} (split : sheet.columnsOf row = first :: rest)
    (top : torus.firstEntry row = .ok (seat (.entry row first))) :
    torus.RowReads row (sheet.columnsOf row) := by
  have member : first ∈ sheet.columnsOf row := split ▸ List.mem_cons_self
  have right := woven.ringRight sound member
  have left := woven.ringLeft sound member
  rw [split, beyondFirst] at right left
  have present : ∀ y ∈ first :: rest,
      torus.roleAt (seat (.entry row y)) = some (.entry row y) := fun y inRow =>
    woven.seated (.entry row y) (show y ∈ sheet.columnsOf row from split ▸ inRow)
  have columns : ((first :: rest).map fun y => seat (.entry row y)).mapM torus.columnOf =
      .ok ((first :: rest).map id) := mapMOk fun y inRow => Torus.columnOfEntry (present y inRow)
  have whole : seat (.entry row first) :: (entriesAcross row rest).map seat =
      (first :: rest).map fun y => seat (.entry row y) := by simp [entriesAcross]
  rw [List.map_id] at columns
  refine ⟨_, _, top, right, by rw [left, List.map_reverse], ?_, ?_⟩
  · rw [whole, columns, split]
  · rw [whole]
    exact List.forall_mem_map.mpr fun y inRow => Torus.rowOfEntry (present y inRow)

theorem columnReads (woven : Woven seat sheet roster torus) (sound : sheet.Sound)
    (within : roster.Within sheet) {header : Column} (listed : torus.columns[column]? = some header) :
    torus.ColumnReads column header (roster.live column) := by
  have known := woven.listedKnown listed
  obtain ⟨-, head, size⟩ := woven.headers column header listed
  have present : ∀ row ∈ roster.live column,
      torus.roleAt (seat (.entry row column)) = some (.entry row column) := fun row live =>
    woven.seated (.entry row column) (within.liveMeets sound live)
  have rows : ((roster.live column).map fun row => seat (.entry row column)).mapM torus.rowOf =
      .ok ((roster.live column).map id) := mapMOk fun row live => Torus.rowOfEntry (present row live)
  rw [List.map_id] at rows
  rw [Torus.ColumnReads, head]
  refine ⟨_, woven.ringBelow sound within known, ?_, ?_, ?_, size⟩
  · rw [woven.ringAbove sound within known, List.map_reverse]
  · rw [Roster.entriesIn, List.map_map]
    exact rows
  · rw [Roster.entriesIn, List.map_map]
    exact List.forall_mem_map.mpr fun row live => Torus.columnOfEntry (present row live)

theorem headsRead (woven : Woven seat sheet roster torus) (remains : roster.Remains sheet covered) :
    ∃ heads, torus.ring Torus.root .right = .ok heads ∧ torus.ring Torus.root .left = .ok heads.reverse ∧
      heads.mapM torus.columnOf = .ok roster.pending := by
  have left := (woven.openCircle remains).circleOpposite.ringRead
  rw [woven.root] at left
  have opens := woven.openColumnsRead remains
  have right := woven.ringHeads remains
  simp only [Torus.openColumns, right, bind, Except.bind] at opens
  exact ⟨_, right, by rw [← List.map_reverse]; exact left, opens⟩

theorem namesListed (woven : Woven seat sheet roster torus) :
    torus.columns.toList.map (fun header => (header.name, header.isPrimary)) = sheet.columns := by
  refine List.ext_getElem? fun column => ?_
  rw [List.getElem?_map, Array.getElem?_toList]
  cases listed : torus.columns[column]? with
  | none =>
    have outside := Array.getElem?_eq_none_iff.mp listed
    rw [woven.width] at outside
    exact (List.getElem?_eq_none outside).symm
  | some header => exact (woven.headers column header listed).1.symm

theorem headAside (woven : Woven seat sheet roster torus) {header : Column}
    (listed : torus.columns[column]? = some header) (secondary : header.isPrimary = false) :
    torus.follow header.head .left = .ok header.head ∧
      torus.follow header.head .right = .ok header.head := by
  have known := woven.listedKnown listed
  obtain ⟨names, head, -⟩ := woven.headers column header listed
  have kind : sheet.isPrimary column = false := by
    rw [Sheet.isPrimary, names]
    exact secondary
  obtain ⟨left, right⟩ := (woven.aside column known kind).alonePair
  have found := woven.seated (.head column) known
  rw [head, Torus.followRead found, Torus.followRead found, left, right]
  exact ⟨rfl, rfl⟩

end Woven

namespace Torus.Holds

theorem liveIff (holds : torus.Holds sheet) (sound : sheet.Sound) :
    row ∈ sheet.live column ↔ torus.isRowEnabled row = .ok true ∧ column ∈ sheet.columnsOf row := by
  constructor
  · intro live
    have member := sound.holds column row live
    obtain ⟨seat, resting, listed⟩ := holds
    rw [enabledRead resting listed sound (Sheet.rowKnown member), (sound.enabledIff member).mpr live]
    exact ⟨rfl, member⟩
  · intro placed
    obtain ⟨enabled, member⟩ := placed
    exact (sound.enabledIff member).mp (holds.enabledStored sound enabled).2

theorem entriesAlone (holds : torus.Holds sheet) (sound : sheet.Sound) {first : Site}
    {entries : List Site} (out : torus.isRowEnabled row = .ok false)
    (top : torus.firstEntry row = .ok first) (ring : torus.fullRing first .right = .ok entries) :
    ∀ entry ∈ entries, torus.follow entry .up = .ok entry ∧ torus.follow entry .down = .ok entry := by
  obtain ⟨inside, disabled⟩ := holds.enabledStored sound out
  obtain ⟨seat, resting, listed⟩ := holds
  obtain ⟨first', top', ring'⟩ := entriesRead resting listed sound inside
  cases top.symm.trans top'
  cases ring.symm.trans ring'
  rw [entriesAcross, List.map_map]
  refine List.forall_mem_map.mpr fun y member => ?_
  obtain ⟨up, down⟩ := (resting.idle row y member (sound.liveNowhere disabled y)).alonePair
  have found := resting.seated (.entry row y) member
  rw [Function.comp_apply, Torus.followRead found, Torus.followRead found, up, down]
  exact ⟨rfl, rfl⟩

theorem holdsShows (holds : torus.Holds sheet) (sound : sheet.Sound) : torus.Shows sheet where
  stored := by
    obtain ⟨seat, resting, listed⟩ := holds
    exact listed.rows
  rows row columns found := by
    obtain ⟨seat, resting, listed⟩ := holds
    have inside := (List.getElem?_eq_some_iff.mp found).1
    obtain ⟨first, rest, split⟩ := List.exists_cons_of_ne_nil (sound.filled row inside)
    have top : torus.firstEntry row = .ok (seat (.entry row first)) := by
      simp [Torus.firstEntry, listed.first row first rest split]
    rw [← Sheet.columnsAt found]
    exact resting.rowReads sound split top
  columns := by
    obtain ⟨seat, resting, listed⟩ := holds
    exact resting.namesListed
  live column header present := by
    obtain ⟨seat, resting, listed⟩ := holds
    exact resting.columnReads sound (atRest sheet torus.removals).within present
  inPlay column row := holds.liveIff sound
  alone row first entries := holds.entriesAlone sound
  heads := by
    obtain ⟨seat, resting, listed⟩ := holds
    exact resting.headsRead (atRest sheet torus.removals)
  aside column header present := by
    obtain ⟨seat, resting, listed⟩ := holds
    exact resting.headAside present

end Torus.Holds

end DancingLinks
