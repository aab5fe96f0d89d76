import DancingLinks.Proofs.SiteRoles
import DancingLinks.Proofs.ArenaCovers

/-! What covered columns leave to be seen. After distinct columns have been covered, the root's ring has
the primary columns outside them, every column outside them has its rows in play that have none of
them, in the order in which it had them before, and the rings of the rows are as they were. That does
not depend on the order of the covers, and neither do the sites that are met on the way. -/
namespace DancingLinks

def Sheet.clear (sheet : Sheet) (covered : List Nat) (column : Nat) : List Nat :=
  (sheet.live column).filter fun row => ∀ y ∈ sheet.columnsOf row, y ∉ covered

namespace Torus

structure Leaves (sheet : Sheet) (covered : List Nat) (before after : Torus) : Prop where
  kept : before.Alike after
  width : after.columns.size = before.columns.size
  heads : ∃ heads, after.ring root .right = .ok heads ∧ after.ring root .left = .ok heads.reverse ∧
    heads.mapM after.columnOf = .ok (sheet.primaries.filter (· ∉ covered))
  columns : ∀ column ∉ covered, ∀ header, after.columns[column]? = some header →
    after.ColumnReads column header (sheet.clear covered column)
  rings : ∀ entry row, before.rowOf entry = .ok row →
    after.ring entry .right = before.ring entry .right ∧ after.ring entry .left = before.ring entry .left

structure LooksLike (covered : List Nat) (first second : Torus) : Prop where
  heads : second.ring root .right = first.ring root .right ∧ second.ring root .left = first.ring root .left
  columns : ∀ column ∉ covered, ∀ header, first.columns[column]? = some header →
    ∃ twin, second.columns[column]? = some twin ∧ twin.head = header.head ∧ twin.size = header.size ∧
      second.ring twin.head .down = first.ring header.head .down ∧
      second.ring twin.head .up = first.ring header.head .up

end Torus

namespace Woven

variable {seat : Role → Site} {sheet : Sheet} {roster other : Roster} {torus after twin : Torus}
  {covered columns : List Nat}

theorem coversList (woven : Woven seat sheet roster torus) (sound : sheet.Sound)
    (remains : roster.Remains sheet covered) (known : ∀ y ∈ columns, y < sheet.columns.length)
    (distinct : columns.Nodup) (outside : ∀ y ∈ columns, y ∉ covered) :
    ∃ after, columns.foldlM Torus.cover torus = .ok after ∧
      Woven seat sheet (roster.coverEach sheet columns) after := by
  induction columns generalizing roster torus covered with
  | nil => exact ⟨torus, rfl, woven⟩
  | cons column rest ih =>
    obtain ⟨fresh, distinct⟩ := List.nodup_cons.mp distinct
    obtain ⟨inside, known⟩ := List.forall_mem_cons.mp known
    obtain ⟨clear, outside⟩ := List.forall_mem_cons.mp outside
    obtain ⟨next, done, holding, -⟩ := woven.coverWoven sound remains inside clear
    have still : ∀ y ∈ rest, y ∉ column :: covered := fun _ member hit =>
      List.disjoint_cons_right.mpr ⟨fresh, fun y => outside y⟩ member hit
    obtain ⟨after, all, held⟩ := ih holding (remains.coverRemains sound clear) known distinct still
    exact ⟨after, by rw [List.foldlM_cons, done]; exact all, held⟩

theorem coversInOrder (woven : Woven seat sheet roster torus) (sound : sheet.Sound)
    (remains : roster.Remains sheet []) (distinct : covered.Nodup)
    (known : ∀ column ∈ covered, column < sheet.columns.length) (perm : columns.Perm covered) :
    ∃ next after, columns.foldlM Torus.cover torus = .ok after ∧ Woven seat sheet next after ∧
      next.Remains sheet covered := by
  have apart := perm.nodup_iff.mpr distinct
  obtain ⟨after, done, held⟩ := woven.coversList sound remains
    (fun y member => known y (perm.mem_iff.mp member)) apart fun _ _ => List.not_mem_nil
  have left := remains.coverEach sound apart fun _ _ => List.not_mem_nil
  exact ⟨_, after, done, held, left.congr fun y => by simpa using perm.mem_iff⟩

theorem ringsKept (woven : Woven seat sheet roster torus) (later : Woven seat sheet other after)
    (sound : sheet.Sound) (charted : torus.Charted sheet) {entry : Site} {row : Nat}
    (found : torus.rowOf entry = .ok row) :
    after.ring entry .right = torus.ring entry .right ∧ after.ring entry .left = torus.ring entry .left := by
  obtain ⟨column, member, rfl⟩ := woven.entryOf charted found
  exact ⟨(later.ringRight sound member).trans (woven.ringRight sound member).symm,
    (later.ringLeft sound member).trans (woven.ringLeft sound member).symm⟩

theorem leavesView (woven : Woven seat sheet roster torus) (later : Woven seat sheet other after)
    (sound : sheet.Sound) (charted : torus.Charted sheet) (remains : other.Remains sheet covered)
    (kept : torus.Alike after) : torus.Leaves sheet covered after where
  kept := kept
  width := later.width.trans woven.width.symm
  heads := by
    rw [← remains.pending]
    exact later.headsRead remains
  columns column outside header listed := by
    rw [Sheet.clear, ← remains.live column outside]
    exact later.columnReads sound remains.within listed
  rings entry row found := woven.ringsKept later sound charted found

theorem looksLike (first : Woven seat sheet roster torus) (second : Woven seat sheet other twin)
    (sound : sheet.Sound) (remains : roster.Remains sheet covered) (rests : other.Remains sheet covered) :
    torus.LooksLike covered twin where
  heads := by
    have opened := (first.openCircle remains).circleOpposite.ringRead
    have open' := (second.openCircle rests).circleOpposite.ringRead
    have pending : other.pending = roster.pending := rests.pending.trans remains.pending.symm
    rw [first.root] at opened
    rw [second.root, pending] at open'
    rw [second.ringHeads rests, first.ringHeads remains, pending]
    exact ⟨rfl, open'.trans opened.symm⟩
  columns column outside header listed := by
    have known := first.listedKnown listed
    obtain ⟨-, head, size⟩ := first.headers column header listed
    obtain ⟨header', listed', -, -, size'⟩ := second.headerOf known
    obtain ⟨-, head', -⟩ := second.headers column header' listed'
    have live : other.live column = roster.live column :=
      (rests.live column outside).trans (remains.live column outside).symm
    refine ⟨header', listed', head'.trans head.symm, by rw [size', size, live], ?_, ?_⟩
    · rw [head, head', second.ringBelow sound rests.within known, first.ringBelow sound remains.within known,
        Roster.entriesIn, Roster.entriesIn, live]
    · rw [head, head', second.ringAbove sound rests.within known, first.ringAbove sound remains.within known,
        Roster.entriesIn, Roster.entriesIn, live]

end Woven

theorem coversLeave {edits : List Edit} {torus : Torus} (history : Edited edits torus) {covered : List Nat}
    (distinct : covered.Nodup) (known : ∀ column ∈ covered, column < torus.columns.size) :
    torus.Shows (.edited edits) ∧
      ∃ after, covered.foldlM Torus.cover torus = .ok after ∧ torus.Leaves (.edited edits) covered after ∧
        ∀ other : List Nat, other.Perm covered → ∃ twin, other.foldlM Torus.cover torus = .ok twin ∧
          after.LooksLike covered twin := by
  obtain ⟨holds, sound⟩ := history.editedHolds
  have shows := holds.holdsShows sound
  obtain ⟨seat, resting, -⟩ := holds
  have woven := resting.toWoven
  have atFirst := atRest (.edited edits) torus.removals
  rw [woven.width] at known
  obtain ⟨roster, after, done, held, remains⟩ :=
    woven.coversInOrder sound atFirst distinct known (.refl covered)
  have leaves := woven.leavesView held sound history.editedCharted remains
    (Torus.eachKeeps Torus.coverKeeps done)
  refine ⟨shows, after, done, leaves, fun other perm => ?_⟩
  obtain ⟨next, twin, done', held', rests⟩ := woven.coversInOrder sound atFirst distinct known perm
  exact ⟨twin, done', held.looksLike held' sound remains rests⟩

theorem toggledLeft :
    Edited toggling .toggled ∧ [1, 0].Nodup ∧ (∀ column ∈ [1, 0], column < Torus.toggled.columns.size) ∧
      Torus.toggled.Shows (.edited toggling) ∧
      ∃ after, [1, 0].foldlM Torus.cover .toggled = .ok after ∧
        Torus.toggled.Leaves (.edited toggling) [1, 0] after ∧
        ∀ other : List Nat, other.Perm [1, 0] → ∃ twin, other.foldlM Torus.cover .toggled = .ok twin ∧
          after.LooksLike [1, 0] twin :=
  ⟨toggledMade, by decide, by decide, coversLeave toggledMade (by decide) (by decide)⟩

end DancingLinks
