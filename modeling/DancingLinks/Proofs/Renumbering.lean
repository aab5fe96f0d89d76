import DancingLinks.Proofs.LoadedSolver
import DancingLinks.Proofs.CoveredView
import Mathlib.Algebra.BigOperators.Group.Finset.Basic

/-! Searches on two sheets that differ in the numbers of their columns. The primary columns keep their
order; the others may be numbered in any way, so that the columns of a row are covered in different
orders. What that costs does not depend on the order: every column counts one unit, and every row that
has one of the columns counts its other entries once, for it is taken out with the first of them. So the
two searches choose the same rows in the same order, with the same work at every moment. -/
namespace DancingLinks

namespace Sheet

variable {sheet : Sheet} {covered columns : List Nat} {row column : Nat}

def struck (sheet : Sheet) (covered columns : List Nat) : Finset Nat :=
  (columns.flatMap (sheet.clear covered)).toFinset

theorem memClear : row ∈ sheet.clear covered column ↔
    row ∈ sheet.live column ∧ ∀ y ∈ sheet.columnsOf row, y ∉ covered := by
  rw [clear, List.mem_filter, decide_eq_true_iff]

theorem memStruck : row ∈ sheet.struck covered columns ↔ ∃ y ∈ columns, row ∈ sheet.clear covered y := by
  rw [struck, List.mem_toFinset, List.mem_flatMap]

theorem Sound.struckCons (sound : sheet.Sound) (covered : List Nat) (column : Nat) (rest : List Nat) :
    sheet.struck covered (column :: rest) =
      (sheet.clear covered column).toFinset ∪ sheet.struck (column :: covered) rest := by
  ext row
  simp only [Finset.mem_union, List.mem_toFinset, memStruck, List.mem_cons, memClear]
  constructor
  · intro taken
    obtain ⟨y, rfl | later, live, free⟩ := taken
    · exact .inl ⟨live, free⟩
    -- a row of a later column is taken out with the first one when it has that too
    · by_cases has : column ∈ sheet.columnsOf row
      · exact .inl ⟨sound.whole y row live column has, free⟩
      · refine .inr ⟨y, later, live, fun z inRow hit => ?_⟩
        rcases hit with rfl | hit
        · exact has inRow
        · exact free z inRow hit
  · intro taken
    rcases taken with here | ⟨y, later, live, free⟩
    · exact ⟨column, .inl rfl, here⟩
    · exact ⟨y, .inr later, live, fun z inRow hit => free z inRow (.inr hit)⟩

theorem Sound.struckApart (sound : sheet.Sound) (covered : List Nat) (column : Nat) (rest : List Nat) :
    Disjoint (sheet.clear covered column).toFinset (sheet.struck (column :: covered) rest) := by
  refine Finset.disjoint_left.mpr fun row here there => ?_
  have has := sound.holds column row (memClear.mp (List.mem_toFinset.mp here)).1
  obtain ⟨y, -, left⟩ := memStruck.mp there
  exact (memClear.mp left).2 column has List.mem_cons_self

end Sheet

namespace Roster.Remains

variable {sheet : Sheet} {roster : Roster} {covered columns : List Nat} {row column : Nat}

theorem worksEach (remains : roster.Remains sheet covered) (sound : sheet.Sound) (distinct : columns.Nodup)
    (outside : ∀ y ∈ columns, y ∉ covered) :
    (roster.coverEach sheet columns).work = roster.work + columns.length +
      ∑ row ∈ sheet.struck covered columns, ((sheet.columnsOf row).length - 1) := by
  induction columns generalizing roster covered with
  | nil => rfl
  | cons column rest ih =>
    obtain ⟨fresh, distinct⟩ := List.nodup_cons.mp distinct
    obtain ⟨clear, outside⟩ := List.forall_mem_cons.mp outside
    have still : ∀ y ∈ rest, y ∉ column :: covered := fun _ member hit =>
      List.disjoint_cons_right.mpr ⟨fresh, fun y => outside y⟩ member hit
    have here : (roster.cover sheet column).work = roster.work + 1 +
        ∑ row ∈ (sheet.clear covered column).toFinset, ((sheet.columnsOf row).length - 1) := by
      have once : (sheet.clear covered column).Nodup := (sound.once column).filter _
      rw [List.sum_toFinset _ once, Roster.cover, remains.live column clear]
      rfl
    have later : (roster.coverEach sheet (column :: rest)).work = _ :=
      ih (remains.coverRemains sound clear) distinct still
    rw [later, here, sound.struckCons, Finset.sum_union (sound.struckApart covered column rest),
      List.length_cons]
    omega

theorem worksRow (remains : roster.Remains sheet covered) (sound : sheet.Sound) (outside : column ∉ covered)
    (live : row ∈ roster.live column) (work : Nat) :
    (roster.commit sheet column row work).work = work + ((sheet.columnsOf row).length - 1) +
      ∑ other ∈ sheet.struck (column :: covered) (beyond column (sheet.columnsOf row)),
        ((sheet.columnsOf other).length - 1) := by
  have holds := remains.within.liveMeets sound live
  have each := ((remains.coverRemains sound outside).withWork work).worksEach sound
    (beyondNodup (sound.distinct row) holds) (remains.beyondFree sound outside live)
  rwa [beyondLength holds] at each

end Roster.Remains

/-- The column that has a number in the first sheet has the place of this number in the second one. -/
structure Sheet.Renumbers (first : Sheet) (place : Nat → Nat) (second : Sheet) : Prop where
  apart : ∀ x < first.columns.length, ∀ y < first.columns.length, place x = place y → x = y
  primaries : second.primaries = first.primaries.map place
  live : ∀ x < first.columns.length, second.live (place x) = first.live x
  rows : ∀ row, (second.columnsOf row).Perm ((first.columnsOf row).map place)

theorem Sheet.Sound.memMapped {place : Nat → Nat} {first second : Sheet} {row x : Nat} (sound : first.Sound)
    (apart : ∀ x < first.columns.length, ∀ y < first.columns.length, place x = place y → x = y)
    (perm : (second.columnsOf row).Perm ((first.columnsOf row).map place)) (known : x < first.columns.length) :
    place x ∈ second.columnsOf row ↔ x ∈ first.columnsOf row := by
  rw [perm.mem_iff, List.mem_map]
  constructor
  · intro there
    obtain ⟨y, member, same⟩ := there
    exact apart y (sound.known row y member) x known same ▸ member
  · exact fun member => ⟨x, member, rfl⟩

structure Roster.InStep (place : Nat → Nat) (first second : Sheet) (covered covered' : List Nat)
    (roster roster' : Roster) : Prop where
  remains : roster.Remains first covered
  remains' : roster'.Remains second covered'
  same : ∀ x < first.columns.length, x ∈ covered ↔ place x ∈ covered'
  work : roster'.work = roster.work

namespace Sheet.Renumbers

variable {place : Nat → Nat} {first second : Sheet} {covered covered' : List Nat} {row x : Nat}

theorem memRow (renumbers : first.Renumbers place second) (sound : first.Sound)
    (known : x < first.columns.length) : place x ∈ second.columnsOf row ↔ x ∈ first.columnsOf row :=
  sound.memMapped renumbers.apart (renumbers.rows row) known

theorem rowLength (renumbers : first.Renumbers place second) (row : Nat) :
    (second.columnsOf row).length = (first.columnsOf row).length := by
  rw [(renumbers.rows row).length_eq, List.length_map]

theorem clearRenumbered (renumbers : first.Renumbers place second) (sound : first.Sound)
    (same : ∀ x < first.columns.length, x ∈ covered ↔ place x ∈ covered') (known : x < first.columns.length) :
    second.clear covered' (place x) = first.clear covered x := by
  rw [Sheet.clear, Sheet.clear, renumbers.live x known]
  refine List.filter_congr fun row _ => ?_
  rw [decide_eq_decide]
  constructor
  · intro free y inRow hit
    have there := (same y (sound.known row y inRow)).mp hit
    exact free (place y) ((renumbers.rows row).mem_iff.mpr (List.mem_map_of_mem inRow)) there
  · intro free z inRow hit
    obtain ⟨y, member, rfl⟩ := List.mem_map.mp ((renumbers.rows row).mem_iff.mp inRow)
    exact free y member ((same y (sound.known row y member)).mpr hit)

theorem struckRenumbered (renumbers : first.Renumbers place second)
    (sound : first.Sound) (sound' : second.Sound)
    (same : ∀ x < first.columns.length, x ∈ covered ↔ place x ∈ covered') (holds : x ∈ first.columnsOf row) :
    second.struck covered' (beyond (place x) (second.columnsOf row)) =
      first.struck covered (beyond x (first.columnsOf row)) := by
  have known := sound.known row x holds
  have holds' := (renumbers.memRow sound known).mpr holds
  ext other
  simp only [Sheet.memStruck, memBeyond (sound'.distinct row) holds', memBeyond (sound.distinct row) holds]
  constructor
  · intro taken
    obtain ⟨z, ⟨inRow, apart⟩, free⟩ := taken
    obtain ⟨y, member, rfl⟩ := List.mem_map.mp ((renumbers.rows row).mem_iff.mp inRow)
    rw [renumbers.clearRenumbered sound same (sound.known row y member)] at free
    exact ⟨y, ⟨member, fun here => apart (here ▸ rfl)⟩, free⟩
  · intro taken
    obtain ⟨y, ⟨member, apart⟩, free⟩ := taken
    have inside := sound.known row y member
    rw [← renumbers.clearRenumbered sound same inside] at free
    exact ⟨place y, ⟨(renumbers.memRow sound inside).mpr member,
      fun here => apart (renumbers.apart y inside x known here)⟩, free⟩

theorem ofLoaded {columns columns' : List (String × Bool)} {rows rows' : List (List Nat)}
    (loaded : first.Loaded columns rows) (loaded' : second.Loaded columns' rows')
    (apart : ∀ x < first.columns.length, ∀ y < first.columns.length, place x = place y → x = y)
    (primaries : second.primaries = first.primaries.map place)
    (perm : ∀ row, (second.columnsOf row).Perm ((first.columnsOf row).map place)) :
    first.Renumbers place second where
  apart := apart
  primaries := primaries
  live x known := by
    have members : ∀ row, row ∈ second.live (place x) ↔ row ∈ first.live x := by
      intro row
      have inRow := loaded.sound.memMapped apart (perm row) known
      constructor
      · exact fun live => loaded.full row x (inRow.mp (loaded'.sound.holds _ row live))
      · exact fun live => loaded'.full row _ (inRow.mpr (loaded.sound.holds x row live))
    -- rows were added in the same order to both, so a column's rows fall in both
    refine List.Perm.eq_of_pairwise (fun row other _ _ above below => ?_) (loaded'.falling _)
      (loaded.falling x)
      ((List.perm_ext_iff_of_nodup (loaded'.sound.once _) (loaded.sound.once x)).mpr members)
    exact absurd above (Nat.lt_asymm below)
  rows := perm

end Sheet.Renumbers

theorem argminMap {α β : Type} {place : α → β} {size : α → Nat} {size' : β → Nat} {items : List α}
    (same : ∀ x ∈ items, size' (place x) = size x) :
    (items.map place).argmin size' = (items.argmin size).map place := by
  induction items using List.reverseRecOn with
  | nil => rfl
  | append_singleton items last ih =>
    have earlier := ih fun x member => same x (List.mem_append_left _ member)
    have here := same last (by simp)
    rw [List.map_append, List.map_singleton, List.argmin_concat, List.argmin_concat, earlier]
    cases least : items.argmin size with
    | none => rfl
    | some x =>
      have there := same x (List.mem_append_left _ (List.argmin_mem least))
      simp only [Option.map_some, here, there]
      split <;> rfl

namespace Roster.InStep

variable {place : Nat → Nat} {first second : Sheet} {covered covered' : List Nat} {roster roster' : Roster}
  {row x : Nat}

theorem pendingMapped (inStep : InStep place first second covered covered' roster roster')
    (renumbers : first.Renumbers place second) : roster'.pending = roster.pending.map place := by
  rw [inStep.remains'.pending, inStep.remains.pending, renumbers.primaries, List.filter_map]
  refine congrArg (List.map place) (List.filter_congr fun x primary => ?_)
  have known := (Sheet.memPrimaries.mp primary).1
  exact decide_eq_decide.mpr (not_congr (inStep.same x known).symm)

theorem liveSame (inStep : InStep place first second covered covered' roster roster')
    (renumbers : first.Renumbers place second) (sound : first.Sound) (known : x < first.columns.length)
    (outside : x ∉ covered) : roster'.live (place x) = roster.live x := by
  rw [inStep.remains.live x outside, inStep.remains'.live _ (mt (inStep.same x known).mpr outside)]
  exact renumbers.clearRenumbered sound inStep.same known

theorem branchMapped (inStep : InStep place first second covered covered' roster roster')
    (renumbers : first.Renumbers place second) (sound : first.Sound) (byFewest : Bool) :
    roster'.branch byFewest = (roster.branch byFewest).map place := by
  unfold Roster.branch
  rw [inStep.pendingMapped renumbers]
  split
  · refine argminMap fun x pending => ?_
    obtain ⟨primary, outside⟩ := inStep.remains.memPending.mp pending
    rw [inStep.liveSame renumbers sound (Sheet.memPrimaries.mp primary).1 outside]
  · rw [List.head?_map]

theorem coverWork (inStep : InStep place first second covered covered' roster roster')
    (renumbers : first.Renumbers place second) (sound : first.Sound) (known : x < first.columns.length)
    (outside : x ∉ covered) : (roster'.cover second (place x)).work = (roster.cover first x).work := by
  simp only [Roster.cover, inStep.work, inStep.liveSame renumbers sound known outside, renumbers.rowLength]

theorem coverSame (inStep : InStep place first second covered covered' roster roster')
    (renumbers : first.Renumbers place second) (known : x < first.columns.length) :
    ∀ y < first.columns.length, y ∈ x :: covered ↔ place y ∈ place x :: covered' := by
  intro y inside
  rw [List.mem_cons, List.mem_cons, inStep.same y inside]
  exact or_congr_left ⟨congrArg place, renumbers.apart y inside x known⟩

theorem commitInStep (inStep : InStep place first second covered covered' roster roster')
    (renumbers : first.Renumbers place second) (sound : first.Sound) (sound' : second.Sound)
    (known : x < first.columns.length) (outside : x ∉ covered) (inPlay : row ∈ roster.live x) (work : Nat) :
    InStep place first second (first.columnsOf row ++ covered) (second.columnsOf row ++ covered')
      (roster.commit first x row work) (roster'.commit second (place x) row work) := by
  have outside' := mt (inStep.same x known).mpr outside
  have inPlay' : row ∈ roster'.live (place x) := (inStep.liveSame renumbers sound known outside).symm ▸ inPlay
  have holds := inStep.remains.within.liveMeets sound inPlay
  have struck := renumbers.struckRenumbered sound sound' (inStep.coverSame renumbers known) holds
  refine ⟨inStep.remains.commitRemains sound outside inPlay work,
    inStep.remains'.commitRemains sound' outside' inPlay' work,
    fun y inside => ?_, ?_⟩
  · rw [List.mem_append, List.mem_append, renumbers.memRow sound inside, inStep.same y inside]
  · rw [inStep.remains.worksRow sound outside inPlay, inStep.remains'.worksRow sound' outside' inPlay', struck,
      renumbers.rowLength]
    simp only [renumbers.rowLength]

end Roster.InStep

def Solution.choice (solution : Solution) : Nat × Nat × List Nat :=
  (solution.number, solution.removals, solution.rows)

structure Yield.Matches (first second : Yield) : Prop where
  solutions : second.solutions.map Solution.choice = first.solutions.map Solution.choice
  work : second.work = first.work

theorem Yield.matchesInTurn {explore explore' : (row found work : Nat) → Yield} {rows : List Nat}
    (each : ∀ row ∈ rows, ∀ found work, (explore row found work).Matches (explore' row found work))
    (found work : Nat) : (inTurn explore rows found work).Matches (inTurn explore' rows found work) := by
  induction rows generalizing found work with
  | nil => exact ⟨rfl, rfl⟩
  | cons row rest ih =>
    obtain ⟨here, spent⟩ := each row List.mem_cons_self found work
    have count : (explore' row found work).solutions.length = (explore row found work).solutions.length := by
      simpa only [List.length_map] using congrArg List.length here
    obtain ⟨later, total⟩ := ih (fun other member => each other (List.mem_cons_of_mem _ member))
      (found + (explore row found work).solutions.length) (explore row found work).work
    simp only [inTurn, followed, count, spent]
    exact ⟨by rw [List.map_append, List.map_append, here, later], total⟩

theorem Roster.InStep.searchMatches {place : Nat → Nat} {first second : Sheet} {covered covered' : List Nat}
    {roster roster' : Roster} (inStep : InStep place first second covered covered' roster roster')
    (renumbers : first.Renumbers place second) (sound : first.Sound) (sound' : second.Sound) (byFewest : Bool)
    (path path' : List (Nat × Nat)) (same : path'.map Prod.fst = path.map Prod.fst) (found : Nat) :
    (roster.search first byFewest path found).Matches (roster'.search second byFewest path' found) := by
  induction path, found, roster using Roster.search.induct first byFewest
    generalizing covered covered' roster' path' with
  | case1 path found roster chosen =>
    have ended : roster'.branch byFewest = none := by
      rw [inStep.branchMapped renumbers sound, chosen]
      rfl
    rw [searchOver chosen, searchOver ended]
    refine ⟨?_, inStep.work⟩
    simp only [List.map_singleton, Solution.choice, Sheet.solution, inStep.work, List.map_reverse, same]
  | case2 path found roster column chosen ih =>
    obtain ⟨primary, outside⟩ := inStep.remains.memPending.mp (branchPending chosen)
    have known := (Sheet.memPrimaries.mp primary).1
    have next : roster'.branch byFewest = some (place column) := by
      rw [inStep.branchMapped renumbers sound, chosen]
      rfl
    rw [searchBranch chosen, searchBranch next, inStep.liveSame renumbers sound known outside,
      inStep.coverWork renumbers sound known outside]
    refine Yield.matchesInTurn (fun row live found work => ?_) found _
    refine ih row found work (inStep.commitInStep renumbers sound sound' known outside live work) _ ?_
    simp only [List.map_cons, same]

theorem Sheet.Renumbers.searchMatches {place : Nat → Nat} {first second : Sheet}
    (renumbers : first.Renumbers place second) (sound : first.Sound) (sound' : second.Sound)
    (byFewest : Bool) :
    (first.search byFewest).Matches (second.search byFewest) := by
  have start : Roster.InStep place first second [] [] first.roster second.roster :=
    ⟨.ofSheet first, .ofSheet second, by simp, rfl⟩
  exact start.searchMatches renumbers sound sound' byFewest [] [] rfl 0

end DancingLinks
