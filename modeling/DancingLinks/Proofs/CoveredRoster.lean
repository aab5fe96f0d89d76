import DancingLinks.Proofs.Roster
import Mathlib.Data.List.Flatten

/-! What a set of covered columns leaves of a matrix: the primary columns outside the set, and in
every column outside it the rows in play that have no column of the set. Covering one more column
keeps this form, whatever the columns covered before it and their order. A row live in a column that
is not covered is live in all its columns, none of which is covered. -/
namespace DancingLinks

theorem beyondSplit {column : Nat} {before after : List Nat} (first : column ∉ before) :
    beyond column (before ++ column :: after) = after ++ before := by
  have passes : ∀ y ∈ before, (y != column) = true := by
    intro y member
    simpa using fun same : y = column => first (same ▸ member)
  simp [beyond, List.dropWhile_append_of_pos passes, List.takeWhile_append_of_pos passes]

theorem beyondFirst (column : Nat) (rest : List Nat) : beyond column (column :: rest) = rest :=
  (beyondSplit List.not_mem_nil).trans (List.append_nil rest)

theorem beyondPerm {column : Nat} {columns : List Nat} (member : column ∈ columns) :
    (column :: beyond column columns).Perm columns := by
  obtain ⟨before, after, rfl, first⟩ := List.eq_append_cons_of_mem member
  rw [beyondSplit first]
  exact (List.perm_append_comm.cons column).trans List.perm_middle.symm

theorem memBeyond {column y : Nat} {columns : List Nat} (distinct : columns.Nodup)
    (member : column ∈ columns) : y ∈ beyond column columns ↔ y ∈ columns ∧ y ≠ column := by
  have perm := beyondPerm member
  have fresh := (List.nodup_cons.mp (perm.nodup_iff.mpr distinct)).1
  rw [← perm.mem_iff, List.mem_cons]
  constructor
  · exact fun inside => ⟨Or.inr inside, fun same => fresh (same ▸ inside)⟩
  · intro member
    obtain ⟨same | inside, other⟩ := member
    · exact absurd same other
    · exact inside

theorem beyondNodup {column : Nat} {columns : List Nat} (distinct : columns.Nodup)
    (member : column ∈ columns) : (beyond column columns).Nodup :=
  (List.nodup_cons.mp ((beyondPerm member).nodup_iff.mpr distinct)).2

theorem beyondLength {column : Nat} {columns : List Nat} (member : column ∈ columns) :
    (beyond column columns).length = columns.length - 1 := by
  have length := (beyondPerm member).length_eq
  simp only [List.length_cons] at length
  omega

theorem filterSplit {x : Nat} {xs ys : List Nat} (distinct : (xs ++ x :: ys).Nodup) :
    (xs ++ x :: ys).filter (· ≠ x) = xs ++ ys := by
  obtain ⟨fresh, -⟩ := List.nodup_cons.mp (List.nodup_middle.mp distinct)
  have kept : (xs ++ ys).filter (· ≠ x) = xs ++ ys :=
    List.filter_eq_self.mpr fun y member => by simpa using fun same : y = x => fresh (same ▸ member)
  rw [List.filter_append] at kept ⊢
  simpa using kept

namespace Roster

def Within (sheet : Sheet) (roster : Roster) : Prop :=
  ∀ column, (roster.live column).Sublist (sheet.live column)

structure Remains (sheet : Sheet) (covered : List Nat) (roster : Roster) : Prop where
  pending : roster.pending = sheet.primaries.filter (· ∉ covered)
  live : ∀ column ∉ covered, roster.live column =
    (sheet.live column).filter fun row => ∀ y ∈ sheet.columnsOf row, y ∉ covered
  within : roster.Within sheet

def besides (sheet : Sheet) (roster : Roster) (column : Nat) : List (Nat × Nat) :=
  (roster.live column).flatMap fun row =>
    (beyond column (sheet.columnsOf row)).map fun y => (row, y)

def close (roster : Roster) (column : Nat) : Roster :=
  { roster with pending := roster.pending.filter (· ≠ column), work := roster.work + 1 }

def strike (roster : Roster) (gone : List (Nat × Nat)) : Roster :=
  { roster with
    live := fun column => (roster.live column).filter fun row => (row, column) ∉ gone
    work := roster.work + gone.length }

variable {sheet : Sheet} {covered : List Nat} {roster : Roster} {row column y : Nat}

theorem strikeNone (roster : Roster) : roster.strike [] = roster := by
  simp [strike]

theorem strikeCons (roster : Roster) (entry : Nat × Nat) (rest : List (Nat × Nat)) :
    (roster.strike [entry]).strike rest = roster.strike (entry :: rest) := by
  simp only [strike, List.filter_filter, List.length_cons, List.length_nil, Roster.mk.injEq, true_and]
  refine ⟨?_, by omega⟩
  funext column
  refine List.filter_congr fun row _ => ?_
  rw [Bool.and_comm]
  simp

namespace Within

theorem liveDistinct (within : roster.Within sheet) (sound : sheet.Sound) (column : Nat) :
    (roster.live column).Nodup := (sound.once column).sublist (within column)

theorem liveMeets (within : roster.Within sheet) (sound : sheet.Sound)
    (live : row ∈ roster.live column) : column ∈ sheet.columnsOf row :=
  sound.holds column row ((within column).mem live)

theorem strikeWithin (within : roster.Within sheet) (gone : List (Nat × Nat)) :
    (roster.strike gone).Within sheet := fun column => List.filter_sublist.trans (within column)

end Within

namespace Remains

theorem ofSheet (sheet : Sheet) : sheet.roster.Remains sheet [] where
  pending := by simp [Sheet.roster]
  live := by simp [Sheet.roster]
  within column := List.Sublist.refl _

theorem withWork (remains : roster.Remains sheet covered) (work : Nat) :
    ({ roster with work }).Remains sheet covered := ⟨remains.pending, remains.live, remains.within⟩

theorem congr {covered' : List Nat} (remains : roster.Remains sheet covered)
    (same : ∀ y, y ∈ covered ↔ y ∈ covered') : roster.Remains sheet covered' where
  pending := by simpa only [same] using remains.pending
  live column outside := by
    simpa only [same] using remains.live column (fun inside => outside ((same column).mp inside))
  within := remains.within

theorem memLive (remains : roster.Remains sheet covered) (outside : column ∉ covered) :
    row ∈ roster.live column ↔
      row ∈ sheet.live column ∧ ∀ y ∈ sheet.columnsOf row, y ∉ covered := by
  rw [remains.live column outside, List.mem_filter, decide_eq_true_iff]

theorem memPending (remains : roster.Remains sheet covered) : column ∈ roster.pending ↔
    column ∈ sheet.primaries ∧ column ∉ covered := by
  rw [remains.pending, List.mem_filter, decide_eq_true_iff]

theorem pendingOnce (remains : roster.Remains sheet covered) : roster.pending.Nodup := by
  rw [remains.pending]
  exact (List.nodup_range.filter _).filter _

theorem liveEverywhere (remains : roster.Remains sheet covered) (sound : sheet.Sound)
    (outside : column ∉ covered) (live : row ∈ roster.live column)
    (member : y ∈ sheet.columnsOf row) : y ∉ covered ∧ row ∈ roster.live y := by
  obtain ⟨inPlay, free⟩ := (remains.memLive outside).mp live
  exact ⟨free y member,
    (remains.memLive (free y member)).mpr ⟨sound.whole column row inPlay y member, free⟩⟩

theorem coverRemains (remains : roster.Remains sheet covered) (sound : sheet.Sound)
    (outside : column ∉ covered) : (roster.cover sheet column).Remains sheet (column :: covered) where
  pending := by
    simp only [Roster.cover, remains.pending, List.filter_filter]
    refine List.filter_congr fun y _ => ?_
    simp
  live y apart := by
    obtain ⟨other, free⟩ := not_or.mp (mt List.mem_cons.mpr apart)
    simp only [Roster.cover, if_neg other, remains.live y free, List.filter_filter]
    refine List.filter_congr fun row inPlay => ?_
    -- a row is live in the new column exactly if it has this column and was free before
    have holds : row ∈ sheet.live column ↔ column ∈ sheet.columnsOf row :=
      ⟨sound.holds column row, sound.whole y row inPlay column⟩
    rw [← Bool.decide_and, decide_eq_decide, remains.memLive outside, holds]
    constructor
    · intro free z inRow hit
      obtain ⟨absent, clear⟩ := free
      rcases List.mem_cons.mp hit with rfl | hit
      · exact absent ⟨inRow, clear⟩
      · exact clear z inRow hit
    · intro clear
      exact ⟨fun present => clear column present.1 List.mem_cons_self,
        fun z inRow hit => clear z inRow (List.mem_cons_of_mem _ hit)⟩
  within y := by
    simp only [Roster.cover]
    split
    · exact remains.within y
    · exact List.filter_sublist.trans (remains.within y)

theorem coverEach (remains : roster.Remains sheet covered) (sound : sheet.Sound)
    {columns : List Nat} (distinct : columns.Nodup) (outside : ∀ y ∈ columns, y ∉ covered) :
    (roster.coverEach sheet columns).Remains sheet (columns.reverse ++ covered) := by
  induction columns generalizing roster covered with
  | nil => simpa [Roster.coverEach] using remains
  | cons column rest ih =>
    obtain ⟨fresh, distinct⟩ := List.nodup_cons.mp distinct
    obtain ⟨clear, outside⟩ := List.forall_mem_cons.mp outside
    have still : ∀ y ∈ rest, y ∉ column :: covered := fun _ member hit =>
      List.disjoint_cons_right.mpr ⟨fresh, fun y => outside y⟩ member hit
    rw [List.reverse_cons, List.append_assoc]
    exact ih (remains.coverRemains sound clear) distinct still

theorem beyondFree (remains : roster.Remains sheet covered) (sound : sheet.Sound)
    (outside : column ∉ covered) (live : row ∈ roster.live column) :
    ∀ y ∈ beyond column (sheet.columnsOf row), y ∉ column :: covered := by
  intro y inside hit
  have holds := remains.within.liveMeets sound live
  obtain ⟨inRow, other⟩ := (memBeyond (sound.distinct row) holds).mp inside
  rcases List.mem_cons.mp hit with same | hit
  · exact other same
  · exact (remains.liveEverywhere sound outside live inRow).1 hit

theorem commitRemainsReversed (remains : roster.Remains sheet covered) (sound : sheet.Sound)
    (outside : column ∉ covered) (live : row ∈ roster.live column) (work : Nat) :
    (roster.commit sheet column row work).Remains sheet
      ((beyond column (sheet.columnsOf row)).reverse ++ column :: covered) :=
  ((remains.coverRemains sound outside).withWork work).coverEach sound
    (beyondNodup (sound.distinct row) (remains.within.liveMeets sound live))
    (remains.beyondFree sound outside live)

theorem commitRemains (remains : roster.Remains sheet covered) (sound : sheet.Sound)
    (outside : column ∉ covered) (live : row ∈ roster.live column) (work : Nat) :
    (roster.commit sheet column row work).Remains sheet (sheet.columnsOf row ++ covered) := by
  have holds := remains.within.liveMeets sound live
  refine (remains.commitRemainsReversed sound outside live work).congr fun y => ?_
  have around : y ∈ column :: beyond column (sheet.columnsOf row) ↔ y ∈ sheet.columnsOf row :=
    (beyondPerm holds).mem_iff
  rw [List.mem_append, List.mem_append, ← around]
  simp [or_assoc, or_left_comm]

theorem besidesLive (remains : roster.Remains sheet covered) (sound : sheet.Sound)
    (outside : column ∉ covered) {entry : Nat × Nat} (member : entry ∈ roster.besides sheet column) :
    entry.1 ∈ roster.live entry.2 ∧ entry.2 ≠ column := by
  simp only [besides, List.mem_flatMap, List.mem_map] at member
  obtain ⟨row, live, y, inside, rfl⟩ := member
  have there := remains.within.liveMeets sound live
  obtain ⟨inRow, other⟩ := (memBeyond (sound.distinct row) there).mp inside
  exact ⟨(remains.liveEverywhere sound outside live inRow).2, other⟩

theorem besidesNodup (remains : roster.Remains sheet covered) (sound : sheet.Sound) (column : Nat) :
    (roster.besides sheet column).Nodup := by
  refine List.nodup_flatMap.mpr ⟨fun row live => ?_, ?_⟩
  · have fresh := beyondNodup (sound.distinct row) (remains.within.liveMeets sound live)
    exact fresh.map fun a b same => (Prod.mk.inj same).2
  · refine (remains.within.liveDistinct sound column).imp fun {first second} different => ?_
    intro entry inFirst inSecond
    obtain ⟨_, _, rfl⟩ := List.mem_map.mp inFirst
    obtain ⟨_, _, same⟩ := List.mem_map.mp inSecond
    exact different (Prod.mk.inj same).1.symm

theorem coverStrikes (remains : roster.Remains sheet covered) (sound : sheet.Sound)
    (column : Nat) :
    (roster.close column).strike (roster.besides sheet column) = roster.cover sheet column := by
  have struck : ∀ row y, y ∈ sheet.columnsOf row →
      ((row, y) ∈ roster.besides sheet column ↔ row ∈ roster.live column ∧ y ≠ column) := by
    intro row y inRow
    simp only [besides, List.mem_flatMap, List.mem_map, Prod.mk.injEq]
    constructor
    · intro beside
      obtain ⟨other, live, z, inside, rfl, rfl⟩ := beside
      exact ⟨live, ((memBeyond (sound.distinct other) (remains.within.liveMeets sound live)).mp inside).2⟩
    · intro kept
      obtain ⟨live, other⟩ := kept
      exact ⟨row, live, y, (memBeyond (sound.distinct row) (remains.within.liveMeets sound live)).mpr
        ⟨inRow, other⟩, rfl, rfl⟩
  have length : (roster.besides sheet column).length =
      ((roster.live column).map fun row => (sheet.columnsOf row).length - 1).sum := by
    rw [besides, List.length_flatMap]
    refine congrArg List.sum (List.map_congr_left fun row live => ?_)
    rw [List.length_map, beyondLength (remains.within.liveMeets sound live)]
  simp only [strike, close, Roster.cover, length, Roster.mk.injEq, true_and, and_true]
  funext y
  split
  · rename_i same
    subst same
    refine List.filter_eq_self.mpr fun row live => ?_
    simp [struck row y (remains.within.liveMeets sound live)]
  · rename_i other
    refine List.filter_congr fun row live => ?_
    simp [struck row y (remains.within.liveMeets sound live), other]

end Remains

end Roster

end DancingLinks
