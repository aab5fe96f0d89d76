import DancingLinks.Proofs.CoveredRoster
import Mathlib.Data.Finset.Basic
import Mathlib.Data.Finset.Dedup
import Mathlib.Data.Finset.Image

/-! The search on lists finds every exact cover once. With a set of columns covered, the rows still to be
chosen complete a choice if they leave those columns alone and cover every other primary column. Either
no primary column is left and only the empty choice will do, or the column branched on is covered by one
row of the choice, which has to be live there, and the others complete what this row leaves. -/
namespace DancingLinks

structure Sheet.Completes (sheet : Sheet) (covered : List Nat) (rows : Finset Nat) : Prop where
  enabled : ∀ row ∈ rows, sheet.isEnabled row = true
  free : ∀ row ∈ rows, ∀ y ∈ sheet.columnsOf row, y ∉ covered
  apart : ∀ row ∈ rows, ∀ other ∈ rows, ∀ y ∈ sheet.columnsOf row, y ∈ sheet.columnsOf other → row = other
  useful : ∀ row ∈ rows, ∃ y ∈ sheet.columnsOf row, y ∈ sheet.primaries
  whole : ∀ y ∈ sheet.primaries, y ∉ covered → ∃ row ∈ rows, y ∈ sheet.columnsOf row

/-- The lists are those sets, each of them listed once and without a repetition. -/
structure Exhausts {α : Type} [DecidableEq α] (wanted : Finset α → Prop) (lists : List (List α)) :
    Prop where
  distinct : ∀ rows ∈ lists, rows.Nodup
  once : (lists.map List.toFinset).Nodup
  exact : ∀ rows, rows ∈ lists.map List.toFinset ↔ wanted rows

namespace Exhausts

variable {wanted other : Finset Nat → Prop} {lists others : List (List Nat)} {row : Nat}

theorem congr (exhausts : Exhausts wanted lists) (same : ∀ rows, wanted rows ↔ other rows) :
    Exhausts other lists :=
  ⟨exhausts.distinct, exhausts.once, fun rows => (exhausts.exact rows).trans (same rows)⟩

theorem exhaustsNone : Exhausts (fun _ : Finset Nat => False) [] := by
  refine ⟨?_, ?_, ?_⟩ <;> simp

theorem exhaustsEmpty : Exhausts (fun rows : Finset Nat => rows = ∅) [[]] := by
  refine ⟨?_, ?_, ?_⟩ <;> simp

theorem exhaustsChoice (exhausts : Exhausts wanted lists) (later : Exhausts other others)
    (fresh : ∀ rows, wanted rows → row ∉ rows) (without : ∀ rows, other rows → row ∉ rows) :
    Exhausts (fun rows => (row ∈ rows ∧ wanted (rows.erase row)) ∨ other rows)
      (lists.map (row :: ·) ++ others) := by
  have absent : ∀ rows ∈ lists, row ∉ rows.toFinset := fun rows member =>
    fresh _ ((exhausts.exact _).mp (List.mem_map_of_mem member))
  have chosen : ∀ rows, rows ∈ (lists.map (row :: ·)).map List.toFinset ↔
      row ∈ rows ∧ wanted (rows.erase row) := by
    intro rows
    simp only [List.map_map, List.mem_map, Function.comp, List.toFinset_cons]
    constructor
    · intro listed
      obtain ⟨list, member, rfl⟩ := listed
      refine ⟨Finset.mem_insert_self .., ?_⟩
      rw [Finset.erase_insert (absent list member)]
      exact (exhausts.exact _).mp (List.mem_map_of_mem member)
    · intro chosen
      obtain ⟨there, rest⟩ := chosen
      obtain ⟨list, member, same⟩ := List.mem_map.mp ((exhausts.exact _).mpr rest)
      exact ⟨list, member, by rw [same, Finset.insert_erase there]⟩
  refine ⟨?_, ?_, ?_⟩
  · intro rows member
    rcases List.mem_append.mp member with first | second
    · obtain ⟨list, inside, rfl⟩ := List.mem_map.mp first
      exact List.nodup_cons.mpr ⟨by simpa using absent list inside, exhausts.distinct list inside⟩
    · exact later.distinct rows second
  · rw [List.map_append]
    refine List.nodup_append.mpr ⟨?_, later.once, ?_⟩
    · -- taking the row out again gives back the sets that the lists stand for
      have back : ((lists.map (row :: ·)).map List.toFinset).map (·.erase row) =
          lists.map List.toFinset := by
        simp only [List.map_map]
        refine List.map_congr_left fun list member => ?_
        simp only [Function.comp, List.toFinset_cons]
        exact Finset.erase_insert (absent list member)
      exact List.Nodup.of_map _ (back ▸ exhausts.once)
    · intro first inFirst second inSecond same
      subst same
      exact without _ ((later.exact _).mp inSecond) ((chosen _).mp inFirst).1
  · intro rows
    rw [List.map_append, List.mem_append, chosen, later.exact]

theorem exhaustsImage {α β : Type} [DecidableEq α] [DecidableEq β] {wanted : Finset α → Prop}
    {other : Finset β → Prop} {lists : List (List α)} (exhausts : Exhausts wanted lists) {f : α → β}
    {inside : Finset α} (single : Set.InjOn f inside) (within : ∀ set, wanted set → set ⊆ inside)
    (same : ∀ image, other image ↔ ∃ set, wanted set ∧ set.image f = image) :
    Exhausts other (lists.map (·.map f)) := by
  have listed : ∀ list ∈ lists, list.toFinset ⊆ inside := fun list member =>
    within _ ((exhausts.exact _).mp (List.mem_map_of_mem member))
  have images : (lists.map (·.map f)).map List.toFinset = (lists.map List.toFinset).map (·.image f) := by
    simp only [List.map_map]
    refine List.map_congr_left fun list _ => ?_
    ext b
    simp
  refine ⟨?_, ?_, ?_⟩
  · intro names member
    obtain ⟨list, there, rfl⟩ := List.mem_map.mp member
    refine List.Nodup.map_on (fun a inA b inB => ?_) (exhausts.distinct list there)
    exact single (listed list there (List.mem_toFinset.mpr inA))
      (listed list there (List.mem_toFinset.mpr inB))
  · rw [images]
    refine List.Nodup.map_on (fun first inFirst second inSecond same => ?_) exhausts.once
    have first := within _ ((exhausts.exact first).mp inFirst)
    have second := within _ ((exhausts.exact second).mp inSecond)
    exact (Finset.image_eq_image_iff_of_injOn single first second).mp same
  · intro image
    rw [images, same, List.mem_map]
    exact exists_congr fun set => and_congr_left fun _ => exhausts.exact set

end Exhausts

namespace Sheet.Completes

variable {sheet : Sheet} {covered : List Nat} {rows : Finset Nat} {row column : Nat}

theorem completesCovered (done : ∀ y ∈ sheet.primaries, y ∈ covered) :
    sheet.Completes covered rows ↔ rows = ∅ := by
  constructor
  · intro completes
    refine Finset.eq_empty_of_forall_notMem fun row member => ?_
    obtain ⟨y, inRow, primary⟩ := completes.useful row member
    exact completes.free row member y inRow (done y primary)
  · intro same
    subst same
    refine ⟨?_, ?_, ?_, ?_, fun y primary outside => absurd (done y primary) outside⟩ <;> simp

theorem withoutRow (completes : sheet.Completes covered rows) (member : row ∈ rows) :
    sheet.Completes (sheet.columnsOf row ++ covered) (rows.erase row) where
  enabled other inside := completes.enabled other (Finset.mem_of_mem_erase inside)
  free other inside y inOther hit := by
    obtain ⟨different, inside⟩ := Finset.mem_erase.mp inside
    rcases List.mem_append.mp hit with inRow | hit
    · exact different (completes.apart other inside row member y inOther inRow)
    · exact completes.free other inside y inOther hit
  apart first inFirst second inSecond :=
    completes.apart first (Finset.mem_of_mem_erase inFirst) second (Finset.mem_of_mem_erase inSecond)
  useful other inside := completes.useful other (Finset.mem_of_mem_erase inside)
  whole y primary outside := by
    obtain ⟨apart, free⟩ := not_or.mp (mt List.mem_append.mpr outside)
    obtain ⟨other, inside, inOther⟩ := completes.whole y primary free
    exact ⟨other, Finset.mem_erase.mpr ⟨fun same => apart (same ▸ inOther), inside⟩, inOther⟩

theorem withRow (completes : sheet.Completes (sheet.columnsOf row ++ covered) (rows.erase row))
    (member : row ∈ rows) (enabled : sheet.isEnabled row = true)
    (free : ∀ y ∈ sheet.columnsOf row, y ∉ covered) (useful : ∃ y ∈ sheet.columnsOf row, y ∈ sheet.primaries) :
    sheet.Completes covered rows := by
  have others : ∀ other ∈ rows, other = row ∨ other ∈ rows.erase row := fun other inside =>
    (em (other = row)).imp_right fun different => Finset.mem_erase.mpr ⟨different, inside⟩
  have clear : ∀ other ∈ rows.erase row, ∀ y ∈ sheet.columnsOf other,
      y ∉ sheet.columnsOf row ∧ y ∉ covered := fun other inside y inOther =>
    not_or.mp (mt List.mem_append.mpr (completes.free other inside y inOther))
  refine ⟨?_, ?_, ?_, ?_, ?_⟩
  · intro other inside
    rcases others other inside with rfl | rest
    · exact enabled
    · exact completes.enabled other rest
  · intro other inside
    rcases others other inside with rfl | rest
    · exact free
    · exact fun y inOther => (clear other rest y inOther).2
  · intro first inFirst second inSecond y here there
    rcases others first inFirst with rfl | rest <;> rcases others second inSecond with rfl | rest'
    · rfl
    · exact absurd here (clear second rest' y there).1
    · exact absurd there (clear first rest y here).1
    · exact completes.apart first rest second rest' y here there
  · intro other inside
    rcases others other inside with rfl | rest
    · exact useful
    · exact completes.useful other rest
  · intro y primary outside
    by_cases inRow : y ∈ sheet.columnsOf row
    · exact ⟨row, member, inRow⟩
    · obtain ⟨other, rest, inOther⟩ := completes.whole y primary fun hit =>
        (List.mem_append.mp hit).elim inRow outside
      exact ⟨other, Finset.mem_of_mem_erase rest, inOther⟩

end Sheet.Completes

theorem Yield.inTurnExhausts {explore : Nat → Nat → Nat → Yield} {chosen : List Nat}
    {wanted : Nat → Finset Nat → Prop} {rows : List Nat}
    (each : ∀ row ∈ rows, ∀ found work, ∃ lists, (explore row found work).solutions.map Solution.rows =
      lists.map ((chosen ++ [row]) ++ ·) ∧ Exhausts (wanted row) lists)
    (distinct : rows.Nodup)
    (apart : ∀ row ∈ rows, ∀ choice, wanted row choice → ∀ other ∈ rows, other ∉ choice)
    (found work : Nat) :
    ∃ lists, (inTurn explore rows found work).solutions.map Solution.rows = lists.map (chosen ++ ·) ∧
      Exhausts (fun choice => ∃ row ∈ rows, row ∈ choice ∧ wanted row (Finset.erase choice row)) lists := by
  induction rows generalizing found work with
  | nil => exact ⟨[], rfl, Exhausts.exhaustsNone.congr (by simp)⟩
  | cons row rest ih =>
    obtain ⟨fresh, distinct⟩ := List.nodup_cons.mp distinct
    obtain ⟨lists, here, exhausts⟩ := each row List.mem_cons_self found work
    obtain ⟨others, there, later⟩ := ih (fun other member => each other (List.mem_cons_of_mem _ member))
      distinct (fun other member choice wanted last inside =>
        apart other (List.mem_cons_of_mem _ member) choice wanted last (List.mem_cons_of_mem _ inside))
      (found + (explore row found work).solutions.length) (explore row found work).work
    have absent : ∀ choice, wanted row choice → row ∉ choice := fun choice wanted =>
      apart row List.mem_cons_self choice wanted row List.mem_cons_self
    have without : ∀ choice, (∃ other ∈ rest, other ∈ choice ∧ wanted other (Finset.erase choice other)) →
        row ∉ choice := by
      intro choice later inside
      obtain ⟨other, member, -, wanted⟩ := later
      have different : row ≠ other := fun same => fresh (same ▸ member)
      exact apart other (List.mem_cons_of_mem _ member) _ wanted row List.mem_cons_self
        (Finset.mem_erase.mpr ⟨different, inside⟩)
    refine ⟨lists.map (row :: ·) ++ others, ?_, (exhausts.exhaustsChoice later absent without).congr (by simp)⟩
    rw [inTurn, followed, List.map_append, here, there, List.map_append, List.map_map]
    simp

namespace Roster

variable {sheet : Sheet} {covered : List Nat} {roster : Roster} {rows : Finset Nat} {row column : Nat}

theorem Remains.completesByRow (remains : roster.Remains sheet covered) (sound : sheet.Sound)
    (pending : column ∈ roster.pending) : sheet.Completes covered rows ↔
      ∃ row ∈ roster.live column, row ∈ rows ∧
        sheet.Completes (sheet.columnsOf row ++ covered) (rows.erase row) := by
  obtain ⟨primary, outside⟩ := remains.memPending.mp pending
  constructor
  · intro completes
    obtain ⟨row, member, inRow⟩ := completes.whole column primary outside
    have inPlay := (sound.enabledIff inRow).mp (completes.enabled row member)
    exact ⟨row, (remains.memLive outside).mpr ⟨inPlay, completes.free row member⟩, member,
      completes.withoutRow member⟩
  · intro chosen
    obtain ⟨row, live, member, completes⟩ := chosen
    obtain ⟨inPlay, free⟩ := (remains.memLive outside).mp live
    have inRow := sound.holds column row inPlay
    exact completes.withRow member ((sound.enabledIff inRow).mpr inPlay) free ⟨column, inRow, primary⟩

theorem searchExhausts (sound : sheet.Sound) (remains : roster.Remains sheet covered) (byFewest : Bool)
    (path : List (Nat × Nat)) (found : Nat) :
    ∃ lists, (roster.search sheet byFewest path found).solutions.map Solution.rows =
      lists.map (path.reverse.map Prod.fst ++ ·) ∧ Exhausts (sheet.Completes covered) lists := by
  induction path, found, roster using Roster.search.induct sheet byFewest generalizing covered with
  | case1 path found roster chosen =>
    have done : ∀ y ∈ sheet.primaries, y ∈ covered := by
      intro y primary
      by_contra outside
      have pending := remains.memPending.mpr ⟨primary, outside⟩
      rw [branchNone chosen] at pending
      cases pending
    refine ⟨[[]], ?_, Exhausts.exhaustsEmpty.congr fun rows => (Sheet.Completes.completesCovered done).symm⟩
    rw [searchOver chosen]
    simp [Sheet.solution]
  | case2 path found roster column chosen ih =>
    have pending := branchPending chosen
    have outside := (remains.memPending.mp pending).2
    have holds : ∀ row ∈ roster.live column, column ∈ sheet.columnsOf row := fun row live =>
      remains.within.liveMeets sound live
    have apart : ∀ row ∈ roster.live column, ∀ choice,
      sheet.Completes (sheet.columnsOf row ++ covered) choice →
        ∀ other ∈ roster.live column, other ∉ choice := by
      intro row live choice completes other there inside
      exact completes.free other inside column (holds other there)
        (List.mem_append_left _ (holds row live))
    have each : ∀ row ∈ roster.live column, ∀ found work, ∃ lists,
        (search sheet byFewest ((row, column) :: path) found
          (roster.commit sheet column row work)).solutions.map Solution.rows =
            lists.map ((path.reverse.map Prod.fst ++ [row]) ++ ·) ∧
        Exhausts (sheet.Completes (sheet.columnsOf row ++ covered)) lists := by
      intro row live found work
      have below := ih row found work (remains.commitRemains sound outside live work)
      simpa only [List.reverse_cons, List.map_append, List.map_singleton] using below
    rw [searchBranch chosen]
    obtain ⟨lists, rows, exhausts⟩ := Yield.inTurnExhausts each
      (remains.within.liveDistinct sound column) apart found
      (roster.cover sheet column).work
    exact ⟨lists, rows, exhausts.congr fun choice => (remains.completesByRow sound pending).symm⟩

end Roster

theorem Sheet.Sound.searchExhausts {sheet : Sheet} (sound : sheet.Sound) (byFewest : Bool) :
    Exhausts (sheet.Completes []) ((sheet.search byFewest).solutions.map Solution.rows) := by
  obtain ⟨lists, rows, exhausts⟩ := Roster.searchExhausts sound (.ofSheet sheet) byFewest [] 0
  rw [Sheet.search, rows]
  simpa using exhausts

end DancingLinks
