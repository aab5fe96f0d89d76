import DancingLinks.Proofs.Sheet
import DancingLinks.Solution
import Mathlib.Algebra.GroupWithZero.Nat
import Mathlib.Data.List.MinMax

/-! Algorithm X on lists. A roster holds the open primary columns in order of creation, for each
column its live rows, the topmost first, and the work done so far. Covering a column costs one unit
and one more for each other entry of a row live in it; the search covers a column, then for each
live row of it the other columns of the row, cyclically from just after the one branched on. There
is nothing to uncover: a search that returns goes on with the roster it has kept. -/
namespace DancingLinks

def beyond (column : Nat) (columns : List Nat) : List Nat :=
  (columns.dropWhile (· != column)).tail ++ columns.takeWhile (· != column)

structure Roster where
  pending : List Nat
  live : Nat → List Nat
  work : Nat

def Sheet.solution (sheet : Sheet) (path : List (Nat × Nat)) (number removals : Nat) : Solution where
  number := number
  removals := removals
  rows := path.reverse.map Prod.fst
  columns := path.reverse.map fun (row, column) =>
    (column :: beyond column (sheet.columnsOf row)).map sheet.nameOf

def Sheet.roster (sheet : Sheet) : Roster := ⟨sheet.primaries, sheet.live, 0⟩

structure Yield where
  solutions : List Solution
  work : Nat

def Yield.followed (here : Yield) (found : Nat) (next : (found work : Nat) → Yield) : Yield :=
  let later := next (found + here.solutions.length) here.work
  ⟨here.solutions ++ later.solutions, later.work⟩

def Yield.inTurn (explore : (row found work : Nat) → Yield) : List Nat → (found work : Nat) → Yield
  | [], _, work => ⟨[], work⟩
  | row :: rest, found, work => (explore row found work).followed found (inTurn explore rest)

theorem Yield.followedAssoc (here : Yield) (found : Nat) (next last : Nat → Nat → Yield) :
    (here.followed found next).followed found last =
      here.followed found fun found work => (next found work).followed found last := by
  simp [followed, Nat.add_assoc]

namespace Roster

def cover (sheet : Sheet) (roster : Roster) (column : Nat) : Roster where
  pending := roster.pending.filter (· ≠ column)
  live other :=
    if other = column then roster.live other
    else (roster.live other).filter (· ∉ roster.live column)
  work := roster.work + 1 +
    ((roster.live column).map fun row => (sheet.columnsOf row).length - 1).sum

def coverEach (sheet : Sheet) (roster : Roster) (columns : List Nat) : Roster :=
  columns.foldl (cover sheet) roster

def commit (sheet : Sheet) (roster : Roster) (column row work : Nat) : Roster :=
  ({ roster.cover sheet column with work }).coverEach sheet (beyond column (sheet.columnsOf row))

def branch (roster : Roster) (byFewest : Bool) : Option Nat :=
  if byFewest then roster.pending.argmin fun column => (roster.live column).length
  else roster.pending.head?

variable {sheet : Sheet} {roster : Roster} {byFewest : Bool} {column : Nat}

theorem branchPending (chosen : roster.branch byFewest = some column) : column ∈ roster.pending := by
  unfold branch at chosen
  split at chosen
  · exact List.argmin_mem chosen
  · exact List.mem_of_head? chosen

theorem branchNone (ended : roster.branch byFewest = none) : roster.pending = [] := by
  unfold branch at ended
  split at ended
  · exact List.argmin_eq_none.mp ended
  · exact List.head?_eq_none_iff.mp ended

theorem pendingCovered (sheet : Sheet) (roster : Roster) (columns : List Nat) :
    (roster.coverEach sheet columns).pending = roster.pending.filter (· ∉ columns) := by
  induction columns generalizing roster with
  | nil => simp [coverEach]
  | cons column rest ih =>
    have step := ih (roster.cover sheet column)
    simp only [coverEach, List.foldl_cons] at step ⊢
    rw [step, cover, List.filter_filter]
    refine List.filter_congr fun y _ => ?_
    simp only [List.mem_cons, not_or, Bool.decide_and]
    exact Bool.and_comm ..

theorem commitShortens (open_ : column ∈ roster.pending) (row work : Nat) :
    (roster.commit sheet column row work).pending.length < roster.pending.length := by
  rw [commit, pendingCovered]
  have shorter : (roster.pending.filter (· ≠ column)).length < roster.pending.length :=
    List.length_filter_lt_length_iff_exists.mpr ⟨column, open_, by simp⟩
  exact Nat.lt_of_le_of_lt (List.length_filter_le _ _) shorter

def search (sheet : Sheet) (byFewest : Bool) (path : List (Nat × Nat)) (found : Nat)
    (roster : Roster) : Yield :=
  match _chosen : roster.branch byFewest with
  | none => ⟨[sheet.solution path (found + 1) roster.work], roster.work⟩
  | some column =>
    Yield.inTurn (fun row found work =>
      search sheet byFewest ((row, column) :: path) found (roster.commit sheet column row work))
      (roster.live column) found (roster.cover sheet column).work
termination_by roster.pending.length
decreasing_by exact commitShortens (branchPending _chosen) ..

theorem searchOver (ended : roster.branch byFewest = none) (path : List (Nat × Nat)) (found : Nat) :
    search sheet byFewest path found roster =
      ⟨[sheet.solution path (found + 1) roster.work], roster.work⟩ := by
  rw [search]
  split
  · rfl
  · rename_i chosen
    rw [ended] at chosen
    cases chosen

theorem searchBranch (chosen : roster.branch byFewest = some column) (path : List (Nat × Nat))
    (found : Nat) :
    search sheet byFewest path found roster =
      Yield.inTurn (fun row found work =>
        search sheet byFewest ((row, column) :: path) found (roster.commit sheet column row work))
        (roster.live column) found (roster.cover sheet column).work := by
  rw [search]
  split
  · rename_i ended
    rw [chosen] at ended
    cases ended
  · rename_i other same
    rw [chosen] at same
    cases same
    rfl

end Roster

def Sheet.search (sheet : Sheet) (byFewest : Bool) : Yield :=
  sheet.roster.search sheet byFewest [] 0

end DancingLinks
