import DancingLinks.Torus.Basic
import Mathlib.Data.List.Chain
import Mathlib.Data.List.Nodup
import Mathlib.Logic.Function.Basic

/-! Rings as lists. The links of one axis are two functions on sites, one leading on and one
leading back. A loop is a list of sites that leading on visits in order until it is back at its
start, and leading back in the opposite order. Taking a site out and putting one in are stated for
the links alone; nothing is said about the arena that holds them. -/
namespace DancingLinks
open Function (update)

def Joined (next back : Site → Site) (a b : Site) : Prop := next a = b ∧ back b = a

def Loop (next back : Site → Site) (start : Site) (others : List Site) : Prop :=
  List.IsChain (Joined next back) (start :: (others ++ [start]))

theorem stretchKept {next back next' back' : Site → Site} {sites : List Site}
    (chain : List.IsChain (Joined next back) sites) (distinct : sites.Nodup)
    (onward : ∀ site ∈ sites, sites.getLast? ≠ some site → next' site = next site)
    (backward : ∀ site ∈ sites, sites.head? ≠ some site → back' site = back site) :
    List.IsChain (Joined next' back') sites := by
  rw [List.isChain_iff_getElem] at chain ⊢
  intro i bound
  have joined := chain i bound
  have notLast : sites.getLast? ≠ some sites[i] := by
    rw [List.getLast?_eq_getElem?, List.getElem?_eq_getElem (by omega), Ne, Option.some_inj,
      distinct.getElem_inj_iff]
    omega
  have notFirst : sites.head? ≠ some sites[i + 1] := by
    rw [List.head?_eq_getElem?, List.getElem?_eq_getElem (by omega), Ne, Option.some_inj,
      distinct.getElem_inj_iff]
    omega
  exact ⟨(onward _ (List.getElem_mem _) notLast).trans joined.1,
    (backward _ (List.getElem_mem _) notFirst).trans joined.2⟩

namespace Loop

variable {next back next' back' : Site → Site} {start x : Site} {others xs ys : List Site}

theorem loopAlone (onward : next start = start) (backward : back start = start) :
    Loop next back start [] := by
  simp [Loop, Joined, onward, backward]

theorem loopReversed (loop : Loop next back start others) :
    Loop back next start others.reverse := by
  have turned : start :: (others.reverse ++ [start]) = (start :: (others ++ [start])).reverse := by simp
  unfold Loop
  rw [turned, List.isChain_reverse]
  exact loop.imp fun _ _ joined => ⟨joined.2, joined.1⟩

theorem congr (loop : Loop next back start others)
    (onward : ∀ site ∈ start :: others, next' site = next site)
    (backward : ∀ site ∈ start :: others, back' site = back site) :
    Loop next' back' start others := by
  refine List.IsChain.imp_of_mem_imp ?_ loop
  intro a b ha hb joined
  have inside : ∀ {site}, site ∈ start :: (others ++ [start]) → site ∈ start :: others := by
    intro site member
    simp only [List.mem_cons, List.mem_append, List.not_mem_nil, or_false] at member ⊢
    tauto
  exact ⟨(onward a (inside ha)).trans joined.1, (backward b (inside hb)).trans joined.2⟩

theorem loopShifted (loop : Loop next back start (xs ++ x :: ys)) :
    Loop next back x (ys ++ start :: xs) := by
  have split : start :: (xs ++ x :: ys ++ [start]) = (start :: xs) ++ x :: (ys ++ [start]) := by simp
  have joint : x :: (ys ++ start :: xs ++ [x]) = (x :: ys) ++ start :: (xs ++ [x]) := by simp
  unfold Loop at loop ⊢
  rw [split, List.isChain_split] at loop
  rw [joint, List.isChain_split]
  exact ⟨by simpa using loop.2, by simpa using loop.1⟩

theorem nextHead (loop : Loop next back start (x :: others)) : next start = x :=
  (List.isChain_cons_cons.mp loop).1.1

theorem nextAlone (loop : Loop next back start []) : next start = start :=
  (List.isChain_cons_cons.mp loop).1.1

theorem backNext (loop : Loop next back start others) : back (next start) = start := by
  cases others with
  | nil =>
    have joined := (List.isChain_cons_cons.mp loop).1
    rw [joined.1, joined.2]
  | cons x rest =>
    have joined := (List.isChain_cons_cons.mp loop).1
    rw [joined.1, joined.2]

theorem joinedAround (loop : Loop next back start others) (member : x ∈ start :: others) :
    next (back x) = x ∧ back (next x) = x := by
  rcases List.mem_cons.mp member with rfl | inside
  · exact ⟨loop.loopReversed.backNext, loop.backNext⟩
  · obtain ⟨xs, ys, rfl⟩ := List.append_of_mem inside
    exact ⟨loop.loopShifted.loopReversed.backNext, loop.loopShifted.backNext⟩

theorem leadsInside (loop : Loop next back start others) (member : x ∈ start :: others) :
    next x ∈ start :: others := by
  have first : ∀ {s : Site} {l : List Site}, Loop next back s l → next s ∈ s :: l := by
    intro s l looped
    cases l with
    | nil => simp [looped.nextAlone]
    | cons y rest => simp [looped.nextHead]
  rcases List.mem_cons.mp member with rfl | inside
  · exact first loop
  · obtain ⟨xs, ys, rfl⟩ := List.append_of_mem inside
    have reached := first loop.loopShifted
    simp only [List.mem_cons, List.mem_append] at reached ⊢
    tauto

theorem leadsBackInside (loop : Loop next back start others) (member : x ∈ start :: others) :
    back x ∈ start :: others := by
  have reached := loop.loopReversed.leadsInside (x := x) (by simpa using member)
  simpa using reached

theorem leadsAway (loop : Loop next back start others) (distinct : (start :: others).Nodup)
    (member : x ∈ others) : next x ≠ x := by
  obtain ⟨xs, ys, rfl⟩ := List.append_of_mem member
  have around := loop.loopShifted
  have fresh : x ∉ ys ++ start :: xs := by
    have rotated : (start :: (xs ++ x :: ys)).Perm (x :: (ys ++ start :: xs)) := by
      simpa using (List.perm_append_comm : ((start :: xs) ++ (x :: ys)).Perm _)
    exact (List.nodup_cons.mp (rotated.nodup_iff.mp distinct)).1
  cases ahead : ys ++ start :: xs with
  | nil => simp at ahead
  | cons y rest =>
    rw [ahead] at around fresh
    rw [around.nextHead]
    intro same
    subst same
    exact fresh List.mem_cons_self

theorem startRemoved (loop : Loop next back x (start :: others))
    (distinct : (start :: others).Nodup) :
    Loop (update next (back x) (next x)) (update back (next x) (back x)) start others := by
  have first : next x = start := loop.nextHead
  have inner : List.IsChain (Joined next back) ((start :: others) ++ [x]) :=
    (List.isChain_cons_cons.mp loop).2
  obtain ⟨chain, -, ends⟩ := List.isChain_append.mp inner
  have last : (start :: others).getLast? = some (back x) := by
    obtain ⟨site, found⟩ := Option.ne_none_iff_exists'.mp
      (mt List.getLast?_eq_none_iff.mp (List.cons_ne_nil start others))
    rw [found, (ends site found x rfl).2]
  unfold Loop
  rw [← List.cons_append, List.isChain_append]
  refine ⟨?_, List.isChain_singleton _, ?_⟩
  · refine stretchKept chain distinct ?_ ?_
    · intro site _ other
      exact Function.update_of_ne (fun same => other (by rw [same, last])) _ _
    · intro site _ other
      exact Function.update_of_ne (fun same => other (by rw [same, first]; rfl)) _ _
  · intro a ha b hb
    rw [last] at ha
    cases ha
    cases hb
    exact ⟨by rw [Function.update_self, first], by rw [first, Function.update_self]⟩

theorem loopRemoved (loop : Loop next back start (xs ++ x :: ys))
    (distinct : (start :: (xs ++ x :: ys)).Nodup) :
    Loop (update next (back x) (next x)) (update back (next x) (back x)) start (xs ++ ys) := by
  have around := loop.loopShifted
  cases ys with
  | nil =>
    rw [List.append_nil]
    refine startRemoved around (distinct.sublist ?_)
    simp
  | cons y ys =>
    have rest : (y :: (ys ++ start :: xs)).Nodup := by
      rw [← List.cons_append]
      exact List.nodup_append_comm.mp (distinct.sublist (by simp))
    exact (startRemoved around rest).loopShifted

theorem loopInserted (loop : Loop next back start others) (distinct : (start :: others).Nodup)
    (fresh : x ∉ start :: others) :
    Loop (update (update next x (next start)) start x)
      (update (update back x start) (next start) x) start (x :: others) := by
  have after : ∃ rest, others ++ [start] = next start :: rest := by
    cases others with
    | nil => exact ⟨[], by rw [loop.nextAlone]; rfl⟩
    | cons y rest => exact ⟨rest ++ [start], by rw [loop.nextHead]; rfl⟩
  obtain ⟨rest, split⟩ := after
  have tail : List.IsChain (Joined next back) (others ++ [start]) := List.IsChain.tail loop
  have inside : ∀ site ∈ others ++ [start], site ≠ x := by
    intro site member same
    subst same
    exact fresh (by simpa [or_comm] using member)
  have other : next start ≠ x := inside _ (by rw [split]; simp)
  have apart : start ≠ x := inside _ (by simp)
  unfold Loop
  rw [List.cons_append, List.isChain_cons_cons, List.isChain_cons]
  refine ⟨⟨Function.update_self .., ?_⟩, ?_, stretchKept tail ?_ ?_ ?_⟩
  · rw [Function.update_of_ne other.symm, Function.update_self]
  · intro y first
    rw [split, List.head?_cons] at first
    cases first
    exact ⟨by rw [Function.update_of_ne apart.symm, Function.update_self], Function.update_self ..⟩
  · exact List.nodup_append_comm.mp distinct
  · intro site member notLast
    have moved : site ≠ start := by
      intro same
      subst same
      exact notLast (by simp)
    rw [Function.update_of_ne moved, Function.update_of_ne (inside site member)]
  · intro site member notFirst
    have moved : site ≠ next start := by
      intro same
      subst same
      exact notFirst (by rw [split]; rfl)
    rw [Function.update_of_ne moved, Function.update_of_ne (inside site member)]

end Loop

end DancingLinks
