import DancingLinks.Proofs.WriterBudget

/-! Texts written one after another. Whether they are given to a writer as one or in pieces makes no
difference to what it holds in the end: a writer that never refuses holds all of them, and one with a
budget their first bytes as far as it goes. -/
namespace DancingLinks

def Policy.Takes (policy : Policy) : Prop := ∀ offers held offer, offer ≠ [] →
  ∃ count, policy.accept offers held offer = .ok count ∧ 0 < count ∧ count ≤ offer.length

theorem Policy.unboundedTakes (full flushFailure : Option String) :
    (Policy.bounded none full flushFailure).Takes := fun _ _ offer filled =>
  ⟨offer.length, rfl, List.length_pos_iff.mpr filled, Nat.le_refl _⟩

namespace Writer

theorem takesRest {writer : Writer} {bytes : Bytes} {bound : Nat} (takes : writer.policy.Takes)
    (enough : bytes.length ≤ bound) :
    (writer.writeRest bound bytes).1 = none ∧
      (writer.writeRest bound bytes).2.held.toList = writer.held.toList ++ bytes := by
  induction bound generalizing writer bytes with
  | zero =>
    obtain rfl : bytes = [] := List.eq_nil_of_length_eq_zero (Nat.le_zero.mp enough)
    simp [writeRest]
  | succ bound ih =>
    by_cases none : bytes = []
    · subst none
      simp [writeRest]
    · obtain ⟨count, accepted, positive, inside⟩ := takes writer.offers writer.held.size bytes none
      rw [restTaken none bound accepted positive]
      have left : (bytes.drop count).length ≤ bound := by
        rw [List.length_drop]
        omega
      obtain ⟨done, held⟩ := @ih { writer with
        held := writer.held ++ bytes.take count, offers := writer.offers + 1 } _ takes left
      refine ⟨done, held.trans ?_⟩
      rw [Array.toList_appendList, List.append_assoc, List.take_append_drop]

theorem takesEach {writer : Writer} (takes : writer.policy.Takes) (texts : List String) :
    (writer.writeEach texts).1 = none ∧
      (writer.writeEach texts).2.held.toList = writer.held.toList ++ texts.flatMap bytesOf := by
  induction texts generalizing writer with
  | nil => simp [writeEach]
  | cons text rest ih =>
    obtain ⟨done, held⟩ : (writer.writeAll text).1 = none ∧ _ := takesRest takes (Nat.le_refl _)
    have kept : (writer.writeAll text).2.policy = writer.policy := (writer.restKeeps _ _).1
    obtain ⟨later, whole⟩ := ih (kept.symm ▸ takes)
    have split : writer.writeAll text = (none, (writer.writeAll text).2) := Prod.ext done rfl
    have onward : writer.writeEach (text :: rest) = (writer.writeAll text).2.writeEach rest := by
      rw [writeEach, split]
    rw [onward]
    refine ⟨later, whole.trans ?_⟩
    rw [List.flatMap_cons, ← List.append_assoc]
    exact congrArg (· ++ _) held

theorem fillsEach {writer : Writer} {capacity : Nat} (grants : writer.policy.Grants capacity)
    (room : writer.held.size ≤ capacity) (texts : List String) :
    (writer.writeEach texts).2.held.toList =
        writer.held.toList ++ (texts.flatMap bytesOf).take (capacity - writer.held.size) ∧
      ((writer.writeEach texts).1.isSome ↔
        capacity < writer.held.size + (texts.flatMap bytesOf).length) := by
  induction texts generalizing writer with
  | nil => simp [writeEach, Nat.not_lt.mpr room]
  | cons text rest ih =>
    obtain ⟨held, fits, overruns⟩ : Fills capacity (bytesOf text) writer (writer.writeAll text).1
      (writer.writeAll text).2 := restFills grants room (Nat.le_refl _)
    have kept : (writer.writeAll text).2.policy = writer.policy := (writer.restKeeps _ _).1
    have size := congrArg List.length held
    rw [Array.length_toList, List.length_append, Array.length_toList, List.length_take] at size
    rw [List.flatMap_cons, List.take_append, List.length_append]
    rcases Nat.lt_or_ge capacity (writer.held.size + (bytesOf text).length) with excess | enough
    · obtain ⟨reason, offers, failed, -⟩ := overruns excess
      have stops : writer.writeEach (text :: rest) = (some reason, (writer.writeAll text).2) := by
        rw [writeEach, show writer.writeAll text = (some reason, (writer.writeAll text).2) from
          Prod.ext failed rfl]
      have none : capacity - writer.held.size - (bytesOf text).length = 0 := by omega
      rw [stops, none, List.take_zero, List.append_nil]
      refine ⟨held, iff_of_true rfl (by omega)⟩
    · have onward : writer.writeEach (text :: rest) = (writer.writeAll text).2.writeEach rest := by
        rw [writeEach, show writer.writeAll text = (none, (writer.writeAll text).2) from
          Prod.ext (fits enough) rfl]
      have left : capacity - (writer.writeAll text).2.held.size =
          capacity - writer.held.size - (bytesOf text).length := by omega
      obtain ⟨whole, fails⟩ := ih (kept.symm ▸ grants) (by omega)
      rw [onward, whole, held, left, List.append_assoc]
      refine ⟨rfl, fails.trans ?_⟩
      have total : (writer.writeAll text).2.held.size = writer.held.size + (bytesOf text).length := by omega
      rw [total, Nat.add_assoc]

end Writer

end DancingLinks
