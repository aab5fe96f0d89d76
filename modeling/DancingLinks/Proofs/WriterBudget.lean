import DancingLinks.Proofs.SolveReports

/-! Writers that take so many bytes in all. Whatever they are given, they hold its first bytes as far as
the budget goes. A text that fits is written; one that does not is written in part, and the rest of it
is refused. A writer may take less of an offer than there is room for, but never nothing. -/
namespace DancingLinks

def Policy.refusal (policy : Policy) (offers held : Nat) (offer : Bytes) : Option String :=
  match policy.accept offers held offer with
  | .error reason => some reason
  | .ok 0 => some "failed to write whole buffer"
  | .ok _ => none

structure Policy.Grants (policy : Policy) (capacity : Nat) : Prop where
  takes : ∀ offers held offer, held < capacity → offer ≠ [] →
    ∃ count, policy.accept offers held offer = .ok count ∧
      0 < count ∧ count ≤ capacity - held ∧ count ≤ offer.length
  full : ∀ offers held offer, capacity ≤ held → offer ≠ [] →
    (policy.refusal offers held offer).isSome

namespace Writer

structure Fills (capacity : Nat) (bytes : Bytes) (writer : Writer) (failure : Option String)
    (after : Writer) : Prop where
  held : after.held.toList = writer.held.toList ++ bytes.take (capacity - writer.held.size)
  fits : writer.held.size + bytes.length ≤ capacity → failure = none
  overruns : capacity < writer.held.size + bytes.length → ∃ reason offers, failure = some reason ∧
    writer.policy.refusal offers capacity (bytes.drop (capacity - writer.held.size)) = some reason

theorem restRefused {writer : Writer} {rest : Bytes} {reason : String} (some : rest ≠ []) (bound : Nat)
    (refused : writer.policy.refusal writer.offers writer.held.size rest = .some reason) :
    (writer.writeRest (bound + 1) rest).1 = .some reason ∧
      (writer.writeRest (bound + 1) rest).2.held = writer.held := by
  have filled : rest.isEmpty = false := by simpa using some
  unfold Policy.refusal at refused
  unfold writeRest write
  simp only [filled, Bool.false_eq_true, if_false]
  split at refused
  · rename_i answer
    cases refused
    simp [answer]
  · rename_i answer
    cases refused
    simp [answer, stalled]
  · cases refused

theorem restTaken {writer : Writer} {rest : Bytes} {count : Nat} (some : rest ≠ []) (bound : Nat)
    (accepted : writer.policy.accept writer.offers writer.held.size rest = .ok count) (positive : 0 < count) :
    writer.writeRest (bound + 1) rest = writeRest { writer with
      held := writer.held ++ rest.take count, offers := writer.offers + 1 } bound (rest.drop count) := by
  have filled : rest.isEmpty = false := by simpa using some
  obtain ⟨count, rfl⟩ := Nat.exists_eq_succ_of_ne_zero (Nat.ne_of_gt positive)
  rw [writeRest, write]
  simp only [filled, Bool.false_eq_true, if_false, accepted]

theorem restFills {writer : Writer} {capacity bound : Nat} {bytes : Bytes}
    (grants : writer.policy.Grants capacity) (room : writer.held.size ≤ capacity)
    (enough : bytes.length ≤ bound) :
    Fills capacity bytes writer (writer.writeRest bound bytes).1 (writer.writeRest bound bytes).2 := by
  induction bound generalizing writer bytes with
  | zero =>
    have none : bytes = [] := List.eq_nil_of_length_eq_zero (Nat.le_zero.mp enough)
    subst none
    refine ⟨by simp [writeRest], fun _ => rfl, fun excess => ?_⟩
    rw [List.length_nil] at excess
    omega
  | succ bound ih =>
    by_cases none : bytes = []
    · subst none
      refine ⟨by simp [writeRest], fun _ => by simp [writeRest], fun excess => ?_⟩
      rw [List.length_nil] at excess
      omega
    have length := List.length_pos_iff.mpr none
    rcases Nat.lt_or_ge writer.held.size capacity with open_ | closed
    · obtain ⟨count, accepted, positive, within, inside⟩ :=
        grants.takes writer.offers writer.held.size bytes open_ none
      have size : (writer.held ++ bytes.take count).size = writer.held.size + count := by
        rw [← Array.length_toList, Array.toList_appendList, List.length_append, List.length_take,
          Nat.min_eq_left inside, Array.length_toList]
      have later := @ih { writer with held := writer.held ++ bytes.take count, offers := writer.offers + 1 }
        (bytes.drop count) grants (by dsimp only; omega) (by rw [List.length_drop]; omega)
      rw [restTaken none bound accepted positive]
      obtain ⟨held, fits, overruns⟩ := later
      dsimp only at held fits overruns
      have left : capacity - (writer.held.size + count) = capacity - writer.held.size - count := by omega
      have whole : count + (capacity - writer.held.size - count) = capacity - writer.held.size := by omega
      rw [size, List.length_drop] at fits overruns
      refine ⟨?_, fun all => fits (by omega), fun excess => ?_⟩
      · rw [held, size, left, Array.toList_appendList, List.append_assoc]
        refine congrArg (writer.held.toList ++ ·) ?_
        rw [← whole, List.take_add, whole]
      · obtain ⟨reason, offers, failed, refused⟩ := overruns (by omega)
        refine ⟨reason, offers, failed, ?_⟩
        rwa [left, List.drop_drop, whole] at refused
    · have full : writer.held.size = capacity := Nat.le_antisymm room closed
      obtain ⟨reason, refused⟩ := Option.isSome_iff_exists.mp
        (grants.full writer.offers writer.held.size bytes closed none)
      obtain ⟨failed, kept⟩ := restRefused none bound refused
      refine ⟨?_, fun all => by omega, fun _ => ⟨reason, writer.offers, failed, ?_⟩⟩
      · simp [kept, full]
      · simpa [full] using refused

end Writer

namespace Sink

def Affords (sink : Sink) (budget : Nat) : Prop :=
  sink.writer.policy.Grants (sink.writer.held.size + budget)

def overruns (sink : Sink) (budget : Nat) (solutions : List Solution) : Bool :=
  budget < (sink.texts solutions).length

variable {sink : Sink} {budget : Nat}

theorem recordFills (affords : sink.Affords budget) (solution : Solution) :
    Writer.Fills (sink.writer.held.size + budget) (sink.bytesFor solution) sink.writer
      (sink.record solution).1 (sink.record solution).2.writer := by
  rw [recordWrites]
  exact Writer.restFills affords (Nat.le_add_right ..) (Nat.le_refl _)

theorem recordAffords (affords : sink.Affords budget) (solution : Solution) :
    (sink.record solution).2.writer.held.size + (budget - (sink.bytesFor solution).length) =
        sink.writer.held.size + budget ∧
      (sink.record solution).2.Affords (budget - (sink.bytesFor solution).length) := by
  have held := congrArg List.length (recordFills affords solution).held
  simp only [List.length_append, List.length_take, Array.length_toList, Nat.add_sub_cancel_left] at held
  have total : (sink.record solution).2.writer.held.size + (budget - (sink.bytesFor solution).length) =
      sink.writer.held.size + budget := by omega
  refine ⟨total, ?_⟩
  rw [Affords, total, (sink.recordKeeps solution).1]
  exact affords

end Sink

end DancingLinks
