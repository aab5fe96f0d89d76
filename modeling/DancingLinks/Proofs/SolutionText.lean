import DancingLinks.Output.Sink

/-! The text of a solution, letter by letter: the names of each row with a single space between any
two, what ends a line after every row, and what ends a solution after the last. A sink offers these
letters to its writer in UTF-8. A writer that reports no failure has taken them all, and writing does
not change what it answers to a flush. -/
namespace DancingLinks

def utf8 (letters : List Char) : Bytes := letters.flatMap String.utf8EncodeChar

theorem bytesEncoded (text : String) : bytesOf text = utf8 text.toList := by
  have letters : text.toByteArray = text.toList.utf8Encode := by
    rw [← String.toByteArray_ofList, String.ofList_toList]
  rw [bytesOf, String.toUTF8_eq_toByteArray, letters, List.utf8Encode, List.toList_data_toByteArray, utf8]

theorem bytesAppend (first second : String) :
    bytesOf (first ++ second) = bytesOf first ++ bytesOf second := by
  simp [bytesOf]

theorem bytesJoined (texts : List String) : bytesOf (String.join texts) = texts.flatMap bytesOf := by
  induction texts with
  | nil => rfl
  | cons text rest ih => rw [String.join_cons, bytesAppend, ih, List.flatMap_cons]

def spaced : List String → List Char
  | [] => []
  | [name] => name.toList
  | name :: next :: rest => name.toList ++ ' ' :: spaced (next :: rest)

theorem spacedNames (names : List String) : (" ".intercalate names).toList = spaced names := by
  induction names with
  | nil => rfl
  | cons name rest ih =>
    cases rest with
    | nil => simp [spaced]
    | cons next rest =>
      rw [String.intercalate_cons_cons, String.toList_append, String.toList_append, ih, spaced]
      simp

namespace Solution

def letters (solution : Solution) (lineEnd solutionEnd : String) : List Char :=
  solution.columns.flatMap (fun names => spaced names ++ lineEnd.toList) ++ solutionEnd.toList

theorem textLetters (solution : Solution) (lineEnd solutionEnd : String) :
    (solution.text lineEnd solutionEnd).toList = solution.letters lineEnd solutionEnd := by
  rw [text, letters, String.toList_append, String.toList_join, List.flatMap_map]
  simp only [String.toList_append, spacedNames]

end Solution

namespace Writer

variable {writer : Writer}

theorem restKeeps (writer : Writer) (bound : Nat) (rest : Bytes) :
    (writer.writeRest bound rest).2.policy = writer.policy ∧
      (writer.writeRest bound rest).2.flushes = writer.flushes := by
  induction bound generalizing writer rest with
  | zero => exact ⟨rfl, rfl⟩
  | succ bound ih =>
    unfold writeRest
    split
    · exact ⟨rfl, rfl⟩
    · have offered : (writer.write rest).2.policy = writer.policy ∧
          (writer.write rest).2.flushes = writer.flushes := ⟨rfl, rfl⟩
      split
      · rename_i wrote
        rw [wrote] at offered
        exact offered
      · rename_i wrote
        rw [wrote] at offered
        exact offered
      · rename_i count after _ wrote
        rw [wrote] at offered
        have later := ih after (rest.drop count)
        exact ⟨later.1.trans offered.1, later.2.trans offered.2⟩

theorem restHeld {bound : Nat} {rest : Bytes} (enough : rest.length ≤ bound)
    (calm : (writer.writeRest bound rest).1 = none) :
    (writer.writeRest bound rest).2.held.toList = writer.held.toList ++ rest := by
  induction bound generalizing writer rest with
  | zero =>
    obtain rfl : rest = [] := List.eq_nil_of_length_eq_zero (Nat.le_zero.mp enough)
    exact (List.append_nil _).symm
  | succ bound ih =>
    unfold writeRest at calm ⊢
    split
    · rename_i none
      rw [List.isEmpty_iff.mp none, List.append_nil]
    · rename_i filled
      rw [if_neg filled] at calm
      split
      · rename_i wrote
        rw [wrote] at calm
        cases calm
      · rename_i wrote
        rw [wrote] at calm
        cases calm
      · rename_i count after positive wrote
        rw [wrote] at calm
        obtain ⟨count, rfl⟩ := Nat.exists_eq_succ_of_ne_zero positive
        obtain ⟨accepted, rfl⟩ := Prod.mk.inj wrote
        have left : (rest.drop (count + 1)).length ≤ bound := by
          rw [List.length_drop]
          omega
        rw [ih left calm]
        simp only [accepted, Array.toList_appendList, List.append_assoc, List.take_append_drop]

end Writer

namespace Sink

variable {sink : Sink}

def bytesFor (sink : Sink) (solution : Solution) : Bytes :=
  utf8 (solution.letters sink.lineEnd sink.solutionEnd)

def texts (sink : Sink) (solutions : List Solution) : Bytes := solutions.flatMap sink.bytesFor

theorem bytesText (sink : Sink) (solution : Solution) :
    bytesOf (solution.text sink.lineEnd sink.solutionEnd) = sink.bytesFor solution := by
  rw [bytesEncoded, Solution.textLetters, bytesFor]

theorem recordWrites (sink : Sink) (solution : Solution) : sink.record solution =
    ((sink.writer.writeRest (sink.bytesFor solution).length (sink.bytesFor solution)).1,
      { sink with writer :=
        (sink.writer.writeRest (sink.bytesFor solution).length (sink.bytesFor solution)).2 }) := by
  rw [record, Writer.writeAll, bytesText]

theorem recordKeeps (sink : Sink) (solution : Solution) :
    (sink.record solution).2.writer.policy = sink.writer.policy ∧
      (sink.record solution).2.writer.flushes = sink.writer.flushes ∧
      (sink.record solution).2.bytesFor = sink.bytesFor :=
  ⟨(sink.writer.restKeeps _ _).1, (sink.writer.restKeeps _ _).2, rfl⟩

theorem recordHeld {solution : Solution} (calm : (sink.record solution).1 = none) :
    (sink.record solution).2.writer.held.toList = sink.writer.held.toList ++ sink.bytesFor solution := by
  rw [recordWrites] at calm ⊢
  exact Writer.restHeld (Nat.le_refl _) calm

theorem flushAnswers (sink : Sink) : sink.flush.1 = sink.writer.policy.refuseFlush sink.writer.flushes ∧
    sink.flush.2 = { sink with writer := { sink.writer with flushes := sink.writer.flushes + 1 } } :=
  ⟨rfl, rfl⟩

end Sink

end DancingLinks
