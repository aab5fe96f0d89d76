import DancingLinks.Proofs.EncodingMeaning
import DancingLinks.Queens.Lines
import Mathlib.Data.Finset.Card

/-! Placements of queens that leave each other in peace, as solutions of an exact cover problem. Two
squares of a board attack each other exactly if one of its lines contains both. As many queens as there
are rows leave no row and no column without one, and the other way round. -/
namespace DancingLinks.Queens

variable {n : Nat} {square first second : Square} {line : Line}

def Square.Attacks (first second : Square) : Prop :=
  first.row = second.row ∨ first.column = second.column ∨
    (first.row : Int) - first.column = second.row - second.column ∨
    (first.row : Int) + first.column = second.row + second.column

instance (first second : Square) : Decidable (first.Attacks second) :=
  inferInstanceAs (Decidable (_ ∨ _ ∨ _ ∨ _))

/-- As many queens as the board has rows, no two of which attack each other. -/
structure Placement (n : Nat) (queens : Finset Square) : Prop where
  count : queens.card = n
  onBoard : ∀ square ∈ queens, square.row < n ∧ square.column < n
  peace : ∀ first ∈ queens, ∀ second ∈ queens, first ≠ second → ¬first.Attacks second

theorem memSquares : square ∈ squares n ↔ square.row < n ∧ square.column < n := by
  obtain ⟨row, column⟩ := square
  simp [squares]

theorem ofIndexAt {row column : Nat} (inside : column < n) :
    Square.ofIndex n (row * n + column) = ⟨row, column⟩ := by
  have whole : (row * n + column) / n = row := by
    rw [Nat.mul_comm, Nat.mul_add_div (Nat.zero_lt_of_lt inside), Nat.div_eq_of_lt inside, Nat.add_zero]
  simp only [Square.ofIndex, whole, Nat.mul_add_mod_of_lt inside]

theorem ofIndexInjective (n : Nat) : Function.Injective (Square.ofIndex n) := by
  intro first second same
  simp only [Square.ofIndex, Square.mk.injEq] at same
  rw [← Nat.div_add_mod first n, same.1, same.2, Nat.div_add_mod]

theorem rowsIndexed (n rows : Nat) : ((List.range rows).flatMap fun row =>
    (List.range n).map fun column => Square.mk row column) =
      (List.range (rows * n)).map (Square.ofIndex n) := by
  induction rows with
  | zero => simp
  | succ rows ih =>
    rw [List.range_succ, List.flatMap_append, ih, Nat.succ_mul, List.range_add, List.map_append,
      List.flatMap_singleton, List.map_map]
    congr 1
    apply List.map_congr_left
    intro column member
    exact (ofIndexAt (List.mem_range.mp member)).symm

theorem squareAt {index : Nat} :
    (squares n)[index]? = some square ↔ index < n * n ∧ Square.ofIndex n index = square := by
  rw [squares, rowsIndexed, List.getElem?_map, Option.map_eq_some_iff]
  constructor
  · intro there
    obtain ⟨place, listed, same⟩ := there
    obtain ⟨inside, rfl⟩ := List.getElem?_eq_some_iff.mp listed
    rw [List.getElem_range] at same
    exact ⟨by simpa using inside, same⟩
  · intro there
    exact ⟨index, List.getElem?_range there.1, there.2⟩

def Square.lines (n : Nat) (square : Square) : List Line :=
  [.row square.row, .column square.column, .trailing square.trailing, .leading (square.leading n)]

theorem memLines : line ∈ square.lines n ↔ line.contains n square = true := by
  cases line <;> simp [Square.lines, Line.contains] <;> exact eq_comm

theorem linesKnown (on : square ∈ squares n) (member : line ∈ square.lines n) : line ∈ Line.all n := by
  obtain ⟨rows, columns⟩ := memSquares.mp on
  simp only [Square.lines, List.mem_cons, List.not_mem_nil, or_false] at member
  obtain rfl | rfl | rfl | rfl := member <;>
    simp [Line.all, Square.trailing, Square.leading] <;> omega

theorem attacksIff (on : first ∈ squares n) (other : second ∈ squares n) : first.Attacks second ↔
    ∃ line ∈ Line.all n, line.contains n first = true ∧ line.contains n second = true := by
  have inside := memSquares.mp on
  have inside' := memSquares.mp other
  constructor
  · intro attacks
    have own : ∀ line ∈ first.lines n, line.contains n second = true → ∃ line ∈ Line.all n,
        line.contains n first = true ∧ line.contains n second = true := fun line member there =>
      ⟨line, linesKnown on member, memLines.mp member, there⟩
    obtain same | same | same | same := attacks
    · exact own (.row first.row) (by simp [Square.lines]) (by simp [Line.contains, same])
    · exact own (.column first.column) (by simp [Square.lines]) (by simp [Line.contains, same])
    · refine own (.leading (first.leading n)) (by simp [Square.lines]) ?_
      simp only [Line.contains, Square.leading, beq_iff_eq]
      omega
    · refine own (.trailing first.trailing) (by simp [Square.lines]) ?_
      simp only [Line.contains, Square.trailing, beq_iff_eq]
      omega
  · intro shared
    obtain ⟨line, -, here, there⟩ := shared
    cases line <;> simp only [Line.contains, Square.leading, Square.trailing, beq_iff_eq] at here there <;>
      simp only [Square.Attacks] <;> omega

structure LineByLine (n : Nat) (queens : Finset Square) : Prop where
  onBoard : ∀ square ∈ queens, square ∈ squares n
  apart : ∀ line ∈ Line.all n, ∀ first ∈ queens, ∀ second ∈ queens,
    line.contains n first = true → line.contains n second = true → first = second
  met : ∀ line ∈ Line.all n, line.isDiagonal = false → ∃ square ∈ queens, line.contains n square = true

variable {queens : Finset Square}

theorem numbersMet {number : Square → Nat} (count : queens.card = n)
    (single : Set.InjOn number (queens : Set Square)) (below : ∀ square ∈ queens, number square < n)
    {index : Nat} (inside : index < n) : ∃ square ∈ queens, number square = index := by
  have within : queens.image number ⊆ Finset.range n := by
    intro index member
    obtain ⟨square, there, rfl⟩ := Finset.mem_image.mp member
    exact Finset.mem_range.mpr (below square there)
  have all : queens.image number = Finset.range n := by
    refine Finset.eq_of_subset_of_card_le within ?_
    rw [Finset.card_range, Finset.card_image_of_injOn single, count]
  exact Finset.mem_image.mp (all ▸ Finset.mem_range.mpr inside)

theorem Placement.attackersEqual (placement : Placement n queens) (inFirst : first ∈ queens)
    (inSecond : second ∈ queens) (attacks : first.Attacks second) : first = second := by
  by_contra different
  exact placement.peace first inFirst second inSecond different attacks

theorem Placement.lineByLine (placement : Placement n queens) : LineByLine n queens where
  onBoard square member := memSquares.mpr (placement.onBoard square member)
  apart line known first inFirst second inSecond here there :=
    placement.attackersEqual inFirst inSecond ((attacksIff (memSquares.mpr (placement.onBoard first inFirst))
      (memSquares.mpr (placement.onBoard second inSecond))).mpr ⟨line, known, here, there⟩)
  met line known straight := by
    -- the count alone forces a queen on every row and every column, which tell the queens apart
    cases line with
    | row index =>
      have single : Set.InjOn Square.row (queens : Set Square) := fun first inFirst second inSecond same =>
        placement.attackersEqual inFirst inSecond (.inl same)
      obtain ⟨square, member, same⟩ := numbersMet placement.count single
        (fun square member => (placement.onBoard square member).1) (by simpa [Line.all] using known)
      exact ⟨square, member, by simp [Line.contains, same]⟩
    | column index =>
      have single : Set.InjOn Square.column (queens : Set Square) :=
        fun first inFirst second inSecond same => placement.attackersEqual inFirst inSecond (.inr (.inl same))
      obtain ⟨square, member, same⟩ := numbersMet placement.count single
        (fun square member => (placement.onBoard square member).2) (by simpa [Line.all] using known)
      exact ⟨square, member, by simp [Line.contains, same]⟩
    | leading index => cases straight
    | trailing index => cases straight

theorem LineByLine.linesPlaced (lineByLine : LineByLine n queens) : Placement n queens where
  count := by
    have single : Set.InjOn Square.row (queens : Set Square) := by
      intro first inFirst second inSecond same
      exact lineByLine.apart (.row first.row) (linesKnown (lineByLine.onBoard first inFirst)
        (by simp [Square.lines])) first inFirst second inSecond (by simp [Line.contains])
        (by simpa [Line.contains] using same.symm)
    have all : queens.image Square.row = Finset.range n := by
      ext index
      rw [Finset.mem_image, Finset.mem_range]
      constructor
      · intro placed
        obtain ⟨square, member, rfl⟩ := placed
        exact (memSquares.mp (lineByLine.onBoard square member)).1
      · intro inside
        simpa [Line.contains] using lineByLine.met (.row index) (by simp [Line.all, inside]) rfl
    rw [← Finset.card_image_of_injOn single, all, Finset.card_range]
  onBoard square member := memSquares.mp (lineByLine.onBoard square member)
  peace first inFirst second inSecond different attacks := by
    obtain ⟨line, known, here, there⟩ :=
      (attacksIff (lineByLine.onBoard first inFirst) (lineByLine.onBoard second inSecond)).mp attacks
    exact different (lineByLine.apart line known first inFirst second inSecond here there)

def listing (n : Nat) (lines : List Line) (label : Line → String) : Problem Square Line :=
  { problem n with constraints := lines, label }

section Listing

variable {lines : List Line} {position column : Nat}

theorem meetsLine (label : Line → String) (there : lines[column]? = some line) :
    (listing n lines label).Meets position column ↔
      position < n * n ∧ line.contains n (Square.ofIndex n position) = true := by
  constructor
  · intro met
    obtain ⟨square, other, here, listed, contains⟩ := met
    obtain ⟨inside, rfl⟩ := squareAt.mp here
    cases there.symm.trans listed
    exact ⟨inside, contains⟩
  · intro met
    exact ⟨_, line, squareAt.mpr ⟨met.1, rfl⟩, there, met.2⟩

variable {label : Line → String} (same : ∀ line, line ∈ lines ↔ line ∈ Line.all n) {positions : Finset Nat}

include same

theorem solutionPlaces (solution : (listing n lines label).IsSolution positions) :
    positions ⊆ Finset.range (n * n) ∧ LineByLine n (positions.image (Square.ofIndex n)) := by
  have inside : ∀ position ∈ positions, position < n * n := by
    intro position chosen
    obtain ⟨column, line, there, -, met⟩ := solution.useful position chosen
    exact ((meetsLine label there).mp met).1
  refine ⟨fun position chosen => Finset.mem_range.mpr (inside position chosen), ?_, ?_, ?_⟩
  · intro square member
    obtain ⟨position, chosen, rfl⟩ := Finset.mem_image.mp member
    exact List.mem_of_getElem? (squareAt.mpr ⟨inside position chosen, rfl⟩)
  · intro line known first inFirst second inSecond here there
    obtain ⟨position, chosen, rfl⟩ := Finset.mem_image.mp inFirst
    obtain ⟨other, chosen', rfl⟩ := Finset.mem_image.mp inSecond
    obtain ⟨column, listed⟩ := List.getElem?_of_mem ((same line).mpr known)
    have met := (meetsLine label listed).mpr ⟨inside position chosen, here⟩
    have met' := (meetsLine label listed).mpr ⟨inside other chosen', there⟩
    refine congrArg _ ?_
    cases kind : line.isDiagonal with
    | true => exact solution.optional column line listed kind position chosen other chosen' met met'
    | false => exact (solution.needed column line listed kind).unique ⟨chosen, met⟩ ⟨chosen', met'⟩
  · intro line known straight
    obtain ⟨column, listed⟩ := List.getElem?_of_mem ((same line).mpr known)
    obtain ⟨position, ⟨chosen, met⟩, -⟩ := solution.needed column line listed straight
    exact ⟨_, Finset.mem_image_of_mem _ chosen, ((meetsLine label listed).mp met).2⟩

theorem placesSolution (inside : positions ⊆ Finset.range (n * n))
    (lineByLine : LineByLine n (positions.image (Square.ofIndex n))) :
    (listing n lines label).IsSolution positions := by
  have apart : ∀ column line, lines[column]? = some line → ∀ first ∈ positions, ∀ second ∈ positions,
      (listing n lines label).Meets first column → (listing n lines label).Meets second column →
        first = second := by
    intro column line listed first inFirst second inSecond met met'
    refine ofIndexInjective n ?_
    exact lineByLine.apart line ((same line).mp (List.mem_of_getElem? listed)) _
      (Finset.mem_image_of_mem _ inFirst) _ (Finset.mem_image_of_mem _ inSecond)
      ((meetsLine label listed).mp met).2 ((meetsLine label listed).mp met').2
  refine ⟨?_, fun column line listed _ => apart column line listed, ?_⟩
  · intro column line (listed : lines[column]? = some line) straight
    obtain ⟨_, member, contains⟩ :=
      lineByLine.met line ((same line).mp (List.mem_of_getElem? listed)) straight
    obtain ⟨position, chosen, rfl⟩ := Finset.mem_image.mp member
    have met := (meetsLine label listed).mpr ⟨Finset.mem_range.mp (inside chosen), contains⟩
    exact ⟨position, ⟨chosen, met⟩, fun other taken =>
      apart column line listed other taken.1 position chosen taken.2 met⟩
  · intro position chosen
    have on := lineByLine.onBoard _ (Finset.mem_image_of_mem _ chosen)
    have known : Line.row (position / n) ∈ Line.all n := linesKnown on (by simp [Square.lines, Square.ofIndex])
    obtain ⟨column, listed⟩ := List.getElem?_of_mem ((same _).mpr known)
    refine ⟨column, _, listed, rfl, (meetsLine label listed).mpr ⟨Finset.mem_range.mp (inside chosen), ?_⟩⟩
    simp [Line.contains, Square.ofIndex]

theorem placementIff (queens : Finset Square) : Placement n queens ↔
    ∃ positions, (listing n lines label).IsSolution positions ∧
      positions.image (Square.ofIndex n) = queens := by
  constructor
  · intro placement
    have back : (queens.image fun square => square.row * n + square.column).image (Square.ofIndex n) =
        queens := by
      rw [Finset.image_image]
      refine (Finset.image_congr fun square member => ?_).trans Finset.image_id
      exact ofIndexAt (placement.onBoard square member).2
    refine ⟨_, placesSolution same ?_ (back.symm ▸ placement.lineByLine), back⟩
    intro position member
    obtain ⟨square, placed, rfl⟩ := Finset.mem_image.mp member
    obtain ⟨row, column⟩ := placement.onBoard square placed
    have whole : (square.row + 1) * n ≤ n * n := Nat.mul_le_mul_right n row
    rw [Nat.succ_mul] at whole
    exact Finset.mem_range.mpr (by omega)
  · intro solved
    obtain ⟨positions, solution, rfl⟩ := solved
    exact (solutionPlaces same solution).2.linesPlaced

theorem placementsListed {lists : List (List Nat)}
    (exhausts : Exhausts (listing n lines label).IsSolution lists) :
    Exhausts (Placement n) (lists.map (·.map (Square.ofIndex n))) :=
  exhausts.exhaustsImage (ofIndexInjective n).injOn (fun _ solution => (solutionPlaces same solution).1)
    (placementIff same)

end Listing

end DancingLinks.Queens
