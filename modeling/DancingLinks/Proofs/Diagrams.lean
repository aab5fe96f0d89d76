import DancingLinks.Proofs.Placements

/-! Boards as text, with a line for each rank and a character for each file. The drawings of placements are
just those diagrams in which every line and every file has one queen and no diagonal has two, and a drawing
tells on which squares its queens are, though not in which order they were placed. -/
namespace DancingLinks.Queens

variable {n rank file : Nat} {lines : List String} {queens : List Square}

def drawnLines (n : Nat) (queens : List Square) : List String :=
  (List.range n).map fun rank => String.ofList ((List.range n).map fun file =>
    if queens.contains ⟨rank, file⟩ then 'Q' else '.')

theorem drawingLines (n : Nat) (queens : List Square) :
    drawing n queens = String.join ((drawnLines n queens).map (· ++ "\n")) := by
  rw [drawnLines, List.map_map]
  rfl

def markAt (lines : List String) (rank file : Nat) : Option Char :=
  lines[rank]?.bind fun line => line.toList[file]?

def Marks (lines : List String) (square : Square) : Prop := markAt lines square.row square.column = some 'Q'

instance (lines : List String) (square : Square) : Decidable (Marks lines square) :=
  inferInstanceAs (Decidable (_ = _))

structure Diagram (n : Nat) (lines : List String) : Prop where
  height : lines.length = n
  width : ∀ line ∈ lines, line.length = n
  marks : ∀ line ∈ lines, ∀ mark ∈ line.toList, mark = 'Q' ∨ mark = '.'
  ranks : ∀ rank < n, ∃! file, Marks lines ⟨rank, file⟩
  files : ∀ file < n, ∃! rank, Marks lines ⟨rank, file⟩
  falling : ∀ first second, Marks lines first → Marks lines second →
    (first.row : Int) - first.column = second.row - second.column → first = second
  rising : ∀ first second, Marks lines first → Marks lines second →
    (first.row : Int) + first.column = second.row + second.column → first = second

theorem sameMarks {others : List String} (height : lines.length = others.length)
    (same : ∀ rank file, markAt lines rank file = markAt others rank file) : lines = others := by
  refine List.ext_getElem height fun rank inside inside' => ?_
  refine String.toList_inj.mp (List.ext_getElem? fun file => ?_)
  simpa [markAt, List.getElem?_eq_getElem inside, List.getElem?_eq_getElem inside'] using same rank file

theorem drawnMark (n : Nat) (queens : List Square) (rank file : Nat) :
    markAt (drawnLines n queens) rank file =
      if rank < n ∧ file < n then some (if ⟨rank, file⟩ ∈ queens then 'Q' else '.') else none := by
  by_cases inRank : rank < n <;> by_cases inFile : file < n <;>
    simp [markAt, drawnLines, inRank, inFile]

theorem drawnMarks {square : Square} : Marks (drawnLines n queens) square ↔
    square ∈ squares n ∧ square ∈ queens := by
  rw [Marks, drawnMark, memSquares]
  by_cases inside : square.row < n ∧ square.column < n <;> by_cases placed : square ∈ queens <;>
    simp [inside, placed]

theorem drawnSame {others : List Square} (same : ∀ square, square ∈ queens ↔ square ∈ others) :
    drawnLines n queens = drawnLines n others := by
  refine sameMarks (by simp [drawnLines]) fun rank file => ?_
  simp only [drawnMark, same]

theorem placementMarks (placement : Placement n queens.toFinset) {square : Square} :
    Marks (drawnLines n queens) square ↔ square ∈ queens := by
  rw [drawnMarks, and_iff_right_iff_imp]
  intro member
  exact placement.lineByLine.onBoard square (List.mem_toFinset.mpr member)

theorem Placement.drawnDiagram (placement : Placement n queens.toFinset) :
    Diagram n (drawnLines n queens) := by
  have marked : ∀ square, Marks (drawnLines n queens) square ↔ square ∈ queens := fun _ =>
    placementMarks placement
  have alone : ∀ first second, Marks (drawnLines n queens) first → Marks (drawnLines n queens) second →
      first.Attacks second → first = second := by
    intro first second here there attacks
    exact placement.attackersEqual (List.mem_toFinset.mpr ((marked first).mp here))
      (List.mem_toFinset.mpr ((marked second).mp there)) attacks
  -- a rank or a file is met by some queen, and a second one on it would attack the first
  have met : ∀ line ∈ Line.all n, line.isDiagonal = false →
      ∃ square, Marks (drawnLines n queens) square ∧ line.contains n square = true := by
    intro line known straight
    obtain ⟨square, member, contains⟩ := placement.lineByLine.met line known straight
    exact ⟨square, (marked square).mpr (List.mem_toFinset.mp member), contains⟩
  refine ⟨by simp [drawnLines], ?_, ?_, ?_, ?_, ?_, ?_⟩
  · intro line member
    obtain ⟨rank, -, rfl⟩ := List.mem_map.mp member
    simp
  · intro line member mark there
    obtain ⟨rank, -, rfl⟩ := List.mem_map.mp member
    rw [String.toList_ofList, List.mem_map] at there
    obtain ⟨file, -, rfl⟩ := there
    split
    · exact .inl rfl
    · exact .inr rfl
  · intro rank inside
    obtain ⟨⟨row, file⟩, here, contains⟩ := met (.row rank) (by simp [Line.all, inside]) rfl
    obtain rfl : row = rank := by simpa [Line.contains] using contains
    exact ⟨file, here, fun other there => congrArg Square.column (alone _ _ there here (.inl rfl))⟩
  · intro file inside
    obtain ⟨⟨rank, column⟩, here, contains⟩ := met (.column file) (by simp [Line.all, inside]) rfl
    obtain rfl : column = file := by simpa [Line.contains] using contains
    exact ⟨rank, here, fun other there => congrArg Square.row (alone _ _ there here (.inr (.inl rfl)))⟩
  · intro first second here there same
    exact alone first second here there (.inr (.inr (.inl same)))
  · intro first second here there same
    exact alone first second here there (.inr (.inr (.inr same)))

def queensOf (n : Nat) (lines : List String) : Finset Square := (squares n).toFinset.filter (Marks lines)

theorem memQueens {square : Square} : square ∈ queensOf n lines ↔ square ∈ squares n ∧ Marks lines square := by
  rw [queensOf, Finset.mem_filter, List.mem_toFinset]

theorem Placement.queensDrawn (placement : Placement n queens.toFinset) :
    queensOf n (drawnLines n queens) = queens.toFinset := by
  ext square
  rw [memQueens, placementMarks placement, List.mem_toFinset, and_iff_right_iff_imp]
  intro member
  exact placement.lineByLine.onBoard square (List.mem_toFinset.mpr member)

namespace Diagram

theorem markedIff (diagram : Diagram n lines) :
    (markAt lines rank file).isSome = true ↔ rank < n ∧ file < n := by
  have height := diagram.height
  cases there : lines[rank]? with
  | none =>
    have outside := List.getElem?_eq_none_iff.mp there
    simp only [markAt, there, Option.bind_none, Option.isSome_none, Bool.false_eq_true, false_iff]
    omega
  | some line =>
    have inside := (List.getElem?_eq_some_iff.mp there).1
    have width := diagram.width line (List.mem_of_getElem? there)
    simp only [markAt, there, Option.bind_some, isSome_getElem?, String.length_toList, width]
    omega

theorem onBoard (diagram : Diagram n lines) {square : Square} (marked : Marks lines square) :
    square ∈ squares n :=
  memSquares.mpr (diagram.markedIff.mp (Option.isSome_of_eq_some marked))

theorem markRead (diagram : Diagram n lines) (rank file : Nat) : markAt lines rank file =
    if rank < n ∧ file < n then some (if Marks lines ⟨rank, file⟩ then 'Q' else '.') else none := by
  cases found : markAt lines rank file with
  | none =>
    have outside : ¬(rank < n ∧ file < n) := fun inside => by
      have there := diagram.markedIff.mpr inside
      rw [found] at there
      cases there
    rw [if_neg outside]
  | some mark =>
    have inside := diagram.markedIff.mp (Option.isSome_of_eq_some found)
    obtain ⟨line, there, here⟩ := Option.bind_eq_some_iff.mp found
    have either := diagram.marks line (List.mem_of_getElem? there) mark (List.mem_of_getElem? here)
    rw [if_pos inside, Option.some_inj]
    simp only [Marks, found, Option.some_inj]
    obtain rfl | rfl := either
    · rfl
    · rfl

theorem lineByLine (diagram : Diagram n lines) : LineByLine n (queensOf n lines) where
  onBoard square member := (memQueens.mp member).1
  apart line _ first inFirst second inSecond here there := by
    obtain ⟨on, marked⟩ := memQueens.mp inFirst
    obtain ⟨on', marked'⟩ := memQueens.mp inSecond
    have inside := memSquares.mp on
    have inside' := memSquares.mp on'
    cases line with
    | row rank =>
      obtain ⟨row, file⟩ := first
      obtain ⟨row', file'⟩ := second
      obtain rfl : row = rank := by simpa [Line.contains] using here
      obtain rfl : row' = row := by simpa [Line.contains] using there
      exact congrArg _ ((diagram.ranks row' inside.1).unique marked marked')
    | column file =>
      obtain ⟨rank, column⟩ := first
      obtain ⟨rank', column'⟩ := second
      obtain rfl : column = file := by simpa [Line.contains] using here
      obtain rfl : column' = column := by simpa [Line.contains] using there
      exact congrArg (Square.mk · column') ((diagram.files column' inside.2).unique marked marked')
    | leading index =>
      simp only [Line.contains, Square.leading, beq_iff_eq] at here there
      exact diagram.falling first second marked marked' (by omega)
    | trailing index =>
      simp only [Line.contains, Square.trailing, beq_iff_eq] at here there
      exact diagram.rising first second marked marked' (by omega)
  met line known straight := by
    cases line with
    | row rank =>
      obtain ⟨file, marked, -⟩ := diagram.ranks rank (by simpa [Line.all] using known)
      exact ⟨_, memQueens.mpr ⟨diagram.onBoard marked, marked⟩, by simp [Line.contains]⟩
    | column file =>
      obtain ⟨rank, marked, -⟩ := diagram.files file (by simpa [Line.all] using known)
      exact ⟨_, memQueens.mpr ⟨diagram.onBoard marked, marked⟩, by simp [Line.contains]⟩
    | leading index => cases straight
    | trailing index => cases straight

theorem drawnAgain (diagram : Diagram n lines) (same : queens.toFinset = queensOf n lines) :
    drawnLines n queens = lines := by
  refine sameMarks (by simp [drawnLines, diagram.height]) fun rank file => ?_
  rw [drawnMark, diagram.markRead]
  split
  · rename_i inside
    have placed : ⟨rank, file⟩ ∈ queens ↔ Marks lines ⟨rank, file⟩ := by
      rw [← List.mem_toFinset, same, memQueens, and_iff_right_iff_imp]
      exact fun _ => memSquares.mpr inside
    simp only [placed]
  · rfl

end Diagram

theorem diagramsDrawn {lists : List (List Square)} (exhausts : Exhausts (Placement n) lists) :
    (lists.map (drawnLines n)).Nodup ∧ ∀ lines, lines ∈ lists.map (drawnLines n) ↔ Diagram n lines := by
  have placed : ∀ queens ∈ lists, Placement n queens.toFinset := fun queens member =>
    (exhausts.exact _).mp (List.mem_map_of_mem member)
  constructor
  · refine List.Nodup.of_map (queensOf n) ?_
    rw [List.map_map]
    refine (congrArg List.Nodup (List.map_congr_left fun queens member => ?_)).mpr exhausts.once
    exact (placed queens member).queensDrawn
  · intro lines
    constructor
    · intro drawn
      obtain ⟨queens, member, rfl⟩ := List.mem_map.mp drawn
      exact (placed queens member).drawnDiagram
    · intro diagram
      obtain ⟨queens, member, same⟩ :=
        List.mem_map.mp ((exhausts.exact _).mpr diagram.lineByLine.linesPlaced)
      exact List.mem_map.mpr ⟨queens, member, diagram.drawnAgain same⟩

end DancingLinks.Queens
