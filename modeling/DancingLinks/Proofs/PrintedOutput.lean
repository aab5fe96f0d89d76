import DancingLinks.Proofs.Diagrams
import DancingLinks.Proofs.UnlimitedSink
import DancingLinks.Proofs.QueensMatrix
import DancingLinks.Queens.CommandLine

/-! What the program prints. For each solution there is a block of text with its board, and its names on
request. Without a limit all blocks are printed; a limit cuts them to the first ones, and with them the
search. The limit 0 is an exception: it goes with no listener that could stop the search, so that all
solutions are counted, and their names are printed without the boards. -/
namespace DancingLinks.Queens.CommandLine

open Text (digit? digitsValue? dropPlus)

variable {n limit : Nat} {solutions : List Solution} {printing : Array Call → String}

theorem digitsRead {digits : List Char} (all : ∀ c ∈ digits, c.isDigit = true) (value : Nat) :
    digitsValue? value digits = some (Nat.ofDigitChars 10 digits value) := by
  induction digits generalizing value with
  | nil => rfl
  | cons c rest ih =>
    have digit : digit? c = some (c.toNat - '0'.toNat) := if_pos (all c List.mem_cons_self)
    rw [digitsValue?, digit, Nat.ofDigitChars_cons]
    exact ih (fun other member => all other (List.mem_cons_of_mem c member)) _

theorem dropPlusDigits {digits : List Char} (all : ∀ c ∈ digits, c.isDigit = true) :
    dropPlus digits = digits := by
  unfold dropPlus
  split
  · cases all '+' List.mem_cons_self
  · rfl

theorem numberRead (fits : n < UInt64.size) : number? (toString n) = some n := by
  have digits : ∀ c ∈ Nat.toDigits 10 n, c.isDigit = true := fun _ member =>
    Nat.isDigit_of_mem_toDigits (by decide) (by decide) member
  have letters : (toString n).toList = Nat.toDigits 10 n := Nat.toList_repr
  have filled : (Nat.toDigits 10 n).isEmpty = false := by
    simp [Nat.toDigits_ne_nil]
  simp only [number?, Text.numeral?, letters, dropPlusDigits digits, filled, digitsRead digits,
    Nat.ofDigitChars_ten_toDigits]
  simp [fits]

theorem sizeRead (some : 0 < n) (fits : n < UInt64.size) (others : List String) :
    size? (toString n :: others) = .some n := by
  rw [size?, numberRead fits, Option.filter_some, if_pos (decide_eq_true some)]

theorem limitRead (fits : limit < UInt64.size) (size : String) (others : List String) :
    limit? (size :: toString limit :: others) = some (some limit) := by
  rw [limit?, numberRead fits, Option.map_some]

def drawn (n : Nat) (solution : Solution) : List String :=
  drawnLines n (solution.sortedRows.map (Square.ofIndex n))

def namesText (withNames : Bool) (solution : Solution) : String :=
  if withNames then String.ofList (solution.letters "\n" "\n") else ""

def block (n : Nat) (withNames : Bool) (solution : Solution) : String :=
  s!"solution {solution.number} ({solution.removals} removals)\n" ++
    String.join ((drawn n solution).map (· ++ "\n")) ++ "\n" ++ namesText withNames solution

def transcript (texts : List String) (count : Nat) : Transcript :=
  ⟨0, utf8 (texts.flatMap String.toList ++ s!"{count} solutions\n".toList), ""⟩

theorem blockLetters (n : Nat) (withNames : Bool) (solution : Solution) :
    (block n withNames solution).toList =
      (board n solution.call).toList ++ (namesText withNames solution).toList := by
  have lines := drawingLines n (solution.sortedRows.map (Square.ofIndex n))
  have whole : block n withNames solution = board n solution.call ++ namesText withNames solution :=
    congrArg (s!"solution {solution.number} ({solution.removals} removals)\n" ++ · ++ "\n" ++
      namesText withNames solution) lines.symm
  rw [whole, String.toList_append]

theorem drawnChosen (n : Nat) (solution : Solution) :
    drawn n solution = drawnLines n (solution.rows.map (Square.ofIndex n)) := by
  refine drawnSame fun square => ?_
  exact ((List.mergeSort_perm solution.rows _).map _).mem_iff

theorem refusesLast (limit : Option Nat) (solutions : List Solution) :
    (Listener.ofAnswer (answer limit) printing).refuses solutions =
      solutions.getLast?.any fun last => !wantsMore limit last.number := by
  have last : (((Listener.ofAnswer (answer limit) printing).told solutions).heard).back? =
      solutions.getLast?.map Solution.call := by
    simp [Listener.told, Listener.ofAnswer]
  have decides : (Listener.ofAnswer (answer limit) printing).refuses solutions =
      !answer limit ((Listener.ofAnswer (answer limit) printing).told solutions).heard := rfl
  rw [decides, answer, last]
  cases solutions.getLast? <;> rfl

theorem contentUnlimited (solutions : List Solution) :
    contentAfter (some (.ofAnswer (answer none) printing)) solutions = solutions.length := by
  refine contentWhole fun count _ _ => ?_
  rw [Option.any_some, refusesLast]
  cases (solutions.take count).getLast? <;> rfl

theorem contentDeaf (solutions : List Solution) : contentAfter none solutions = solutions.length :=
  contentWhole fun _ _ _ => rfl

theorem contentLimited (positive : 0 < limit)
    (numbered : ∀ place solution, solutions[place]? = some solution → solution.number = place + 1) :
    contentAfter (some (.ofAnswer (answer (some limit)) printing)) solutions =
      min limit solutions.length := by
  have refuses : ∀ count, 0 < count → count ≤ solutions.length →
      (some (Listener.ofAnswer (answer (some limit)) printing)).any (·.refuses (solutions.take count)) =
        decide (limit ≤ count) := by
    intro count some inside
    obtain ⟨place, rfl⟩ := Nat.exists_eq_succ_of_ne_zero (Nat.ne_of_gt some)
    have there := List.getElem?_eq_getElem inside
    have last : (solutions.take (place + 1)).getLast? = .some solutions[place] := by
      rw [List.getLast?_eq_getElem?, List.length_take, Nat.min_eq_left inside, Nat.succ_sub_one,
        List.getElem?_take_of_lt (Nat.lt_succ_self place), there]
    rw [Option.any_some, refusesLast, last, Option.any_some, numbered place _ there, wantsMore,
      ← decide_not, decide_eq_decide]
    exact Nat.not_lt
  rcases Nat.lt_or_ge solutions.length limit with beyond | within
  · rw [Nat.min_eq_right (Nat.le_of_lt beyond)]
    refine contentWhole fun count some inside => ?_
    rw [refuses count some inside, decide_eq_false_iff_not]
    omega
  · rw [Nat.min_eq_left within]
    refine contentFirst positive within ?_ fun earlier some less => ?_
    · rw [refuses limit positive within, decide_eq_true_iff]
    · rw [refuses earlier some (by omega), decide_eq_false_iff_not]
      omega

structure Unheard (solver : Solver) : Prop where
  listener : solver.listener = none
  sink : solver.sink = none

theorem eachUnheard {α β : Type} {call : α → Solver → Except Fault (Reply β)}
    (step : ∀ item solver reply, call item solver = .ok reply → Unheard solver → Unheard reply.solver)
    {items : List α} {solver : Solver} {reply : Reply Unit} (made : Reply.each call items solver = .ok reply)
    (unheard : Unheard solver) : Unheard reply.solver := by
  induction items generalizing solver reply with
  | nil =>
    cases made
    exact unheard
  | cons item rest ih =>
    obtain ⟨first, called, made⟩ := bindOk.mp made
    have kept := step item solver first called unheard
    split at made
    · cases made
      exact kept
    · obtain ⟨others, later, same⟩ := bindOk.mp made
      have onward : Unheard others.solver := ih later kept
      cases same
      exact onward

theorem columnUnheard {solver : Solver} {name : String} {isPrimary : Bool} {reply : Reply Nat}
    (made : solver.addColumn name isPrimary = .ok reply) (unheard : Unheard solver) :
    Unheard reply.solver := by
  unfold Solver.addColumn at made
  dsimp only at made
  split at made
  · cases made
    exact unheard
  · obtain ⟨added, -, same⟩ := bindOk.mp made
    cases same
    exact ⟨unheard.listener, unheard.sink⟩

theorem rejectUnheard {solver : Solver} (error : Error) (unheard : Unheard solver) :
    Unheard (solver.reject error).solver := by
  unfold Solver.reject
  split
  · exact unheard
  · exact unheard

theorem entryUnheard {solver : Solver} {column : ColumnRef} {reply : Reply Unit}
    (made : solver.setColumn column = .ok reply) (unheard : Unheard solver) : Unheard reply.solver := by
  unfold Solver.setColumn at made
  split at made
  · cases made
    exact rejectUnheard _ unheard
  · obtain ⟨⟨placement, torus⟩, -, made⟩ := bindOk.mp made
    cases placement with
    | placed =>
      cases made
      exact ⟨unheard.listener, unheard.sink⟩
    | alreadyPresent row =>
      obtain ⟨column, -, same⟩ := bindOk.mp made
      cases same
      exact rejectUnheard _ ⟨unheard.listener, unheard.sink⟩

theorem solverUnheard {reply : Reply Unit} (made : solver n = .ok reply) : Unheard reply.solver := by
  obtain ⟨columns, added, made⟩ := bindOk.mp made
  have first : Unheard columns.solver :=
    eachUnheard (fun _ _ _ called => columnUnheard called) added ⟨rfl, rfl⟩
  split at made
  · cases made
    exact first
  · obtain ⟨rows, filled, same⟩ := bindOk.mp made
    have onward : Unheard rows.solver := by
      refine eachUnheard (fun square solver reply called unheard => ?_) filled first
      exact eachUnheard (fun _ _ _ set => entryUnheard set) called ⟨unheard.listener, unheard.sink⟩
    cases same
    exact onward

variable {solver : Solver} {sheet : Sheet} {request : Request} {withNames : Bool} {reply : Reply Nat}

def output : Sink := ⟨.ofPolicy .stdout, lineEnd, solutionEnd⟩

theorem outputTakesAll : output.TakesAll := ⟨Policy.unboundedTakes none none, rfl⟩

theorem outputShows (solution : Solution) :
    output.shows solution = utf8 (namesText true solution).toList := by
  rw [namesText, if_pos rfl, String.toList_ofList]
  rfl

theorem prepareListens (unheard : Unheard solver) (request : Request) (withNames : Bool) :
    prepare request withNames solver = { solver with
      listener := if printsBoards request.limit then
        some (.ofAnswer (answer request.limit) (boards request.size)) else none
      sink := if withNames then some output else none } := by
  obtain ⟨config, position, names, listener, sink⟩ := solver
  obtain ⟨rfl, rfl⟩ : listener = none ∧ sink = none := ⟨unheard.listener, unheard.sink⟩
  cases withNames <;> cases printing : printsBoards request.limit <;>
    simp only [prepare, printing] <;> rfl

theorem prepareSolves (keeps : solver.Keeps sheet) (unheard : Unheard solver) (request : Request)
    (withNames : Bool) :
    ∃ reply, (prepare request withNames solver).solve = .ok reply ∧
      reply.EndsByListener (prepare request withNames solver)
        (sheet.search solver.config.byFewest).solutions := by
  rw [prepareListens unheard]
  refine ⟨_, Solver.solveAnswers (keeps.keptForAudience _ _), Solver.endsByListener (fun sink written => ?_) _⟩
  cases withNames with
  | false => cases written
  | true =>
    cases written
    exact outputTakesAll

theorem namesShown (withNames : Bool) (solution : Solution) :
    (if withNames then some output else none).elim (fun _ => []) Sink.shows solution =
      utf8 (namesText withNames solution).toList := by
  cases withNames with
  | false => rfl
  | true => exact outputShows solution

theorem boardsPrinted {listener : Listener} (prints : listener.prints = boards n)
    (shows : Solution → Bytes) (solutions : List Solution) : printout (some listener) shows solutions =
      solutions.flatMap fun solution => utf8 (board n solution.call).toList ++ shows solution := by
  induction solutions generalizing listener with
  | nil => rfl
  | cons solution rest ih =>
    have spoken : listener.spoken solution = utf8 (board n solution.call).toList := by
      rw [Listener.spoken, prints]
      simp [boards, Listener.told]
    have later := @ih (listener.told [solution]) prints
    rw [printout, Option.map_some, later, Option.elim_some, spoken, List.flatMap_cons]

theorem onlyShown (shows : Solution → Bytes) (solutions : List Solution) :
    printout none shows solutions = solutions.flatMap shows := by
  induction solutions with
  | nil => rfl
  | cons solution rest ih => exact congrArg (shows solution ++ ·) ih

theorem printsBlocks (unheard : Unheard solver) (printing : printsBoards request.limit = true)
    (ends : reply.EndsByListener (prepare request withNames solver) solutions) :
    reply.printed = utf8 (((solutions.take (contentAfter
      (some (.ofAnswer (answer request.limit) (boards request.size))) solutions)).map
        (block request.size withNames)).flatMap String.toList) := by
  have printed := ends.printed
  rw [prepareListens unheard, printing, if_pos rfl, boardsPrinted rfl] at printed
  rw [printed, utf8, List.flatMap_map, List.flatMap_assoc]
  refine congrArg (List.flatMap · _) (funext fun solution => ?_)
  rw [namesShown, blockLetters, List.flatMap_append, utf8, utf8]

theorem printsNames (unheard : Unheard solver) (silent : printsBoards request.limit = false)
    (ends : reply.EndsByListener (prepare request withNames solver) solutions) :
    reply.printed = utf8 ((solutions.map (namesText withNames)).flatMap String.toList) := by
  have printed := ends.printed
  rw [prepareListens unheard, silent, if_neg Bool.false_ne_true, onlyShown, contentDeaf,
    List.take_length] at printed
  rw [printed, utf8, List.flatMap_map, List.flatMap_assoc]
  exact congrArg (List.flatMap · _) (funext (namesShown withNames))

theorem searchPrints (solved : (prepare request withNames solver).solve = .ok reply) {count : Nat}
    (value : reply.value = .ok count) {texts : List String}
    (prints : reply.printed = utf8 (texts.flatMap String.toList)) :
    search request withNames solver = .ok (transcript texts count) := by
  simp only [search, solved, value, prints, bytesEncoded, bind, Except.bind]
  rw [transcript, utf8, utf8, utf8, List.flatMap_append]
  rfl

theorem searchBlocks (keeps : solver.Keeps sheet) (unheard : Unheard solver)
    (printing : printsBoards request.limit = true) (withNames : Bool) {count : Nat}
    (content : contentAfter (some (.ofAnswer (answer request.limit) (boards request.size)))
      (sheet.search solver.config.byFewest).solutions = count) :
    search request withNames solver = .ok (transcript
      (((sheet.search solver.config.byFewest).solutions.map (block request.size withNames)).take count)
        count) := by
  obtain ⟨reply, solved, stops⟩ := prepareSolves keeps unheard request withNames
  have blocks := printsBlocks unheard printing stops
  have value := stops.value
  rw [prepareListens unheard, printing, if_pos rfl] at value
  subst content
  rw [List.map_take] at blocks
  exact searchPrints solved value blocks

theorem searchNames (keeps : solver.Keeps sheet) (unheard : Unheard solver)
    (silent : printsBoards request.limit = false) (withNames : Bool) :
    search request withNames solver = .ok (transcript
      ((sheet.search solver.config.byFewest).solutions.map (namesText withNames))
        (sheet.search solver.config.byFewest).solutions.length) := by
  obtain ⟨reply, solved, stops⟩ := prepareSolves keeps unheard request withNames
  have names := printsNames unheard silent stops
  have value := stops.value
  rw [prepareListens unheard, silent, if_neg Bool.false_ne_true, contentDeaf] at value
  exact searchPrints solved value names

theorem runSearches {arguments : List String} {limit : Option Nat} {built : Reply Unit} {result : Transcript}
    (size : size? arguments = some n) (limited : limit? arguments = some limit)
    (made : Queens.solver n = .ok built) (value : built.value = .ok ())
    (searched : search ⟨n, limit⟩ withNames built.solver = .ok result) :
    run arguments withNames = .ok result := by
  have requested : CommandLine.request arguments = .ok ⟨n, limit⟩ := by
    rw [CommandLine.request, size]
    dsimp only
    rw [limited]
  simp only [run, requested, made, value, searched, bind, Except.bind]

/-- What is printed for these solutions with any limit or none: all blocks, so many of the first ones as
the limit spoken, or for the limit 0 no boards. -/
structure Prints (n : Nat) (solutions : List Solution) (arguments : List String) (withNames : Bool) :
    Prop where
  whole : limit? arguments = some none →
    run arguments withNames = .ok (transcript (solutions.map (block n withNames)) solutions.length)
  cut : ∀ limit, 0 < limit → limit? arguments = some (some limit) →
    run arguments withNames = .ok (transcript
      ((solutions.map (block n withNames)).take (min limit solutions.length)) (min limit solutions.length))
  boardless : limit? arguments = some (some 0) →
    run arguments withNames = .ok (transcript (solutions.map (namesText withNames)) solutions.length)

theorem runPrints {built : Reply Unit} (made : Queens.solver n = .ok built) (value : built.value = .ok ())
    (keeps : built.solver.Keeps sheet) {arguments : List String} (size : size? arguments = some n)
    (withNames : Bool) :
    Prints n (sheet.search built.solver.config.byFewest).solutions arguments withNames := by
  have unheard := solverUnheard made
  refine ⟨fun limited => ?_, fun limit positive limited => ?_, fun limited => ?_⟩
  · have all : search ⟨n, none⟩ withNames built.solver = .ok _ :=
      searchBlocks keeps unheard rfl withNames (contentUnlimited _)
    rw [List.take_of_length_le (Nat.le_of_eq (List.length_map _))] at all
    exact runSearches size limited made value all
  · have printing : printsBoards (some limit) = true := by
      simpa [printsBoards] using Nat.ne_of_gt positive
    exact runSearches size limited made value (searchBlocks keeps unheard printing withNames
      (contentLimited positive fun place solution => keeps.numberPlace))
  · exact runSearches size limited made value (searchNames keeps unheard rfl withNames)

theorem limitCutsRun (n : Nat) : ∃ built solutions removals, Queens.solver n = .ok built ∧
    built.solver.Lists solutions removals ∧
    (∀ place solution, solutions[place]? = some solution → solution.number = place + 1) ∧
    (solutions.map (drawn n)).Nodup ∧ (∀ lines, lines ∈ solutions.map (drawn n) ↔ Diagram n lines) ∧
    (∀ arguments withNames, size? arguments = some n → Prints n solutions arguments withNames) ∧
    (0 < n → n < UInt64.size → ∀ others, size? (toString n :: others) = some n) ∧
    ∀ limit < UInt64.size, ∀ size others, limit? (size :: toString limit :: others) = some (some limit) := by
  obtain ⟨built, sheet, made, value, keeps, loaded⟩ := solverLoads n
  have placed := searchPlaces keeps (loadedModels loaded)
  obtain ⟨distinct, diagrams⟩ := diagramsDrawn placed
  have same : ((sheet.search built.solver.config.byFewest).solutions.map fun solution =>
      solution.rows.map (Square.ofIndex n)).map (drawnLines n) =
        (sheet.search built.solver.config.byFewest).solutions.map (drawn n) := by
    rw [List.map_map]
    exact List.map_congr_left fun solution _ => (drawnChosen n solution).symm
  rw [same] at distinct
  simp only [same] at diagrams
  exact ⟨built, _, _, made, keeps.searchLists, fun _ _ => keeps.numberPlace, distinct, diagrams,
    fun arguments withNames size => runPrints made value keeps size withNames, sizeRead,
    fun _ => limitRead⟩

theorem fourPrinted : ∃ solutions : List Solution,
    drawnLines 4 [⟨0, 1⟩, ⟨1, 3⟩, ⟨2, 0⟩, ⟨3, 2⟩] ∈ solutions.map (drawn 4) ∧ ∀ withNames,
      run ["4"] withNames = .ok (transcript (solutions.map (block 4 withNames)) solutions.length) ∧
      run ["4", "1"] withNames = .ok (transcript
        ((solutions.map (block 4 withNames)).take (min 1 solutions.length)) (min 1 solutions.length)) ∧
      run ["4", "0"] withNames =
        .ok (transcript (solutions.map (namesText withNames)) solutions.length) := by
  obtain ⟨-, solutions, -, -, -, -, -, diagrams, prints, sizes, limits⟩ := limitCutsRun 4
  have placement : Placement 4 [⟨0, 1⟩, ⟨1, 3⟩, ⟨2, 0⟩, ⟨3, 2⟩].toFinset :=
    ⟨by decide, by decide, by decide⟩
  have size : ∀ others, size? (toString 4 :: others) = some 4 := sizes (by decide) (by decide)
  have one : limit? ["4", toString 1] = some (some 1) := limits 1 (by decide) "4" []
  have zero : limit? ["4", toString 0] = some (some 0) := limits 0 (by decide) "4" []
  refine ⟨solutions, (diagrams _).mpr placement.drawnDiagram, fun withNames => ⟨?_, ?_, ?_⟩⟩
  · exact (prints ["4"] withNames (size [])).whole rfl
  · exact (prints ["4", "1"] withNames (size ["1"])).cut 1 (by decide) one
  · exact (prints ["4", "0"] withNames (size ["0"])).boardless zero

end DancingLinks.Queens.CommandLine
