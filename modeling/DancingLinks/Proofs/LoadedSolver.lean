import DancingLinks.Proofs.History

/-! Solvers that are loaded all at once: first columns, then rows, each from its first entry to its last.
When every call is answered well the solver rests on a sheet with just these columns and with those rows
that are not empty; every row is in play, and in every column the later rows are above the earlier ones.
In strict mode the first column whose name is taken is turned down, and no column for another reason. -/
namespace DancingLinks

def firstTaken (given : List String) : List String → Option String
  | [] => none
  | name :: rest => if name ∈ given then some name else firstTaken (given ++ [name]) rest

theorem takenNone {given names : List String} : firstTaken given names = none ↔
    names.Nodup ∧ ∀ name ∈ names, name ∉ given := by
  induction names generalizing given with
  | nil => simp [firstTaken]
  | cons name rest ih =>
    rw [firstTaken, List.nodup_cons, List.forall_mem_cons]
    split
    · rename_i taken
      simp [taken]
    · rename_i fresh
      rw [ih]
      constructor
      · intro later
        obtain ⟨distinct, absent⟩ := later
        refine ⟨⟨fun member => absent name member (by simp), distinct⟩, fresh, fun other member => ?_⟩
        exact fun there => absent other member (List.mem_append_left _ there)
      · intro all
        obtain ⟨⟨apart, distinct⟩, -, absent⟩ := all
        refine ⟨distinct, fun other member there => ?_⟩
        rcases List.mem_append.mp there with there | same
        · exact absent other member there
        · exact apart (List.mem_singleton.mp same ▸ member)

theorem takenFirst {given names : List String} {name : String} : firstTaken given names = some name ↔
    ∃ before after, names = before ++ name :: after ∧ firstTaken given before = none ∧
      name ∈ given ++ before := by
  induction names generalizing given with
  | nil => simp [firstTaken]
  | cons first rest ih =>
    rw [firstTaken]
    split
    · rename_i taken
      constructor
      · intro same
        cases same
        exact ⟨[], rest, rfl, rfl, by simpa using taken⟩
      · intro split
        obtain ⟨before, after, same, fresh, -⟩ := split
        cases before with
        | nil =>
          cases same
          rfl
        | cons other before =>
          cases same
          rw [firstTaken, if_pos taken] at fresh
          cases fresh
    · rename_i absent
      rw [ih]
      constructor
      · intro split
        obtain ⟨before, after, rfl, fresh, member⟩ := split
        exact ⟨first :: before, after, rfl, by rw [firstTaken, if_neg absent, fresh], by simpa using member⟩
      · intro split
        obtain ⟨before, after, same, fresh, member⟩ := split
        cases before with
        | nil =>
          cases same
          exact absurd (by simpa using member) absent
        | cons other before =>
          cases same
          rw [firstTaken, if_neg absent] at fresh
          exact ⟨before, after, rfl, fresh, by simpa using member⟩

def columnsAnswer (permissive : Bool) (given names : List String) : Except Error Unit :=
  match firstTaken given names with
  | some name => if permissive then .ok () else .error (.duplicateColumn name)
  | none => .ok ()

theorem answerTaken {given : List String} {name : String} (taken : name ∈ given) (rest : List String) :
    columnsAnswer false given (name :: rest) = .error (.duplicateColumn name) := by
  rw [columnsAnswer, firstTaken, if_pos taken]
  rfl

theorem answerPermissive (given names : List String) : columnsAnswer true given names = .ok () := by
  unfold columnsAnswer
  split <;> rfl

theorem answerFresh {permissive : Bool} {given names : List String} (fresh : firstTaken given names = none) :
    columnsAnswer permissive given names = .ok () := by
  rw [columnsAnswer, fresh]

theorem answerPassed {permissive : Bool} {given : List String} {name : String}
    (passed : name ∈ given → permissive = true) (rest : List String) :
    columnsAnswer permissive given (name :: rest) = columnsAnswer permissive (given ++ [name]) rest := by
  by_cases taken : name ∈ given
  · rw [passed taken, answerPermissive, answerPermissive]
  · rw [columnsAnswer, firstTaken, if_neg taken, columnsAnswer]

theorem answerOk {permissive : Bool} {given names : List String}
    (well : columnsAnswer permissive given names = .ok ()) :
    permissive = true ∨ firstTaken given names = none := by
  unfold columnsAnswer at well
  split at well
  · split at well
    · rename_i allowed
      exact .inl allowed
    · cases well
  · rename_i fresh
    exact .inr fresh

theorem answerError {permissive : Bool} {given names : List String} {error : Error}
    (failed : columnsAnswer permissive given names = .error error) :
    ∃ name, error = .duplicateColumn name ∧ permissive = false ∧ firstTaken given names = some name := by
  unfold columnsAnswer at failed
  split at failed
  · rename_i name taken
    split at failed
    · cases failed
    · rename_i strict
      cases failed
      exact ⟨name, rfl, Bool.eq_false_iff.mpr strict, taken⟩
  · cases failed

theorem Reply.eachMap {α β γ : Type} (call : β → Solver → Except Fault (Reply γ)) (f : α → β)
    (items : List α) (solver : Solver) :
    Reply.each call (items.map f) solver = Reply.each (fun item => call (f item)) items solver := by
  induction items generalizing solver with
  | nil => rfl
  | cons item rest ih => simp only [List.map_cons, Reply.each, ih]

theorem Reply.eachCons {α β : Type} {call : α → Solver → Except Fault (Reply β)} {item : α}
    {rest : List α} {solver : Solver} {reply : Reply β} {others : Reply Unit} {b : β}
    (called : call item solver = .ok reply) (well : reply.value = .ok b)
    (later : Reply.each call rest reply.solver = .ok others) :
    Reply.each call (item :: rest) solver =
      .ok { others with
        events := reply.events ++ others.events
        printed := reply.printed ++ others.printed } := by
  simp only [Reply.each, called, well, later, bind, Except.bind]
  rfl

namespace Sheet

def withColumns (sheet : Sheet) (columns : List (String × Bool)) : Sheet :=
  { sheet with columns := sheet.columns ++ columns }

variable {sheet : Sheet} {columns : List (String × Bool)} {name : String} {index : Nat}

theorem nameAt (inside : index < sheet.columns.length) :
    (sheet.columns.map Prod.fst)[index]? = some (sheet.nameOf index) := by
  rw [nameOf, List.getElem?_map, List.getElem?_eq_getElem inside]
  rfl

theorem findNone : sheet.find? name = none ↔ name ∉ sheet.columns.map Prod.fst := by
  simp only [find?, List.find?_eq_none, List.mem_reverse, List.mem_range, beq_iff_eq]
  constructor
  · intro absent member
    obtain ⟨index, found⟩ := List.getElem?_of_mem member
    have inside : index < sheet.columns.length := by
      simpa using (List.getElem?_eq_some_iff.mp found).1
    rw [nameAt inside, Option.some_inj] at found
    exact absent index inside found
  · intro absent index inside same
    exact absent (List.mem_of_getElem? (same ▸ nameAt inside))

theorem findSome : (sheet.find? name).isSome = true ↔ name ∈ sheet.columns.map Prod.fst := by
  rw [Option.isSome_iff_ne_none, Ne, findNone, not_not]

theorem findListed (distinct : (sheet.columns.map Prod.fst).Nodup)
    (listed : (sheet.columns.map Prod.fst)[index]? = some name) : sheet.find? name = some index := by
  cases found : sheet.find? name with
  | none => exact absurd (List.mem_of_getElem? listed) (findNone.mp found)
  | some other =>
    have inside := findKnown found
    have same : sheet.nameOf other = name := by simpa using List.find?_some found
    have there := nameAt inside
    rw [same] at there
    have length : other < (sheet.columns.map Prod.fst).length := by simpa using inside
    rw [(List.getElem?_inj length distinct).mp (there.trans listed.symm)]

theorem resolveSame {other : Sheet} (same : other.columns = sheet.columns) :
    other.resolve = sheet.resolve := by
  funext column
  cases column with
  | named name => simp only [resolve, find?, nameOf, same]
  | numbered index => simp only [resolve, same]

structure Filling (columns : List (String × Bool)) (done : List (List Nat)) (start : List Nat)
    (sheet : Sheet) : Prop where
  sound : sheet.Sound
  full : ∀ row, ∀ column ∈ sheet.columnsOf row, row ∈ sheet.live column
  falling : ∀ column, (sheet.live column).Pairwise (· > ·)
  columns : sheet.columns = columns
  rows : sheet.rows = done.filter (· ≠ []) ++ [start].filter (· ≠ [])
  building : sheet.isBuilding = true ↔ start ≠ []

namespace Filling

variable {done : List (List Nat)} {start : List Nat} {column : Nat}

theorem ofColumns (columns : List (String × Bool)) :
    Filling columns [] [] (Sheet.empty.withColumns columns) where
  sound := by
    have empty := Sheet.Sound.emptySound
    exact ⟨by simp [withColumns, Sheet.empty, columnsOf], empty.distinct, empty.filled, empty.once,
      empty.holds, empty.whole, empty.begun⟩
  full := by simp [withColumns, Sheet.empty, columnsOf]
  falling := by simp [withColumns, Sheet.empty]
  columns := rfl
  rows := rfl
  building := by simp [withColumns, Sheet.empty]

theorem newRow (filling : Filling columns done start sheet) :
    Filling columns (done ++ [start]) [] sheet.newRow where
  sound := filling.sound.newRowSound
  full := filling.full
  falling := filling.falling
  columns := filling.columns
  rows := by
    rw [List.filter_append]
    exact filling.rows.trans (List.append_nil _).symm
  building := by simp [Sheet.newRow]

theorem columnsHere (filling : Filling columns done start sheet) :
    sheet.columnsOf sheet.rowInProgress = start := (rowBegun filling.rows filling.building).1

theorem rowInPlay (filling : Filling columns done start sheet) :
    ∀ y ∈ sheet.columnsOf sheet.rowInProgress, sheet.rowInProgress ∈ sheet.live y :=
  filling.full sheet.rowInProgress

theorem placeFills (filling : Filling columns done start sheet) (known : column < sheet.columns.length)
    (fresh : column ∉ start) : Filling columns done (start ++ [column]) (sheet.place column) := by
  obtain ⟨now, before⟩ := rowBegun filling.rows filling.building
  have absent : column ∉ sheet.columnsOf sheet.rowInProgress := now.symm ▸ fresh
  refine ⟨filling.sound.placeSound known filling.rowInPlay, ?_, fun y => ?_,
    (columnsPlaced sheet column).trans filling.columns, ?_, ?_⟩
  · intro row y inRow
    refine (livePlaced absent).mpr ?_
    exact ((filling.sound.memPlaced absent).mp inRow).imp_left (filling.full row y)
  · rw [placedLive absent]
    split
    · rename_i same
      subst same
      refine List.pairwise_cons.mpr ⟨fun row live => ?_, filling.falling y⟩
      -- only the row being built could be as late, and it has no entry here yet
      have member := filling.sound.holds y row live
      have bound := rowKnown member
      have short := filling.sound.progressBounds.2.1
      have apart : row ≠ sheet.rowInProgress := fun same => absent (same ▸ member)
      omega
    · exact filling.falling y
  · simp [Sheet.place, fresh, before, now]
  · simp [Sheet.place, if_neg absent]

end Filling

/-- A sheet with these columns, and with these rows as far as they are not empty, all of them in play and
the later ones on top. -/
structure Loaded (columns : List (String × Bool)) (rows : List (List Nat)) (sheet : Sheet) : Prop where
  sound : sheet.Sound
  full : ∀ row, ∀ column ∈ sheet.columnsOf row, row ∈ sheet.live column
  falling : ∀ column, (sheet.live column).Pairwise (· > ·)
  columns : sheet.columns = columns
  rows : sheet.rows = rows.filter (· ≠ [])

end Sheet

namespace Solver.Keeps

variable {solver : Solver} {sheet : Sheet} {columns : List (String × Bool)} {done : List (List Nat)}
  {start : List Nat}

theorem loadsColumns {α : Type} {column : α → String × Bool}
    {call : α → Solver → Except Fault (Reply Nat)} (keeps : solver.Keeps sheet) (items : List α)
    (reads : ∀ item solver, call item solver = solver.addColumn (column item).1 (column item).2) :
    ∃ reply, Reply.each call items solver = .ok reply ∧ reply.solver.config = solver.config ∧
      (∀ value, reply.value = .ok value → reply.solver.Keeps (sheet.withColumns (items.map column))) ∧
      reply.value = columnsAnswer solver.config.permissive (sheet.columns.map Prod.fst)
        (items.map fun item => (column item).1) := by
  induction items generalizing solver sheet with
  | nil =>
    have same : sheet.withColumns [] = sheet := by simp [Sheet.withColumns]
    exact ⟨_, rfl, rfl, fun _ _ => same.symm ▸ keeps, rfl⟩
  | cons item rest ih =>
    obtain ⟨reply, added, value, kept, config⟩ :=
      keeps.answersColumn (column item).1 (column item).2
    have called : call item solver = .ok reply := (reads item solver).trans added
    cases turned : (sheet.find? (column item).1).isSome && !solver.config.permissive with
    | true =>
      rw [turned, if_pos rfl] at value
      obtain ⟨found, strict⟩ := Bool.and_eq_true_iff.mp turned
      refine ⟨⟨.error (.duplicateColumn (column item).1), reply.solver, reply.events, reply.printed⟩, ?_,
        config, fun _ => nofun, ?_⟩
      · simp only [Reply.each, called, value, bind, Except.bind]
        rfl
      · have strict : solver.config.permissive = false := by simpa using strict
        rw [strict, List.map_cons, answerTaken (Sheet.findSome.mp found)]
    | false =>
      rw [turned, if_neg Bool.false_ne_true] at value
      rw [Sheet.perform, turned, if_neg Bool.false_ne_true] at kept
      obtain ⟨others, later, config', holds, answered⟩ := ih kept
      have same : (sheet.addColumn (column item).1 (column item).2).withColumns (rest.map column) =
          sheet.withColumns ((item :: rest).map column) := by
        simp [Sheet.withColumns, Sheet.addColumn]
      have names : (sheet.addColumn (column item).1 (column item).2).columns.map Prod.fst =
          sheet.columns.map Prod.fst ++ [(column item).1] := by
        simp [Sheet.addColumn]
      have passed : (column item).1 ∈ sheet.columns.map Prod.fst → solver.config.permissive = true := by
        intro taken
        simpa [Sheet.findSome.mpr taken] using turned
      refine ⟨_, Reply.eachCons called value later, config'.trans config, ?_, ?_⟩
      · exact fun value well => same ▸ holds value well
      · rw [List.map_cons, answerPassed passed, ← names, ← config]
        exact answered

theorem fillsRow {refs : List ColumnRef} {entries : List Nat} (keeps : solver.Keeps sheet)
    (filling : sheet.Filling columns done start) (resolved : refs.map sheet.resolve = entries.map some)
    (distinct : (start ++ entries).Nodup) :
    ∃ reply after, Reply.each (fun column solver => solver.setColumn column) refs solver = .ok reply ∧
      reply.value = .ok () ∧ reply.solver.Keeps after ∧ after.Filling columns done (start ++ entries) ∧
      reply.solver.config = solver.config := by
  induction refs generalizing solver sheet start entries with
  | nil =>
    have none : entries = [] := List.map_eq_nil_iff.mp resolved.symm
    subst none
    exact ⟨_, sheet, rfl, rfl, keeps, by simpa using filling, rfl⟩
  | cons column rest ih =>
    cases entries with
    | nil => cases resolved
    | cons index entries =>
      obtain ⟨first, others⟩ := List.cons_eq_cons.mp resolved
      have known := Sheet.resolveKnown first
      have fresh : index ∉ start := fun member =>
        (List.nodup_append.mp distinct).2.2 index member index List.mem_cons_self rfl
      have absent : index ∉ sheet.columnsOf sheet.rowInProgress := filling.columnsHere.symm ▸ fresh
      obtain ⟨reply, called, value, kept, config⟩ := keeps.setsFresh first absent filling.rowInPlay
      have same := Sheet.resolveSame (Sheet.columnsPlaced sheet index)
      rw [List.append_cons] at distinct
      obtain ⟨last, after, later, well, holds, filled, config'⟩ :=
        ih kept (filling.placeFills known fresh) (same.symm ▸ others) distinct
      rw [← List.append_cons] at filled
      exact ⟨_, after, Reply.eachCons called value later, well, holds, filled, config'.trans config⟩

theorem fillsRows {α : Type} {items : List α} {refs : α → List ColumnRef} {entries : α → List Nat}
    {call : α → Solver → Except Fault (Reply Unit)} (keeps : solver.Keeps sheet)
    (filling : sheet.Filling columns done start)
    (reads : ∀ item solver, call item solver =
      Reply.each (fun column solver => solver.setColumn column) (refs item) solver.newRow)
    (resolved : ∀ item ∈ items, (refs item).map sheet.resolve = (entries item).map some)
    (distinct : ∀ item ∈ items, (entries item).Nodup) :
    ∃ reply after ended last, Reply.each call items solver = .ok reply ∧ reply.value = .ok () ∧
      reply.solver.Keeps after ∧ after.Filling columns ended last ∧
      ended ++ [last] = done ++ [start] ++ items.map entries ∧
      reply.solver.config = solver.config := by
  induction items generalizing solver sheet done start with
  | nil => exact ⟨_, sheet, done, start, rfl, rfl, keeps, filling, (List.append_nil _).symm, rfl⟩
  | cons item rest ih =>
    have fresh : solver.newRow.Keeps sheet.newRow :=
      keeps.withTorus keeps.holds.newRow keeps.sound.newRowSound rfl
    obtain ⟨reply, middle, called, value, kept, filled, config⟩ :=
      fresh.fillsRow filling.newRow (resolved item List.mem_cons_self)
        (by simpa using distinct item List.mem_cons_self)
    rw [← reads item solver] at called
    have same : middle.resolve = sheet.resolve :=
      Sheet.resolveSame (filled.columns.trans filling.columns.symm)
    obtain ⟨others, after, ended, last, later, well, holds, filled, rows, config'⟩ :=
      ih kept filled (fun other member => same.symm ▸ resolved other (List.mem_cons_of_mem _ member))
        fun other member => distinct other (List.mem_cons_of_mem _ member)
    refine ⟨_, after, ended, last, Reply.eachCons called value later, well, holds, filled, ?_,
      config'.trans config⟩
    rw [rows, List.nil_append, List.map_cons, ← List.append_cons]

theorem loadsRows {α : Type} {refs : α → List ColumnRef} {entries : α → List Nat}
    {call : α → Solver → Except Fault (Reply Unit)}
    (keeps : solver.Keeps (Sheet.empty.withColumns columns)) (items : List α)
    (reads : ∀ item solver, call item solver =
      Reply.each (fun column solver => solver.setColumn column) (refs item) solver.newRow)
    (resolved : ∀ item ∈ items,
      (refs item).map (Sheet.empty.withColumns columns).resolve = (entries item).map some)
    (distinct : ∀ item ∈ items, (entries item).Nodup) :
    ∃ reply sheet, Reply.each call items solver = .ok reply ∧ reply.value = .ok () ∧
      reply.solver.Keeps sheet ∧ sheet.Loaded columns (items.map entries) ∧
      reply.solver.config = solver.config := by
  obtain ⟨reply, sheet, ended, last, called, value, kept, filled, rows, config⟩ :=
    keeps.fillsRows (.ofColumns columns) reads resolved distinct
  refine ⟨reply, sheet, called, value, kept, ⟨filled.sound, filled.full, filled.falling,
    filled.columns, ?_⟩, config⟩
  rw [filled.rows, ← List.filter_append, rows]
  simp

end Solver.Keeps

end DancingLinks
