import DancingLinks.Proofs.SiteRoles
import DancingLinks.Proofs.BranchChoice

/-! Nested covers are undone exactly, whichever columns they take, also those on which no search would
branch. Covers and uncovers are moves; a call on a row counts as the moves of the columns of its other
entries. Every uncover finds the arena as its cover left it, but for the count of removals: all that
was covered in between has been uncovered again. What is needed for the undoing is kept on a stack, one
level for each column that is covered. -/
namespace DancingLinks

inductive Move where
  | cover (column : Nat)
  | uncover (column : Nat)
  deriving DecidableEq, Repr

inductive CoverCall where
  | cover (column : Nat)
  | uncover (column : Nat)
  | coverRow (entry : Site)
  | uncoverRow (entry : Site)
  deriving DecidableEq, Repr

namespace Torus

def move (torus : Torus) : Move → Except Fault Torus
  | .cover column => torus.cover column
  | .uncover column => torus.uncover column

def moves (torus : Torus) (list : List Move) : Except Fault Torus := list.foldlM move torus

def call (torus : Torus) : CoverCall → Except Fault Torus
  | .cover column => torus.cover column
  | .uncover column => torus.uncover column
  | .coverRow entry => torus.coverRow entry
  | .uncoverRow entry => torus.uncoverRow entry

def movesOf (torus : Torus) : CoverCall → Except Fault (List Move)
  | .cover column => return [.cover column]
  | .uncover column => return [.uncover column]
  -- only an entry of a row has other entries, so a head counts as nothing here
  | .coverRow entry => do
    let _ ← torus.rowOf entry
    let columns ← torus.rowColumns entry
    return columns.tail.map .cover
  | .uncoverRow entry => do
    let _ ← torus.rowOf entry
    let columns ← torus.rowColumns entry
    return columns.tail.reverse.map .uncover

end Torus

/-- Moves that cover columns which are not covered, and uncover the one covered last. -/
inductive Nests (width : Nat) : List Nat → List Move → List Nat → Prop where
  | done (covered) : Nests width covered [] covered
  | cover {column covered moves last} (known : column < width) (fresh : column ∉ covered)
      (rest : Nests width (column :: covered) moves last) : Nests width covered (.cover column :: moves) last
  | uncover {column covered moves last} (rest : Nests width covered moves last) :
      Nests width (column :: covered) (.uncover column :: moves) last

inductive Balanced : List Move → Prop where
  | none : Balanced []
  | pair {column inner rest} (within : Balanced inner) (after : Balanced rest) :
      Balanced (.cover column :: (inner ++ .uncover column :: rest))

theorem Balanced.append {first second : List Move} (before : Balanced first) (after : Balanced second) :
    Balanced (first ++ second) := by
  induction before with
  | none => exact after
  | @pair column inner rest within _ _ ih =>
    rw [List.cons_append, List.append_assoc, List.cons_append]
    exact .pair within ih

theorem Balanced.coverUncover {inner : List Move} (within : Balanced inner) (column : Nat) :
    Balanced (.cover column :: (inner ++ [.uncover column])) := .pair within .none

/-- What nested moves do: every uncover takes back its cover, every cover counts itself and the other
entries of the rows that are live in its column, and nothing is ever counted off. -/
structure Torus.Unwinds (base : Torus) (moves : List Move) : Prop where
  undone : ∀ before column rest, moves = before ++ .uncover column :: rest →
    ∃ earlier inner start torus after, before = earlier ++ .cover column :: inner ∧ Balanced inner ∧
      base.moves earlier = .ok start ∧ base.moves before = .ok torus ∧
      torus.uncover column = .ok after ∧ after = start.withRemovals torus.removals
  counted : ∀ before column rest, moves = before ++ .cover column :: rest →
    ∃ torus after header entries rows, base.moves before = .ok torus ∧ torus.cover column = .ok after ∧
      torus.column column = .ok header ∧ torus.ring header.head .down = .ok entries ∧
      entries.mapM torus.rowColumns = .ok rows ∧
      after.removals = torus.removals + 1 + (rows.map fun row => row.length - 1).sum
  grows : ∀ before rest, moves = before ++ rest → ∃ torus last, base.moves before = .ok torus ∧
    base.moves moves = .ok last ∧ torus.removals ≤ last.removals

theorem Torus.movesAppend (torus : Torus) (first second : List Move) :
    torus.moves (first ++ second) = torus.moves first >>= fun next => next.moves second :=
  List.foldlM_append ..

theorem Torus.movesMore {base torus : Torus} {before : List Move} (ran : base.moves before = .ok torus)
    (move : Move) : base.moves (before ++ [move]) = torus.move move := by
  have last : torus.moves [move] = torus.move move := bind_pure (m := Except Fault) _
  rw [Torus.movesAppend, ran]
  exact last

def Woven.Under (seat : Role → Site) (sheet : Sheet) (covered : List Nat) (torus : Torus) : Prop :=
  ∃ roster, Woven seat sheet roster torus ∧ roster.Remains sheet covered

variable {seat : Role → Site} {sheet : Sheet} {base torus : Torus} {covered last : List Nat}
  {column : Nat} {moves more : List Move}

theorem Woven.Under.withRemovals (under : Woven.Under seat sheet covered torus) (count : Nat) :
    Woven.Under seat sheet covered (torus.withRemovals count) := by
  obtain ⟨roster, woven, remains⟩ := under
  exact ⟨_, woven.withRemovals count, remains.withWork count⟩

theorem Woven.Under.coverCounts (under : Woven.Under seat sheet covered torus) (sound : sheet.Sound)
    (known : column < sheet.columns.length) (fresh : column ∉ covered) :
    ∃ after header entries rows, torus.cover column = .ok after ∧
      Woven.Under seat sheet (column :: covered) after ∧ Torus.Reverts (·.uncover column) after torus ∧
      torus.column column = .ok header ∧ torus.ring header.head .down = .ok entries ∧
      entries.mapM torus.rowColumns = .ok rows ∧
      after.removals = torus.removals + 1 + (rows.map fun row => row.length - 1).sum := by
  obtain ⟨roster, woven, remains⟩ := under
  obtain ⟨after, done, held, undo⟩ := woven.coverWoven sound remains known fresh
  obtain ⟨header, listed, read, -, -⟩ := woven.headerOf known
  obtain ⟨-, head, -⟩ := woven.headers column header listed
  have holds : ∀ row ∈ roster.live column, column ∈ sheet.columnsOf row := fun row live =>
    remains.within.liveMeets sound live
  have rows := mapMOk fun row live => woven.columnsRead sound (holds row live)
  refine ⟨after, header, _, _, done, ⟨_, held, remains.coverRemains sound fresh⟩, undo, read,
    head ▸ woven.ringBelow sound remains.within known, by rw [Roster.entriesIn, List.map_map]; exact rows, ?_⟩
  rw [held.work, woven.work, Roster.cover, List.map_map]
  refine congrArg (roster.work + 1 + List.sum ·) (List.map_congr_left fun row live => ?_)
  exact (beyondLength (holds row live)).symm

/-- What is known of an arena after nested moves: the moves made since the last column that is still
covered are balanced, and uncovering it leads back to the arena just before it was covered. -/
inductive Held (seat : Role → Site) (sheet : Sheet) (base : Torus) : List Move → List Nat → Torus → Prop where
  | rest {list : List Move} {now : Torus} (under : Woven.Under seat sheet [] now) (balanced : Balanced list)
      (same : now = base.withRemovals now.removals) : Held seat sheet base list [] now
  | cover {earlier inner : List Move} {open_ : List Nat} {column : Nat} {start now : Torus}
      (under : Woven.Under seat sheet (column :: open_) now)
      (below : Held seat sheet base earlier open_ start) (ran : base.moves earlier = .ok start)
      (balanced : Balanced inner) (undo : Torus.Reverts (·.uncover column) now start) :
      Held seat sheet base (earlier ++ .cover column :: inner) (column :: open_) now

namespace Held

theorem wovenUnder (held : Held seat sheet base moves covered torus) :
    Woven.Under seat sheet covered torus := by
  cases held with
  | rest under _ _ => exact under
  | cover under _ _ _ _ => exact under

theorem balancedKeeps (held : Held seat sheet base moves covered torus) (balanced : Balanced more)
    (count : Nat) :
    Held seat sheet base (moves ++ more) covered (torus.withRemovals count) := by
  cases held with
  | rest under before same =>
    refine .rest (under.withRemovals count) (before.append balanced) ?_
    rw [same]
    rfl
  | cover under below ran before undo =>
    rw [List.append_assoc, List.cons_append]
    exact .cover (under.withRemovals count) below ran (before.append balanced) fun other => undo other

theorem coverHeld (held : Held seat sheet base moves covered torus) (ran : base.moves moves = .ok torus)
    (sound : sheet.Sound) (known : column < sheet.columns.length) (fresh : column ∉ covered) :
    ∃ after, torus.cover column = .ok after ∧ torus.removals ≤ after.removals ∧
      Held seat sheet base (moves ++ [.cover column]) (column :: covered) after := by
  obtain ⟨after, header, entries, rows, done, under, undo, -, -, -, count⟩ :=
    held.wovenUnder.coverCounts sound known fresh
  exact ⟨after, done, by omega, .cover under held ran .none undo⟩

theorem uncoverReturns (held : Held seat sheet base moves (column :: covered) torus) :
    ∃ earlier inner start, moves = earlier ++ .cover column :: inner ∧ Balanced inner ∧
      base.moves earlier = .ok start ∧ torus.uncover column = .ok (start.withRemovals torus.removals) ∧
      Held seat sheet base (moves ++ [.uncover column]) covered (start.withRemovals torus.removals) := by
  cases held with
  | @cover earlier inner _ _ start _ under below ran balanced undo =>
    refine ⟨earlier, inner, start, rfl, balanced, ran, undo torus.removals, ?_⟩
    rw [List.append_assoc, List.cons_append]
    exact below.balancedKeeps (balanced.coverUncover column) torus.removals

theorem moveHeld {move : Move} (held : Held seat sheet base moves covered torus)
    (ran : base.moves moves = .ok torus) (sound : sheet.Sound)
    (nests : Nests sheet.columns.length covered (move :: more) last) :
    ∃ covered' after, torus.move move = .ok after ∧ torus.removals ≤ after.removals ∧
      Held seat sheet base (moves ++ [move]) covered' after ∧
      Nests sheet.columns.length covered' more last := by
  cases nests with
  | cover known fresh rest =>
    obtain ⟨after, done, more, held⟩ := held.coverHeld ran sound known fresh
    exact ⟨_, after, done, more, held, rest⟩
  | uncover rest =>
    obtain ⟨earlier, inner, start, -, -, -, done, held⟩ := held.uncoverReturns
    exact ⟨_, _, done, Nat.le_refl _, held, rest⟩

theorem movesHeld (held : Held seat sheet base moves covered torus) (ran : base.moves moves = .ok torus)
    (sound : sheet.Sound) {later : List Move}
    (nests : Nests sheet.columns.length covered (more ++ later) last) :
    ∃ covered' after, base.moves (moves ++ more) = .ok after ∧ torus.moves more = .ok after ∧
      torus.removals ≤ after.removals ∧
      Held seat sheet base (moves ++ more) covered' after ∧
      Nests sheet.columns.length covered' later last := by
  induction more generalizing moves covered torus with
  | nil => exact ⟨covered, torus, by rwa [List.append_nil], rfl,
    Nat.le_refl _, by rwa [List.append_nil], nests⟩
  | cons move rest ih =>
    obtain ⟨covered', next, done, grown, held', nests'⟩ := held.moveHeld ran sound nests
    obtain ⟨last', after, all, from_, more, ends⟩ :=
      ih held' ((Torus.movesMore ran move).trans done) nests'
    rw [List.append_assoc, List.singleton_append] at all ends
    exact ⟨last', after, all, by rw [Torus.moves, List.foldlM_cons, done]; exact from_, grown.trans more, ends⟩

end Held

theorem Torus.actsEach (act : Torus → Nat → Except Fault Torus) (move : Nat → Move)
    (acts : ∀ torus column, act torus column = torus.move (move column))
    (keeps : ∀ {torus column after}, act torus column = .ok after → torus.Alike after) {row : Nat}
    {columns : List Nat} {torus : Torus}
    (present : ∀ y ∈ columns, torus.roleAt (seat (.entry row y)) = some (.entry row y)) :
    ((entriesAcross row columns).map seat).foldlM (fun torus site => do
        let column ← torus.columnOf site
        act torus column) torus = torus.moves (columns.map move) := by
  induction columns generalizing torus with
  | nil => rfl
  | cons column rest ih =>
    obtain ⟨here, present⟩ := List.forall_mem_cons.mp present
    rw [entriesAcross, List.map_cons, List.map_cons, List.foldlM_cons, Torus.columnOfEntry here]
    rw [Torus.moves, List.map_cons, List.foldlM_cons, ← acts]
    cases done : act torus column with
    | error fault => simp [done, bind, Except.bind]
    | ok after =>
      simp only [bind, Except.bind, done]
      -- the column of an entry is read when its turn comes, and no act changes it
      exact ih fun y member => (congrFun (keeps done).roles _).trans (present y member)

theorem Woven.callsAs {roster first : Roster} (resting : Woven seat sheet first base)
    (woven : Woven seat sheet roster torus) (sound : sheet.Sound) (charted : base.Charted sheet)
    {call : CoverCall} (counts : base.movesOf call = .ok moves) : torus.call call = torus.moves moves := by
  cases call with
  | cover column =>
    cases counts
    exact (bind_pure (m := Except Fault) _).symm
  | uncover column =>
    cases counts
    exact (bind_pure (m := Except Fault) _).symm
  | coverRow entry =>
    obtain ⟨row, found, counts⟩ := bindOk.mp counts
    obtain ⟨column, member, rfl⟩ := resting.entryOf charted found
    rw [resting.columnsRead sound member] at counts
    cases counts
    rw [Torus.call, Torus.coverRow, woven.ringRight sound member]
    refine Torus.actsEach Torus.cover .cover (fun _ _ => rfl) Torus.coverKeeps fun y inside => ?_
    exact woven.seated (.entry row y) ((memBeyond (sound.distinct row) member).mp inside).1
  | uncoverRow entry =>
    obtain ⟨row, found, counts⟩ := bindOk.mp counts
    obtain ⟨column, member, rfl⟩ := resting.entryOf charted found
    rw [resting.columnsRead sound member] at counts
    cases counts
    have ring := woven.ringLeft sound member
    rw [entriesAcross, ← List.map_reverse, ← entriesAcross] at ring
    rw [Torus.call, Torus.uncoverRow, ring]
    refine Torus.actsEach Torus.uncover .uncover (fun _ _ => rfl) Torus.uncoverKeeps fun y inside => ?_
    exact woven.seated (.entry row y)
      ((memBeyond (sound.distinct row) member).mp (List.mem_reverse.mp inside)).1

theorem mapMTake {α β ε : Type} {f : α → Except ε β} {items : List α} {results : List β}
    (done : items.mapM f = .ok results) (count : Nat) :
    (items.take count).mapM f = .ok (results.take count) := by
  induction items generalizing results count with
  | nil =>
    cases done
    simp [pure, Except.pure]
  | cons item rest ih =>
    rw [List.mapM_cons] at done
    obtain ⟨result, first, done⟩ := bindOk.mp done
    obtain ⟨others, later, same⟩ := bindOk.mp done
    cases same
    cases count with
    | zero => rfl
    | succ count => simp [List.mapM_cons, first, ih later count, bind, Except.bind, pure, Except.pure]

theorem Held.callsEach {first : Roster} (resting : Woven seat sheet first base) (sound : sheet.Sound)
    (charted : base.Charted sheet) {calls : List CoverCall} {lists : List (List Move)} {later : List Move}
    (held : Held seat sheet base moves covered torus) (ran : base.moves moves = .ok torus)
    (counted : calls.mapM base.movesOf = .ok lists)
    (nests : Nests sheet.columns.length covered (lists.flatten ++ later) last) :
    calls.foldlM Torus.call torus = torus.moves lists.flatten := by
  induction calls generalizing lists moves covered torus with
  | nil =>
    cases counted
    rfl
  | cons call rest ih =>
    rw [List.mapM_cons] at counted
    obtain ⟨list, counts, counted⟩ := bindOk.mp counted
    obtain ⟨others, each, same⟩ := bindOk.mp counted
    cases same
    rw [List.flatten_cons, List.append_assoc] at nests
    obtain ⟨roster, woven, -⟩ := held.wovenUnder
    obtain ⟨covered', next, all, done, -, held', nests'⟩ := held.movesHeld ran sound nests
    rw [List.foldlM_cons, resting.callsAs woven sound charted counts, List.flatten_cons,
      Torus.movesAppend, done]
    exact ih held' all each nests'

theorem Held.nestedUnwinds (held : Held seat sheet base [] [] base) (sound : sheet.Sound)
    (nests : Nests sheet.columns.length [] moves last) : base.Unwinds moves where
  undone before column rest split := by
    obtain ⟨covered, torus, ran, -, -, held, nests⟩ := held.movesHeld rfl sound (split ▸ nests)
    cases nests with
    | uncover _ =>
      obtain ⟨earlier, inner, start, within, balanced, begun, done, -⟩ := held.uncoverReturns
      exact ⟨earlier, inner, start, torus, _, within, balanced, begun, ran, done, rfl⟩
  counted before column rest split := by
    obtain ⟨covered, torus, ran, -, -, held, nests⟩ := held.movesHeld rfl sound (split ▸ nests)
    cases nests with
    | cover known fresh _ =>
      obtain ⟨after, header, entries, rows, done, -, -, read, ring, across, count⟩ :=
        held.wovenUnder.coverCounts sound known fresh
      exact ⟨torus, after, header, entries, rows, ran, done, read, ring, across, count⟩
  grows before rest split := by
    subst split
    obtain ⟨covered, torus, ran, -, -, held, nests⟩ := held.movesHeld rfl sound nests
    rw [← List.append_nil rest] at nests
    obtain ⟨covered', after, all, -, more, -, -⟩ := held.movesHeld ran sound nests
    exact ⟨torus, after, ran, all, more⟩

theorem nestedCoversUnwind {edits : List Edit} {base : Torus} (history : Edited edits base)
    {calls : List CoverCall} {lists : List (List Move)} (counted : calls.mapM base.movesOf = .ok lists)
    {last : List Nat} (nests : Nests base.columns.size [] lists.flatten last) :
    (∀ count, (calls.take count).foldlM Torus.call base = base.moves (lists.take count).flatten) ∧
      base.Unwinds lists.flatten := by
  obtain ⟨holds, sound⟩ := history.editedHolds
  obtain ⟨seat, resting, -⟩ := holds
  have woven := resting.toWoven
  have held : Held seat (.edited edits) base [] [] base := .rest ⟨_, woven, atRest _ _⟩ .none rfl
  rw [woven.width] at nests
  refine ⟨fun count => ?_, held.nestedUnwinds sound nests⟩
  have split : lists.flatten = (lists.take count).flatten ++ (lists.drop count).flatten := by
    rw [← List.flatten_append, List.take_append_drop]
  exact held.callsEach woven sound history.editedCharted rfl (mapMTake counted count) (split ▸ nests)

def nestedCalls : List CoverCall :=
  [.cover 0, .coverRow 3, .uncoverRow 3, .cover 1, .uncover 1, .uncover 0]

theorem toggledUnwound :
    let lists := [[.cover 0], [.cover 1], [.uncover 1], [.cover 1], [.uncover 1], [Move.uncover 0]]
    Edited toggling .toggled ∧ nestedCalls.mapM Torus.toggled.movesOf = .ok lists ∧
      Nests Torus.toggled.columns.size [] lists.flatten [] ∧
      (∀ count, (nestedCalls.take count).foldlM Torus.call .toggled =
        Torus.toggled.moves (lists.take count).flatten) ∧
      Torus.toggled.Unwinds lists.flatten := by
  have counted : nestedCalls.mapM Torus.toggled.movesOf =
      .ok [[.cover 0], [.cover 1], [.uncover 1], [.cover 1], [.uncover 1], [Move.uncover 0]] := by
    decide
  have nests : Nests Torus.toggled.columns.size []
      [.cover 0, .cover 1, .uncover 1, .cover 1, .uncover 1, .uncover 0] [] :=
    .cover (by decide) (by decide) (.cover (by decide) (by decide) (.uncover (.cover (by decide) (by decide)
      (.uncover (.uncover (.done []))))))
  exact ⟨toggledMade, counted, nests, nestedCoversUnwind toggledMade counted nests⟩

end DancingLinks
