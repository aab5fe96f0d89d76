import DancingLinks.Proofs.SolveAnswers

/-! Giving up an enumeration between two requests. At every answer each frame has its row chosen and
the path is made of these rows; only inside a request is there a frame whose row is still to be chosen,
and it is the deepest one. So undoing the frames from the deepest up takes back all that was covered. -/
namespace DancingLinks

namespace Position

variable {position after : Position} {column : Nat} {entry : Site}

theorem coverPath (done : position.cover column = .ok after) : after.path = position.path := by
  obtain ⟨torus, -, same⟩ := bindOk.mp done
  cases same
  rfl

theorem uncoverPath (done : position.uncover column = .ok after) : after.path = position.path := by
  obtain ⟨torus, -, same⟩ := bindOk.mp done
  cases same
  rfl

theorem enterPath (done : position.enter entry = .ok after) : after.path = entry :: position.path := by
  obtain ⟨torus, -, same⟩ := bindOk.mp done
  cases same
  rfl

theorem leavePath (done : position.leave entry = .ok after) : position.path = entry :: after.path := by
  unfold leave at done
  cases path : position.path with
  | nil =>
    simp only [path] at done
    cases done
  | cons latest earlier =>
    simp only [path] at done
    split at done
    · rename_i same
      obtain ⟨torus, -, last⟩ := bindOk.mp done
      cases last
      rw [same]
    · cases done

end Position

namespace Enumeration

structure AtRest (search : Enumeration) : Prop where
  entered : ∀ frame ∈ search.stack, frame.phase = .entered
  path : search.position.path = search.stack.map Frame.entry

def Underway (search : Enumeration) : Prop :=
  search.AtRest ∨ ∃ frame below, search.stack = frame :: below ∧ frame.phase = .ready ∧
    AtRest { search with stack := below }

variable {search after : Enumeration} {outcome : Option Solution} {outcomes : List (Option Solution)}
  {frame : Frame} {below : List Frame}

theorem AtRest.startAtRest (position : Position) (byFewest : Bool) : AtRest (.start position byFewest) :=
  ⟨by simp [Enumeration.start], rfl⟩

theorem AtRest.descendUnderway (rests : search.AtRest) (done : search.descend = .ok (outcome, after)) :
    after.Underway ∧ (outcome ≠ none → after.AtRest) := by
  unfold descend at done
  obtain ⟨choice, -, done⟩ := bindOk.mp done
  cases choice with
  | none =>
    obtain ⟨solution, -, same⟩ := bindOk.mp done
    cases same
    have still : AtRest { search with position := search.position.countFound } :=
      ⟨rests.entered, rests.path⟩
    exact ⟨.inl still, fun _ => still⟩
  | some column =>
    obtain ⟨position, covers, done⟩ := bindOk.mp done
    obtain ⟨head, -, done⟩ := bindOk.mp done
    obtain ⟨entry, -, done⟩ := bindOk.mp done
    have path := (Position.coverPath covers).trans rests.path
    split at done
    · obtain ⟨last, uncovers, same⟩ := bindOk.mp done
      cases same
      exact ⟨.inl ⟨rests.entered, (Position.uncoverPath uncovers).trans path⟩, nofun⟩
    · cases done
      exact ⟨.inr ⟨_, _, rfl, rfl, rests.entered, path⟩, fun some => absurd rfl some⟩

theorem Underway.stepUnderway (underway : search.Underway) (stack : search.stack = frame :: below)
    (done : search.step frame below = .ok (outcome, after)) :
    after.Underway ∧ (outcome ≠ none → after.AtRest) := by
  unfold step at done
  cases phase : frame.phase with
  | ready =>
    rw [phase] at done
    obtain ⟨position, enters, done⟩ := bindOk.mp done
    -- a frame that is ready is the deepest one of a search that is not at rest
    rcases underway with rests | ⟨deepest, above, same, -, rests⟩
    · have entered := rests.entered frame (stack ▸ List.mem_cons_self)
      rw [phase] at entered
      cases entered
    · cases stack.symm.trans same
      refine AtRest.descendUnderway ⟨?_, ?_⟩ done
      · exact List.forall_mem_cons.mpr ⟨rfl, rests.entered⟩
      · exact (Position.enterPath enters).trans (congrArg _ rests.path)
  | entered =>
    rw [phase] at done
    obtain ⟨position, leaves, done⟩ := bindOk.mp done
    obtain ⟨entry, -, done⟩ := bindOk.mp done
    rcases underway with rests | ⟨deepest, above, same, ready, -⟩
    · have entered := rests.entered
      have path := rests.path
      rw [stack] at entered path
      rw [Position.leavePath leaves] at path
      have shorter := (List.cons.inj path).2
      have others := (List.forall_mem_cons.mp entered).2
      split at done
      · obtain ⟨last, uncovers, same⟩ := bindOk.mp done
        cases same
        exact ⟨.inl ⟨others, (Position.uncoverPath uncovers).trans shorter⟩, nofun⟩
      · cases done
        exact ⟨.inr ⟨_, _, rfl, rfl, others, shorter⟩, fun some => absurd rfl some⟩
    · cases stack.symm.trans same
      rw [phase] at ready
      cases ready

theorem Underway.resumeAtRest {bound : Nat} (underway : search.Underway)
    (done : resume bound search = .ok (outcome, after)) : after.AtRest := by
  induction bound generalizing search with
  | zero => cases done
  | succ bound ih =>
    unfold resume at done
    cases stack : search.stack with
    | nil =>
      rw [stack] at done
      cases done
      rcases underway with rests | ⟨frame, below, some, -⟩
      · exact rests
      · cases stack.symm.trans some
    | cons frame below =>
      rw [stack] at done
      obtain ⟨⟨first, middle⟩, steps, done⟩ := bindOk.mp done
      obtain ⟨onward, stops⟩ := underway.stepUnderway stack steps
      cases first with
      | none => exact ih onward done
      | some solution =>
        cases done
        exact stops (Option.some_ne_none _)

theorem AtRest.nextAtRest (rests : search.AtRest) (done : search.next = .ok (outcome, after)) :
    after.AtRest := by
  unfold Enumeration.next at done
  split at done
  · exact Underway.resumeAtRest (.inl rests) done
  · obtain ⟨⟨first, middle⟩, descends, done⟩ := bindOk.mp done
    have begun : AtRest { search with started := true } := ⟨rests.entered, rests.path⟩
    obtain ⟨onward, stops⟩ := begun.descendUnderway descends
    cases first with
    | none => exact onward.resumeAtRest done
    | some solution =>
      cases done
      exact stops (Option.some_ne_none _)

theorem AtRest.callsAtRest {count : Nat} (rests : search.AtRest)
    (done : search.calls count = .ok (outcomes, after)) : after.AtRest := by
  induction count generalizing search outcomes with
  | zero =>
    cases done
    exact rests
  | succ count ih =>
    obtain ⟨⟨outcome, middle⟩, first, done⟩ := bindOk.mp done
    obtain ⟨⟨others, last⟩, later, same⟩ := bindOk.mp done
    cases same
    exact ih (rests.nextAtRest first) later

end Enumeration

theorem abandoningRestores {solver : Solver} (built : WellBuilt solver) (count : Nat) :
    ∃ outcomes search after events, solver.enumeration.calls count = .ok (outcomes, search) ∧
      search.AtRest ∧ solver.close search = .ok (after, events) ∧
      after.torus.cells = solver.torus.cells ∧
      after.torus.columns = solver.torus.columns ∧
      after.torus.rows = solver.torus.rows ∧
      after.torus.current = solver.torus.current ∧
      after.position.path = [] := by
  obtain ⟨sheet, keeps⟩ := built.keepsSheet
  have begun : Poised sheet solver.torus solver.config.byFewest solver.enumeration _ := .fresh
  obtain ⟨search, left, calls, poised, -⟩ := begun.callsAnswer keeps.sound keeps.holds count
  obtain ⟨events, closed⟩ := poised.closeAbandons
  have rests := (Enumeration.AtRest.startAtRest solver.position solver.config.byFewest).callsAtRest calls
  exact ⟨_, search, _, events, calls, rests, closed, rfl, rfl, rfl, rfl, rfl⟩

theorem choiceAbandoned :
    WellBuilt .choice ∧ ∃ outcomes search after events,
      Solver.choice.enumeration.calls 2 = .ok (outcomes, search) ∧
      search.AtRest ∧ Solver.choice.close search = .ok (after, events) ∧
      after.torus.cells = Solver.choice.torus.cells ∧
      after.torus.columns = Solver.choice.torus.columns ∧
      after.torus.rows = Solver.choice.torus.rows ∧
      after.torus.current = Solver.choice.torus.current ∧
      after.position.path = [] :=
  ⟨⟨_, _, Solver.choiceMade⟩, abandoningRestores ⟨_, _, Solver.choiceMade⟩ 2⟩

end DancingLinks
