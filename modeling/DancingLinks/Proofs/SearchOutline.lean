import DancingLinks.Proofs.EntryPlacement

/-! Searches leave the rows alone, even where they go astray. In torn columns a search may cover a column
twice, count too little and lose its way, and most often it then ends in a fault. Whenever it does not,
it has moved along lanes and pointed links elsewhere in columns and between heads, so the outline is as
it was before. -/
namespace DancingLinks

variable {position after : Position} {column : Nat} {site : Site}

namespace Position

theorem coverShifts (laned : position.torus.Laned) (done : position.cover column = .ok after) :
    position.torus.Shifts after.torus := by
  obtain ⟨torus, covers, same⟩ := bindOk.mp done
  cases same
  exact laned.coverShifts covers

theorem uncoverShifts (laned : position.torus.Laned) (done : position.uncover column = .ok after) :
    position.torus.Shifts after.torus := by
  obtain ⟨torus, uncovers, same⟩ := bindOk.mp done
  cases same
  exact laned.uncoverShifts uncovers

theorem enterShifts (laned : position.torus.Laned) (done : position.enter site = .ok after) :
    position.torus.Shifts after.torus := by
  obtain ⟨torus, covers, same⟩ := bindOk.mp done
  cases same
  exact laned.coverRowShifts covers

theorem leaveShifts (laned : position.torus.Laned) (done : position.leave site = .ok after) :
    position.torus.Shifts after.torus := by
  unfold leave at done
  split at done
  · cases done
  · split at done
    · obtain ⟨torus, uncovers, same⟩ := bindOk.mp done
      cases same
      exact laned.uncoverRowShifts uncovers
    · cases done

end Position

namespace Search

variable {α : Type} {visit : α → Position → Except Fault (α × Bool)}
  {descend : α → Position → Except Fault (Outcome α)} {byFewest : Bool} {head entry : Site}
  {bound : Nat} {state : α} {outcome : Outcome α}

theorem rowsShift (descends : ∀ {state position outcome}, position.torus.Laned →
      descend state position = .ok outcome → position.torus.Shifts outcome.position.torus)
    (laned : position.torus.Laned) (done : tryRows descend head bound entry state position = .ok outcome) :
    position.torus.Shifts outcome.position.torus := by
  induction bound generalizing entry state position with
  | zero => cases done
  | succ bound ih =>
    unfold tryRows at done
    split at done
    · cases done
      exact .refl laned
    · obtain ⟨inner, enters, done⟩ := bindOk.mp done
      obtain ⟨below, explores, done⟩ := bindOk.mp done
      obtain ⟨back, leaves, done⟩ := bindOk.mp done
      have entered := Position.enterShifts laned enters
      have explored := entered.trans (descends entered.laned explores)
      have left := explored.trans (Position.leaveShifts explored.laned leaves)
      split at done
      · obtain ⟨next, -, onward⟩ := bindOk.mp done
        exact left.trans (ih left.laned onward)
      · cases done
        exact left

theorem exploreShifts (laned : position.torus.Laned)
    (done : explore visit byFewest bound state position = .ok outcome) :
    position.torus.Shifts outcome.position.torus := by
  induction bound generalizing state position outcome with
  | zero => cases done
  | succ bound ih =>
    unfold explore at done
    obtain ⟨choice, -, done⟩ := bindOk.mp done
    cases choice with
    | none =>
      obtain ⟨⟨state, more⟩, -, same⟩ := bindOk.mp done
      cases same
      exact .refl laned
    | some column =>
      obtain ⟨shut, covers, done⟩ := bindOk.mp done
      obtain ⟨head, -, done⟩ := bindOk.mp done
      obtain ⟨first, -, done⟩ := bindOk.mp done
      obtain ⟨below, tries, done⟩ := bindOk.mp done
      obtain ⟨last, uncovers, same⟩ := bindOk.mp done
      cases same
      have covered := Position.coverShifts laned covers
      have tried := covered.trans (rowsShift ih covered.laned tries)
      exact tried.trans (Position.uncoverShifts tried.laned uncovers)

end Search

namespace Enumeration

variable {search later : Enumeration} {outcome : Option Solution} {outcomes : List (Option Solution)}
  {frame : Frame} {below : List Frame} {bound count : Nat}

theorem descendShifts (laned : search.position.torus.Laned) (done : search.descend = .ok (outcome, later)) :
    search.position.torus.Shifts later.position.torus := by
  obtain ⟨choice, -, done⟩ := bindOk.mp done
  cases choice with
  | none =>
    obtain ⟨solution, -, same⟩ := bindOk.mp done
    cases same
    exact .refl laned
  | some column =>
    obtain ⟨shut, covers, done⟩ := bindOk.mp done
    obtain ⟨head, -, done⟩ := bindOk.mp done
    obtain ⟨entry, -, done⟩ := bindOk.mp done
    have covered := Position.coverShifts laned covers
    split at done
    · obtain ⟨last, uncovers, same⟩ := bindOk.mp done
      cases same
      exact covered.trans (Position.uncoverShifts covered.laned uncovers)
    · cases done
      exact covered

theorem stepShifts (laned : search.position.torus.Laned)
    (done : search.step frame below = .ok (outcome, later)) :
    search.position.torus.Shifts later.position.torus := by
  unfold step at done
  split at done
  · obtain ⟨inner, enters, done⟩ := bindOk.mp done
    have entered := Position.enterShifts laned enters
    exact entered.trans (descendShifts entered.laned done)
  · obtain ⟨back, leaves, done⟩ := bindOk.mp done
    obtain ⟨next, -, done⟩ := bindOk.mp done
    have left := Position.leaveShifts laned leaves
    split at done
    · obtain ⟨last, uncovers, same⟩ := bindOk.mp done
      cases same
      exact left.trans (Position.uncoverShifts left.laned uncovers)
    · cases done
      exact left

theorem resumeShifts (laned : search.position.torus.Laned)
    (done : resume bound search = .ok (outcome, later)) :
    search.position.torus.Shifts later.position.torus := by
  induction bound generalizing search with
  | zero => cases done
  | succ bound ih =>
    unfold resume at done
    split at done
    · cases done
      exact .refl laned
    · obtain ⟨⟨first, middle⟩, steps, done⟩ := bindOk.mp done
      have stepped := stepShifts laned steps
      cases first with
      | none => exact stepped.trans (ih stepped.laned done)
      | some solution =>
        cases done
        exact stepped

theorem nextShifts (laned : search.position.torus.Laned) (done : search.next = .ok (outcome, later)) :
    search.position.torus.Shifts later.position.torus := by
  unfold next at done
  dsimp only at done
  split at done
  · exact resumeShifts laned done
  · obtain ⟨⟨first, middle⟩, descends, done⟩ := bindOk.mp done
    have begins : ({ search with started := true } : Enumeration).position.torus.Laned := laned
    have begun := descendShifts begins descends
    cases first with
    | none => exact begun.trans (resumeShifts begun.laned done)
    | some solution =>
      cases done
      exact begun

theorem callsShift (laned : search.position.torus.Laned)
    (done : search.calls count = .ok (outcomes, later)) :
    search.position.torus.Shifts later.position.torus := by
  induction count generalizing search outcomes with
  | zero =>
    cases done
    exact .refl laned
  | succ count ih =>
    obtain ⟨⟨outcome, middle⟩, asks, done⟩ := bindOk.mp done
    obtain ⟨⟨others, last⟩, further, same⟩ := bindOk.mp done
    cases same
    have asked := nextShifts laned asks
    exact asked.trans (ih asked.laned further)

theorem undoShifts (laned : position.torus.Laned) (done : undo position frame = .ok after) :
    position.torus.Shifts after.torus := by
  unfold undo at done
  split at done
  · exact Position.uncoverShifts laned done
  · obtain ⟨torus, rows, uncovers⟩ := bindOk.mp done
    have left := laned.uncoverRowShifts rows
    exact left.trans (Position.uncoverShifts left.laned uncovers)

theorem undoesShift {frames : List Frame} (laned : position.torus.Laned)
    (done : frames.foldlM undo position = .ok after) : position.torus.Shifts after.torus := by
  induction frames generalizing position with
  | nil =>
    cases done
    exact .refl laned
  | cons frame rest ih =>
    rw [List.foldlM_cons] at done
    obtain ⟨middle, first, later⟩ := bindOk.mp done
    have undone := undoShifts laned first
    exact undone.trans (ih undone.laned later)

theorem abandonShifts (laned : search.position.torus.Laned) (done : search.abandon = .ok after) :
    search.position.torus.Shifts after.torus := by
  obtain ⟨last, undoes, ends⟩ := bindOk.mp done
  split at ends
  · cases ends
    exact undoesShift laned undoes
  · cases ends

end Enumeration

namespace Solver

variable {solver later : Solver}

theorem solveShifts {reply : Reply Nat} (laned : solver.torus.Laned) (done : solver.solve = .ok reply) :
    solver.torus.Shifts reply.solver.torus := by
  unfold solve at done
  dsimp only at done
  obtain ⟨outcome, runs, done⟩ := bindOk.mp done
  have reset : solver.torus.Shifts solver.position.restart.torus := laned.withRemovals 0
  have explored := reset.trans (Search.exploreShifts reset.laned runs)
  split at done
  · cases done
    exact explored
  · cases done

theorem enumerateShifts {count : Nat} (laned : solver.torus.Laned)
    (done : solver.perform (.enumerate count) = .ok later) : solver.torus.Shifts later.torus := by
  obtain ⟨⟨outcomes, search⟩, calls, done⟩ := bindOk.mp done
  obtain ⟨⟨closed, events⟩, closes, same⟩ := bindOk.mp done
  cases same
  obtain ⟨position, abandons, same⟩ := bindOk.mp closes
  cases same
  have reset : solver.torus.Shifts solver.position.restart.torus := laned.withRemovals 0
  have taken := reset.trans (Enumeration.callsShift reset.laned calls)
  exact taken.trans (Enumeration.abandonShifts taken.laned abandons)

end Solver

end DancingLinks
