import DancingLinks.Proofs.EditedTorus
import DancingLinks.Proofs.OrderlyCovers

/-! What the sites of an edited arena stand for. Every site is the root, the head of a column or the
entry of a stored row, and no two sites are the same of these: a column that is added and an entry that
is placed get one new site each, and no other edit changes what a site stands for. So a site that is
known to be an entry is the one that the row has in its column. -/
namespace DancingLinks
open Function (update)

variable {torus after : Torus} {sheet next : Sheet} {anchor site : Site} {direction : Direction}
  {role : Role} {row column index : Nat} {name : String} {isPrimary : Bool}

namespace Torus

structure Charted (sheet : Sheet) (torus : Torus) : Prop where
  present : ∀ site role, torus.roleAt site = some role → sheet.Seats role
  once : ∀ first second role, torus.roleAt first = some role → torus.roleAt second = some role →
    first = second

theorem insertKeeps (done : torus.insertBeside anchor direction site = .ok after) : torus.Alike after := by
  obtain ⟨next, -, done⟩ := bindOk.mp done
  obtain ⟨first, onward, done⟩ := bindOk.mp done
  obtain ⟨second, behind, done⟩ := bindOk.mp done
  obtain ⟨third, returns, last⟩ := bindOk.mp done
  exact (pointKeeps onward).trans ((pointKeeps behind).trans ((pointKeeps returns).trans (pointKeeps last)))

theorem disableKeeps (done : torus.disableEntry site = .ok after) : torus.Alike after := by
  obtain ⟨middle, unhooks, done⟩ := bindOk.mp done
  obtain ⟨first, above, below⟩ := bindOk.mp done
  exact (unhookKeeps unhooks).trans ((pointKeeps above).trans (pointKeeps below))

theorem enableKeeps (done : torus.enableEntry site = .ok after) : torus.Alike after := by
  obtain ⟨column, -, done⟩ := bindOk.mp done
  obtain ⟨head, -, done⟩ := bindOk.mp done
  obtain ⟨middle, inserts, grows⟩ := bindOk.mp done
  exact (insertKeeps inserts).trans (growKeeps grows)

theorem rowKeeps {step : Torus → Site → Except Fault Torus} {isChanged : Bool}
    (each : ∀ {torus site after}, step torus site = .ok after → torus.Alike after)
    (done : (do
      let first ← torus.firstEntry row
      let entries ← torus.fullRing first .right
      let torus ← entries.foldlM step torus
      return (true, torus)) = .ok (isChanged, after)) : torus.Alike after := by
  obtain ⟨first, -, done⟩ := bindOk.mp done
  obtain ⟨entries, -, done⟩ := bindOk.mp done
  obtain ⟨last, turns, same⟩ := bindOk.mp done
  cases same
  exact eachKeeps each turns

theorem disableRowKeeps {isChanged : Bool} (done : torus.disableRow row = .ok (isChanged, after)) :
    torus.Alike after := by
  obtain ⟨isEnabled, -, done⟩ := bindOk.mp done
  cases isEnabled with
  | false =>
    cases done
    exact .refl torus
  | true => exact rowKeeps disableKeeps done

theorem enableRowKeeps {isChanged : Bool} (done : torus.enableRow row = .ok (isChanged, after)) :
    torus.Alike after := by
  obtain ⟨isEnabled, -, done⟩ := bindOk.mp done
  cases isEnabled with
  | false => exact rowKeeps enableKeeps done
  | true =>
    cases done
    exact .refl torus

theorem headSettled (done : torus.addColumn name isPrimary = .ok (index, after)) :
    after.roleAt = update torus.roleAt torus.cells.size (some (.head torus.columns.size)) := by
  rw [← roleSettled]
  cases isPrimary with
  | false =>
    cases done
    rfl
  | true =>
    obtain ⟨joined, inserts, same⟩ := bindOk.mp done
    cases same
    exact (insertKeeps inserts).roles

theorem entrySettled (done : torus.place column = .ok (.placed, after)) :
    after.roleAt = update torus.roleAt torus.cells.size (some (.entry torus.rowInProgress column)) := by
  obtain ⟨header, read, former⟩ := bindOk.mp done
  split at former
  · cases former
  rename_i last
  rw [placeSteps read last] at done
  obtain ⟨joined, joins, done⟩ := bindOk.mp done
  obtain ⟨grown, grows, done⟩ := bindOk.mp done
  obtain ⟨topped, tops, same⟩ := bindOk.mp done
  cases same
  have ending : after.roleAt = joined.roleAt := (insertKeeps tops).roles.trans (growKeeps grows).roles
  rw [ending, ← roleSettled]
  unfold written at joins
  split at joins
  · exact (insertKeeps joins).roles
  · cases joins
    rfl

theorem placedAgain (done : torus.place column = .ok (.alreadyPresent row, after)) : after = torus := by
  obtain ⟨header, read, former⟩ := bindOk.mp done
  split at former
  · cases former
    rfl
  rename_i last
  rw [placeSteps read last] at done
  obtain ⟨joined, -, done⟩ := bindOk.mp done
  obtain ⟨grown, -, done⟩ := bindOk.mp done
  obtain ⟨topped, -, same⟩ := bindOk.mp done
  cases same

theorem emptyRole (found : Torus.empty.roleAt site = some role) : site = root ∧ role = .root := by
  cases site with
  | zero => exact ⟨rfl, (Option.some.inj found).symm⟩
  | succ site => cases found

namespace Charted

theorem chartedEmpty : Torus.empty.Charted .empty where
  present site role found := by
    obtain ⟨rfl, rfl⟩ := emptyRole found
    trivial
  once first second role found there := (emptyRole found).1.trans (emptyRole there).1.symm

theorem chartedAlike (charted : torus.Charted sheet) (same : after.roleAt = torus.roleAt)
    (more : ∀ role, sheet.Seats role → next.Seats role) : after.Charted next where
  present site role found := more role (charted.present site role (same ▸ found))
  once := same ▸ charted.once

theorem chartedSettled (charted : torus.Charted sheet) (fresh : ¬ sheet.Seats role) (seats : next.Seats role)
    (more : ∀ role, sheet.Seats role → next.Seats role)
    (roles : after.roleAt = update torus.roleAt torus.cells.size (some role)) : after.Charted next := by
  have old : ∀ {site other}, after.roleAt site = some other → other ≠ role →
      torus.roleAt site = some other := by
    intro site other found apart
    rw [roles, Function.update_apply] at found
    split at found
    · exact absurd (Option.some.inj found).symm apart
    · exact found
  have new : ∀ {site}, after.roleAt site = some role → site = torus.cells.size := by
    intro site found
    by_contra other
    rw [roles, Function.update_of_ne other] at found
    exact fresh (charted.present site role found)
  refine ⟨fun site other found => ?_, fun first second other found there => ?_⟩
  all_goals by_cases same : other = role
  · exact same ▸ seats
  · exact more other (charted.present site other (old found same))
  · subst same
    exact (new found).trans (new there).symm
  · exact charted.once first second other (old found same) (old there same)

end Charted

end Torus

theorem Sheet.seatsAdded (sheet : Sheet) (name : String) (isPrimary : Bool) :
    ∀ role, sheet.Seats role → (sheet.addColumn name isPrimary).Seats role := by
  intro role present
  cases role with
  | root => trivial
  | head column => exact Nat.lt_of_lt_of_le present (by simp [Sheet.addColumn])
  | entry row column => exact present

theorem Sheet.Sound.seatsPlaced (sound : sheet.Sound) (column : Nat) :
    ∀ role, sheet.Seats role → (sheet.place column).Seats role := by
  intro role present
  by_cases there : column ∈ sheet.columnsOf sheet.rowInProgress
  · rwa [show sheet.place column = sheet from if_pos there]
  cases role with
  | root => trivial
  | head y => exact Nat.lt_of_lt_of_eq present (congrArg List.length (Sheet.placedColumns there)).symm
  | entry row y => exact (sound.memPlaced there).mpr (.inl present)

theorem Sheet.seatsEnabled (sheet : Sheet) (row : Nat) :
    ∀ role, sheet.Seats role → (sheet.enable row).Seats role := by
  intro role present
  unfold Sheet.enable
  split
  · exact present
  · cases role <;> exact present

namespace Edited

variable {edits : List Edit}

theorem editedCharted (history : Edited edits torus) : torus.Charted (.edited edits) := by
  induction history with
  | made => exact .chartedEmpty
  | @edit edits torus after past edit admitted performed ih =>
    obtain ⟨holds, sound⟩ := past.editedHolds
    rw [Sheet.editedAppend]
    cases edit with
    | addColumn name isPrimary =>
      obtain ⟨⟨index, added⟩, done, same⟩ := bindOk.mp performed
      cases same
      have width := holds.columnsCounted
      refine ih.chartedSettled (fun known => ?_) ?_ (Sheet.seatsAdded _ name isPrimary)
        (Torus.headSettled done)
      · exact absurd (width ▸ known) (Nat.lt_irrefl _)
      · show torus.columns.size < ((Sheet.edited edits).columns ++ [(name, isPrimary)]).length
        rw [width, List.length_append]
        exact Nat.lt_succ_self _
    | newRow =>
      cases performed
      exact ih.chartedAlike rfl fun role present => by cases role <;> exact present
    | place column =>
      obtain ⟨⟨outcome, placed⟩, done, same⟩ := bindOk.mp performed
      cases same
      have more := sound.seatsPlaced column
      cases outcome with
      | alreadyPresent row => exact ih.chartedAlike (congrArg Torus.roleAt (Torus.placedAgain done)) more
      | placed =>
        have known : column < (Sheet.edited edits).columns.length :=
          Nat.lt_of_lt_of_eq (holds.performedHas sound performed) holds.columnsCounted
        have fresh := holds.placedFresh sound known done
        have settled := Torus.entrySettled done
        rw [holds.rowBuilt sound] at settled
        have absent : ¬ (Sheet.edited edits).Seats (.entry _ column) := fresh
        exact ih.chartedSettled absent (sound.placedHere fresh) more settled
    | disableRow row =>
      obtain ⟨⟨isChanged, toggled⟩, done, same⟩ := bindOk.mp performed
      cases same
      exact ih.chartedAlike (Torus.disableRowKeeps done).roles fun role present => by
        cases role <;> exact present
    | enableRow row =>
      obtain ⟨⟨isChanged, toggled⟩, done, same⟩ := bindOk.mp performed
      cases same
      exact ih.chartedAlike (Torus.enableRowKeeps done).roles (Sheet.seatsEnabled _ row)

end Edited

theorem Torus.roleOfRow (found : torus.rowOf site = .ok row) :
    ∃ column, torus.roleAt site = some (.entry row column) := by
  obtain ⟨cell, present, kind⟩ := bindOk.mp found
  unfold Torus.cell at present
  split at present
  · rename_i there
    cases present
    unfold Cell.row at kind
    split at kind
    · rename_i role
      cases kind
      exact ⟨_, by rw [roleAt, there, Option.map_some, role]⟩
    · cases kind
    · cases kind
  · cases present

theorem Woven.entryOf {seat : Role → Site} {roster : Roster} (woven : Woven seat sheet roster torus)
    (charted : torus.Charted sheet) (found : torus.rowOf site = .ok row) :
    ∃ column ∈ sheet.columnsOf row, site = seat (.entry row column) := by
  obtain ⟨column, role⟩ := Torus.roleOfRow found
  have member : column ∈ sheet.columnsOf row := charted.present site _ role
  exact ⟨column, member, charted.once site _ _ role (woven.seated (.entry row column) member)⟩

end DancingLinks
