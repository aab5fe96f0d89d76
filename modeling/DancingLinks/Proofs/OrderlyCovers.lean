import DancingLinks.Proofs.Journal

/-! Searches cover and uncover in nested order. -/
namespace DancingLinks

namespace Torus

variable {torus after : Torus} {site target : Site} {direction : Direction} {column : Nat}

structure Alike (before after : Torus) : Prop where
  roles : after.roleAt = before.roleAt
  rows : after.rows = before.rows

namespace Alike

theorem refl (torus : Torus) : torus.Alike torus := ⟨rfl, rfl⟩

theorem trans {middle : Torus} (first : torus.Alike middle) (second : middle.Alike after) :
    torus.Alike after := ⟨second.roles.trans first.roles, second.rows.trans first.rows⟩

end Alike

theorem pointKeeps (done : torus.point site direction target = .ok after) : torus.Alike after := by
  unfold point at done
  split at done
  · cases done
    exact ⟨rolePointed torus site direction target, rfl⟩
  · cases done

theorem growKeeps (done : torus.grow column = .ok after) : torus.Alike after := by
  unfold grow at done
  split at done
  · cases done
    exact ⟨rfl, rfl⟩
  · cases done

theorem shrinkKeeps (done : torus.shrink column = .ok after) : torus.Alike after := by
  obtain ⟨header, -, done⟩ := bindOk.mp done
  split at done
  · cases done
  · cases done
    exact ⟨rfl, rfl⟩

theorem unhookKeeps (done : torus.unhook site = .ok after) : torus.Alike after := by
  obtain ⟨cell, -, done⟩ := bindOk.mp done
  obtain ⟨column, -, done⟩ := bindOk.mp done
  obtain ⟨above, points, done⟩ := bindOk.mp done
  obtain ⟨below, closes, done⟩ := bindOk.mp done
  exact (pointKeeps points).trans ((pointKeeps closes).trans (shrinkKeeps done))

theorem detachKeeps (done : torus.detach site = .ok after) : torus.Alike after := by
  obtain ⟨middle, unhooks, same⟩ := bindOk.mp done
  cases same
  exact (unhookKeeps unhooks).trans ⟨rfl, rfl⟩

theorem reattachKeeps (done : torus.reattach site = .ok after) : torus.Alike after := by
  obtain ⟨cell, -, done⟩ := bindOk.mp done
  obtain ⟨column, -, done⟩ := bindOk.mp done
  obtain ⟨above, points, done⟩ := bindOk.mp done
  obtain ⟨below, closes, done⟩ := bindOk.mp done
  exact (pointKeeps points).trans ((pointKeeps closes).trans (growKeeps done))

theorem eachKeeps {α : Type} {step : Torus → α → Except Fault Torus} {items : List α}
    (each : ∀ {torus item after}, step torus item = .ok after → torus.Alike after)
    (done : items.foldlM step torus = .ok after) : torus.Alike after := by
  induction items generalizing torus with
  | nil =>
    cases done
    exact .refl _
  | cons item rest ih =>
    rw [List.foldlM_cons] at done
    obtain ⟨middle, first, later⟩ := bindOk.mp done
    exact (each first).trans (ih later)

theorem coverKeeps (done : torus.cover column = .ok after) : torus.Alike after := by
  obtain ⟨head, -, done⟩ := bindOk.mp done
  obtain ⟨shut, closes, done⟩ := bindOk.mp done
  obtain ⟨entries, -, detaches⟩ := bindOk.mp done
  obtain ⟨cell, -, done⟩ := bindOk.mp closes
  obtain ⟨before, points, done⟩ := bindOk.mp done
  obtain ⟨beyond, passes, same⟩ := bindOk.mp done
  cases same
  have shuts : torus.Alike beyond.countRemoval :=
    (pointKeeps points).trans ((pointKeeps passes).trans ⟨rfl, rfl⟩)
  exact shuts.trans (eachKeeps detachKeeps detaches)

theorem uncoverKeeps (done : torus.uncover column = .ok after) : torus.Alike after := by
  obtain ⟨head, -, done⟩ := bindOk.mp done
  obtain ⟨entries, -, done⟩ := bindOk.mp done
  obtain ⟨back, reattaches, reopens⟩ := bindOk.mp done
  obtain ⟨cell, -, done⟩ := bindOk.mp reopens
  obtain ⟨before, points, passes⟩ := bindOk.mp done
  exact (eachKeeps reattachKeeps reattaches).trans ((pointKeeps points).trans (pointKeeps passes))

theorem coverAtKeeps (done : torus.coverAt site = .ok after) : torus.Alike after := by
  obtain ⟨column, -, done⟩ := bindOk.mp done
  exact coverKeeps done

theorem uncoverAtKeeps (done : torus.uncoverAt site = .ok after) : torus.Alike after := by
  obtain ⟨column, -, done⟩ := bindOk.mp done
  exact uncoverKeeps done

def Sized (torus : Torus) : Prop :=
  ∀ (column : Nat) (header : Column), torus.columns[column]? = some header →
    ∃ entries, torus.ring header.head .down = .ok entries ∧ header.size = entries.length

end Torus

/-- A journal that starts with some columns covered, the latest first, and ends with others. -/
inductive Orderly : List Nat → List Deed → List Nat → Prop where
  | done (covered) : Orderly covered [] covered
  | branched {torus covered deeds after} (sized : torus.Sized) (rest : Orderly covered deeds after) :
      Orderly covered (.branched torus :: deeds) after
  | covered {column covered deeds after} (fresh : column ∉ covered)
      (rest : Orderly (column :: covered) deeds after) : Orderly covered (.covered column :: deeds) after
  | uncovered {column covered deeds after} (rest : Orderly covered deeds after) :
      Orderly (column :: covered) (.uncovered column :: deeds) after

theorem Orderly.append {before middle after : List Nat} {deeds later : List Deed}
    (first : Orderly before deeds middle) (next : Orderly middle later after) :
    Orderly before (deeds ++ later) after := by
  induction first with
  | done => exact next
  | branched sized _ ih => exact .branched sized (ih next)
  | covered fresh _ ih => exact .covered fresh (ih next)
  | uncovered _ ih => exact .uncovered (ih next)

namespace Journal

variable {α β : Type} {covered : List Nat} {first : Journal α} {next : α → Journal β}

/-- Whenever this is computed with some columns covered, its journal is orderly and leaves columns covered
as wanted. -/
def Leads (covered : List Nat) (journal : Journal α) (wanted : α → List Nat → Prop) : Prop :=
  ∀ a deeds, journal.run = .ok (a, deeds) → ∃ after, Orderly covered deeds after ∧ wanted a after

namespace Leads

variable {wanted : β → List Nat → Prop} {middle : α → List Nat → Prop}

theorem leadsPure {b : β} (here : wanted b covered) : Leads covered (Pure.pure b) wanted := by
  intro value deeds ran
  cases ran
  exact ⟨covered, .done covered, here⟩

theorem leadsThrow (fault : Fault) : Leads covered (throw fault) wanted := by
  intro value deeds ran
  cases ran

theorem leadsWeaken {journal : Journal β} {given : β → List Nat → Prop} (leads : Leads covered journal given)
    (weaker : ∀ b now, given b now → wanted b now) : Leads covered journal wanted := by
  intro b deeds ran
  obtain ⟨after, orderly, here⟩ := leads b deeds ran
  exact ⟨after, orderly, weaker b after here⟩

theorem leadsBind (leads : Leads covered first middle)
    (later : ∀ a now, plain first = .ok a → middle a now → Leads now (next a) wanted) :
    Leads covered (first >>= next) wanted := by
  intro b deeds ran
  rw [runBind] at ran
  obtain ⟨⟨a, before⟩, start, ran⟩ := bindOk.mp ran
  cases ended : (next a).run with
  | error fault =>
    rw [ended] at ran
    cases ran
  | ok answer =>
    obtain ⟨last, behind⟩ := answer
    rw [ended] at ran
    cases ran
    obtain ⟨now, orderly, here⟩ := leads a before start
    have known : plain first = .ok a := by rw [plain, start]; rfl
    obtain ⟨after, rest, there⟩ := later a now known here last behind ended
    exact ⟨after, orderly.append rest, there⟩

theorem exactThen {a : α} {now : List Nat} (leads : Leads covered first fun _ after => after = now)
    (answer : plain first = .ok a) (later : Leads now (next a) wanted) :
    Leads covered (first >>= next) wanted := by
  refine leads.leadsBind fun b after known same => ?_
  cases answer.symm.trans known
  subst same
  exact later

theorem leadsLift {x : Except Fault β} (here : ∀ b, x = .ok b → wanted b covered) :
    Leads covered (monadLift x : Journal β) wanted := by
  intro b deeds ran
  cases x with
  | error fault => cases ran
  | ok value =>
    cases ran
    exact ⟨covered, .done covered, here b rfl⟩

theorem readThen {x : Except Fault α} (later : ∀ a, x = .ok a → Leads covered (next a) wanted) :
    Leads covered (monadLift x >>= next) wanted := by
  have silent : Leads covered (monadLift x : Journal α) fun _ now => now = covered := leadsLift fun _ _ => rfl
  refine silent.leadsBind fun a now known same => ?_
  subst same
  rw [plainLift] at known
  exact later a known

theorem knownThen {x : Except Fault α} {a : α} (answer : x = .ok a) (later : Leads covered (next a) wanted) :
    Leads covered (monadLift x >>= next) wanted :=
  exactThen (leadsLift fun _ _ => rfl) ((plainLift x).trans answer) later

theorem pureThen {a : α} (later : Leads covered (next a) wanted) :
    Leads covered (Pure.pure a >>= next) wanted := exactThen (leadsPure rfl) rfl later

theorem noteThen {deeds : List Deed} {now : List Nat} {next : Unit → Journal β}
    (orderly : Orderly covered deeds now) (later : Leads now (next ()) wanted) :
    Leads covered (tell deeds >>= next) wanted := by
  refine exactThen (fun value written ran => ?_) rfl later
  cases ran
  exact ⟨now, orderly, rfl⟩

end Leads

variable {torus : Torus} {column row : Nat} {columns : List Nat} {seat : Role → Site}

theorem coverLeads (torus : Torus) (fresh : column ∉ covered) :
    Leads covered (cover torus column) fun _ now => now = column :: covered :=
  .noteThen (.covered fresh (.done _)) (.leadsLift fun _ _ => rfl)

theorem uncoverLeads (torus : Torus) (column : Nat) (covered : List Nat) :
    Leads (column :: covered) (uncover torus column) fun _ now => now = covered :=
  .noteThen (.uncovered (.done _)) (.leadsLift fun _ _ => rfl)

theorem branchLeads (sized : torus.Sized) (byFewest : Bool) (covered : List Nat) :
    Leads covered (branchColumn torus byFewest) fun _ now => now = covered :=
  .noteThen (.branched sized (.done _)) (.leadsLift fun _ _ => rfl)

theorem coverEachLeads (present : ∀ y ∈ columns, torus.roleAt (seat (.entry row y)) = some (.entry row y))
    (distinct : columns.Nodup) (outside : ∀ y ∈ columns, y ∉ covered) :
    Leads covered (((entriesAcross row columns).map seat).foldlM coverAt torus) fun _ now =>
      now = columns.reverse ++ covered := by
  induction columns generalizing torus covered with
  | nil => exact .leadsPure rfl
  | cons column rest ih =>
    obtain ⟨fresh, distinct⟩ := List.nodup_cons.mp distinct
    obtain ⟨here, present⟩ := List.forall_mem_cons.mp present
    obtain ⟨clear, outside⟩ := List.forall_mem_cons.mp outside
    rw [entriesAcross, List.map_cons, List.map_cons, List.foldlM_cons]
    have first : Leads covered (coverAt torus (seat (.entry row column))) fun _ now =>
        now = column :: covered := .knownThen (Torus.columnOfEntry here) (coverLeads torus clear)
    refine first.leadsBind fun next now done same => ?_
    subst same
    rw [plainCoverAt] at done
    have kept := (Torus.coverAtKeeps done).roles
    have still : ∀ y ∈ rest, y ∉ column :: covered := fun _ member hit =>
      List.disjoint_cons_right.mpr ⟨fresh, fun y => outside y⟩ member hit
    rw [List.reverse_cons, List.append_assoc]
    exact ih (by rwa [kept]) distinct still

theorem uncoverEachLeads
    (present : ∀ y ∈ columns, torus.roleAt (seat (.entry row y)) = some (.entry row y))
    (covered : List Nat) :
    Leads (columns ++ covered) (((entriesAcross row columns).map seat).foldlM uncoverAt torus) fun _ now =>
      now = covered := by
  induction columns generalizing torus with
  | nil => exact .leadsPure rfl
  | cons column rest ih =>
    obtain ⟨here, present⟩ := List.forall_mem_cons.mp present
    rw [entriesAcross, List.map_cons, List.map_cons, List.foldlM_cons]
    have first : Leads (column :: (rest ++ covered)) (uncoverAt torus (seat (.entry row column)))
        fun _ now => now = rest ++ covered :=
      .knownThen (Torus.columnOfEntry here) (uncoverLeads torus column _)
    refine first.leadsBind fun next now done same => ?_
    subst same
    rw [plainUncoverAt] at done
    have kept := (Torus.uncoverAtKeeps done).roles
    exact ih (by rwa [kept])

end Journal

namespace Woven
open Journal

variable {seat : Role → Site} {sheet : Sheet} {roster : Roster} {torus : Torus} {covered : List Nat}
  {row column : Nat}

theorem wovenSized (woven : Woven seat sheet roster torus) (sound : sheet.Sound)
    (within : roster.Within sheet) : torus.Sized := by
  intro column header listed
  obtain ⟨-, head, size⟩ := woven.headers column header listed
  refine ⟨_, head ▸ woven.ringBelow sound within (woven.listedKnown listed), ?_⟩
  rw [size, List.length_map, Roster.entriesIn, List.length_map]

theorem coverRowLeads (woven : Woven seat sheet roster torus) (sound : sheet.Sound)
    (member : column ∈ sheet.columnsOf row)
    (outside : ∀ y ∈ beyond column (sheet.columnsOf row), y ∉ covered) :
    Leads covered (coverRow torus (seat (.entry row column))) fun _ now =>
      now = (beyond column (sheet.columnsOf row)).reverse ++ covered := by
  have distinct := sound.distinct row
  refine .knownThen (woven.ringRight sound member) (coverEachLeads ?_ (beyondNodup distinct member) outside)
  exact fun y inside => woven.seated (.entry row y) ((memBeyond distinct member).mp inside).1

theorem uncoverRowLeads (woven : Woven seat sheet roster torus) (sound : sheet.Sound)
    (member : column ∈ sheet.columnsOf row) (covered : List Nat) :
    Leads ((beyond column (sheet.columnsOf row)).reverse ++ covered)
      (uncoverRow torus (seat (.entry row column))) fun _ now => now = covered := by
  have ring := woven.ringLeft sound member
  rw [entriesAcross, ← List.map_reverse, ← entriesAcross] at ring
  refine .knownThen ring (uncoverEachLeads (fun y inside => ?_) covered)
  exact woven.seated (.entry row y)
    ((memBeyond (sound.distinct row) member).mp (List.mem_reverse.mp inside)).1

end Woven
end DancingLinks
