import DancingLinks.Proofs.LinkLanes

/-! Covering with walks that follow the links as they are. Here a link is read only when the act at the
site before it is over, as long as the walk has not been to every site of the arena, and not from a list
that was drawn up before the first act. Along the lane that is walked the acts point no link elsewhere, so
both ways come to the same. -/
namespace DancingLinks

namespace Paced

def each (act : Torus → Site → Except Fault Torus) (start : Site) (direction : Direction) :
    Nat → Site → Torus → Except Fault Torus
  | 0, _, _ => .error (.openRing start)
  | steps + 1, site, torus => do
    let next ← torus.follow site direction
    if next = start then return torus
    let torus ← act torus next
    each act start direction steps next torus

/-- A walk of no more steps than the arena has sites. -/
def round (direction : Direction) (act : Torus → Site → Except Fault Torus) (torus : Torus)
    (start : Site) : Except Fault Torus :=
  each act start direction torus.cells.size start torus

def cover (torus : Torus) (column : Nat) : Except Fault Torus := do
  let head ← torus.headOf column
  let torus ← torus.closeHead head
  round .down (round .right Torus.detach) torus head

def uncover (torus : Torus) (column : Nat) : Except Fault Torus := do
  let head ← torus.headOf column
  let torus ← round .up (round .left Torus.reattach) torus head
  torus.reopenHead head

def coverAt (torus : Torus) (entry : Site) : Except Fault Torus := do
  let column ← torus.columnOf entry
  cover torus column

def uncoverAt (torus : Torus) (entry : Site) : Except Fault Torus := do
  let column ← torus.columnOf entry
  uncover torus column

def coverRow : Torus → Site → Except Fault Torus := round .right coverAt

def uncoverRow : Torus → Site → Except Fault Torus := round .left uncoverAt

end Paced

theorem foldFlatten {ε α β γ : Type} {read : α → Except ε (List β)} {act : γ → β → Except ε γ}
    {items : List α} {lists : List (List β)} (found : items.mapM read = .ok lists) (c : γ) :
    lists.flatten.foldlM act c = items.foldlM (fun c item => do (← read item).foldlM act c) c := by
  induction items generalizing lists c with
  | nil =>
    cases found
    rfl
  | cons item rest ih =>
    rw [List.mapM_cons] at found
    obtain ⟨first, here, found⟩ := bindOk.mp found
    obtain ⟨others, later, same⟩ := bindOk.mp found
    cases same
    rw [List.flatten_cons, List.foldlM_append, List.foldlM_cons, here]
    exact bind_congr fun c => ih later c

def Lane.Moves : Lane → Prop
  | .heads | .column _ => True
  | .row _ => False

namespace Lanes

variable {seat : Role → Site} {sheet : Sheet} {base torus after : Torus} {touched : Lane → Prop}
  {direction along around : Direction} {lane : Lane} {site start head : Site} {row column : Nat}
  {act act' : Torus → Site → Except Fault Torus} {sites : List Site}

theorem eachWalks (clear : ¬ touched lane)
    (acts : ∀ torus site after, Along seat sheet direction lane site → site ≠ start →
      Redraws seat sheet touched base torus → act torus site = .ok after →
      act' torus site = .ok after ∧ Redraws seat sheet touched base after)
    (redraws : Redraws seat sheet touched base torus) (lanes : Lanes seat sheet base)
    (here : Along seat sheet direction lane site) {steps : Nat}
    (walks : base.walk start direction steps site = .ok sites)
    (done : sites.foldlM act torus = .ok after) :
    Paced.each act' start direction steps site torus = .ok after ∧
      Redraws seat sheet touched base after := by
  -- on the steps of the walk, the arena before it being the same throughout
  induction steps generalizing site sites torus with
  | zero => cases walks
  | succ steps ih =>
    have follows := redraws.lanes.followRead here direction
    rw [redraws.aside direction lane site here clear] at follows
    rw [Torus.walk, lanes.followRead here direction] at walks
    obtain ⟨next, leads, walks⟩ := bindOk.mp walks
    cases leads
    split at walks
    · rename_i back
      cases walks
      cases done
      refine ⟨?_, redraws⟩
      simp only [Paced.each, follows, back, if_true, bind, Except.bind]
      rfl
    · rename_i onward
      obtain ⟨rest, walked, same⟩ := bindOk.mp walks
      cases same
      rw [List.foldlM_cons] at done
      obtain ⟨middle, first, later⟩ := bindOk.mp done
      have there := lanes.leads direction lane site here
      obtain ⟨acted, kept⟩ := acts torus _ middle there onward redraws first
      obtain ⟨walked, last⟩ := ih kept there walked later
      refine ⟨?_, last⟩
      simp only [Paced.each, follows, onward, if_false, acted, bind, Except.bind]
      exact walked

theorem roundWalks (clear : ¬ touched lane)
    (acts : ∀ torus site after, Along seat sheet direction lane site → site ≠ start →
      Redraws seat sheet touched base torus → act torus site = .ok after →
      act' torus site = .ok after ∧ Redraws seat sheet touched base after)
    (redraws : Redraws seat sheet touched base torus) (lanes : Lanes seat sheet base)
    (here : Along seat sheet direction lane start) (rings : base.ring start direction = .ok sites)
    (done : sites.foldlM act torus = .ok after) :
    Paced.round direction act' torus start = .ok after ∧ Redraws seat sheet touched base after := by
  rw [Paced.round, redraws.size]
  exact eachWalks clear acts redraws lanes here rings done

theorem besideWalks (lanes : Lanes seat sheet torus) (upright : along.isAcross = false)
    (across : around.isAcross = true)
    (acts : ∀ {torus row column after}, Lanes seat sheet torus → column ∈ sheet.columnsOf row →
      act torus (seat (.entry row column)) = .ok after →
      Redraws seat sheet (· = .column column) torus after)
    {entries : List Site} (top : torus.headOf column = .ok head)
    (beside : torus.beside column along around = .ok entries) (done : entries.foldlM act torus = .ok after) :
    Paced.round along (Paced.round around act) torus head = .ok after ∧
      Redraws seat sheet (∃ y ≠ column, · = .column y) torus after := by
  obtain ⟨known, rfl⟩ := lanes.heads column head top
  obtain ⟨start, top', beside⟩ := bindOk.mp beside
  cases top.symm.trans top'
  obtain ⟨sites, rings, beside⟩ := bindOk.mp beside
  obtain ⟨rows, read, same⟩ := bindOk.mp beside
  cases same
  have here : Along seat sheet along (.column column) (seat (.head column)) :=
    ⟨.head column, known, (Role.inColumn upright).mpr (.inl rfl), rfl⟩
  refine roundWalks (by simp) ?_ (.refl lanes _) lanes here rings (foldFlatten read torus ▸ done)
  intro middle site last inColumn apart redraws acted
  obtain ⟨role, present, own, rfl⟩ := inColumn
  rcases (Role.inColumn upright).mp own with rfl | ⟨row, rfl⟩
  · exact absurd rfl apart
  obtain ⟨others, rings, acted⟩ := bindOk.mp acted
  have inRow : Along seat sheet around (.row row) (seat (.entry row column)) :=
    ⟨_, present, (Role.inRow across).mpr ⟨column, rfl⟩, rfl⟩
  refine roundWalks (by simp) ?_ redraws lanes inRow rings acted
  intro before other after inRow beside redraws acted
  obtain ⟨role, there, own, rfl⟩ := inRow
  obtain ⟨y, rfl⟩ := (Role.inRow across).mp own
  refine ⟨acted, redraws.trans ((acts redraws.lanes there acted).mono fun lane same => ⟨y, ?_, same⟩)⟩
  rintro rfl
  exact beside rfl

theorem coverPaced (lanes : Lanes seat sheet torus) (done : torus.cover column = .ok after) :
    Paced.cover torus column = .ok after ∧ Redraws seat sheet Lane.Moves torus after := by
  obtain ⟨head, top, done⟩ := bindOk.mp done
  obtain ⟨shut, closes, done⟩ := bindOk.mp done
  obtain ⟨entries, beside, detaches⟩ := bindOk.mp done
  obtain ⟨known, rfl⟩ := lanes.heads column head top
  have closing := lanes.closesHead known closes
  have below : shut.headOf column = .ok (seat (.head column)) := by
    obtain ⟨again, found, -⟩ := bindOk.mp beside
    rwa [(closing.lanes.heads column again found).2] at found
  obtain ⟨walked, struck⟩ := closing.lanes.besideWalks rfl rfl Lanes.detachRedraws below beside detaches
  refine ⟨?_, (closing.mono ?_).trans (struck.mono ?_)⟩
  · simp only [Paced.cover, top, closes, bind, Except.bind]
    exact walked
  · rintro _ rfl
    trivial
  · rintro _ ⟨y, -, rfl⟩
    trivial

theorem uncoverPaced (lanes : Lanes seat sheet torus) (done : torus.uncover column = .ok after) :
    Paced.uncover torus column = .ok after ∧ Redraws seat sheet Lane.Moves torus after := by
  obtain ⟨head, top, done⟩ := bindOk.mp done
  obtain ⟨entries, beside, done⟩ := bindOk.mp done
  obtain ⟨back, reattaches, reopens⟩ := bindOk.mp done
  obtain ⟨known, rfl⟩ := lanes.heads column head top
  obtain ⟨walked, put⟩ := lanes.besideWalks rfl rfl Lanes.reattachRedraws top beside reattaches
  refine ⟨?_, (put.mono ?_).trans ((put.lanes.reopensHead known reopens).mono ?_)⟩
  · simp only [Paced.uncover, top, walked, bind, Except.bind]
    exact reopens
  · rintro _ ⟨y, -, rfl⟩
    trivial
  · rintro _ rfl
    trivial

theorem rowWalks (lanes : Lanes seat sheet torus) (across : around.isAcross = true)
    {turn turn' : Torus → Nat → Except Fault Torus}
    (turns : ∀ {torus column after}, Lanes seat sheet torus → turn torus column = .ok after →
      turn' torus column = .ok after ∧ Redraws seat sheet Lane.Moves torus after)
    (member : column ∈ sheet.columnsOf row) (rings : torus.ring (seat (.entry row column)) around = .ok sites)
    (done : sites.foldlM (fun torus entry => do turn torus (← torus.columnOf entry)) torus = .ok after) :
    Paced.round around (fun torus entry => do turn' torus (← torus.columnOf entry)) torus
      (seat (.entry row column)) = .ok after ∧ Redraws seat sheet Lane.Moves torus after := by
  have here : Along seat sheet around (.row row) (seat (.entry row column)) :=
    ⟨.entry row column, member, (Role.inRow across).mpr ⟨column, rfl⟩, rfl⟩
  have clear : ¬ Lane.Moves (.row row) := not_false
  refine roundWalks clear (fun before site after _ _ redraws acted => ?_) (.refl lanes _) lanes here
    rings done
  obtain ⟨y, read, turned⟩ := bindOk.mp acted
  obtain ⟨paced, kept⟩ := turns redraws.lanes turned
  refine ⟨?_, redraws.trans kept⟩
  simp only [read, bind, Except.bind]
  exact paced

theorem coverRowPaced (lanes : Lanes seat sheet torus) (member : column ∈ sheet.columnsOf row)
    (done : torus.coverRow (seat (.entry row column)) = .ok after) :
    Paced.coverRow torus (seat (.entry row column)) = .ok after ∧
      Redraws seat sheet Lane.Moves torus after := by
  obtain ⟨sites, rings, done⟩ := bindOk.mp done
  exact lanes.rowWalks rfl Lanes.coverPaced member rings done

theorem uncoverRowPaced (lanes : Lanes seat sheet torus) (member : column ∈ sheet.columnsOf row)
    (done : torus.uncoverRow (seat (.entry row column)) = .ok after) :
    Paced.uncoverRow torus (seat (.entry row column)) = .ok after ∧
      Redraws seat sheet Lane.Moves torus after := by
  obtain ⟨sites, rings, done⟩ := bindOk.mp done
  exact lanes.rowWalks rfl Lanes.uncoverPaced member rings done

end Lanes

end DancingLinks
