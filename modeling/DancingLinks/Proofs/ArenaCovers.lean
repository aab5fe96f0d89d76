import DancingLinks.Proofs.Woven

/-! Covering on an arena is covering on the roster that it holds, and uncovering takes it back site
for site. Every single step takes out a site that is joined to its neighbours at that moment, and its
opposite is applied when the links are again what they were then; so each step comes with the way
back, and a sequence of steps with the ways back in opposite order. -/
namespace DancingLinks
namespace Woven

variable {seat : Role → Site} {sheet : Sheet} {roster : Roster} {torus : Torus}
  {covered : List Nat} {row column y : Nat}

theorem strikeSplit {xs ys : List Nat} (split : roster.live column = xs ++ row :: ys)
    (distinct : (xs ++ row :: ys).Nodup) :
    (roster.strike [(row, column)]).live column = xs ++ ys := by
  rw [← filterSplit distinct, ← split]
  refine List.filter_congr fun other _ => ?_
  simp

theorem strikeAside (other : y ≠ column) : (roster.strike [(row, column)]).live y = roster.live y := by
  refine List.filter_eq_self.mpr fun r _ => ?_
  simp [other]

theorem entryInside (live : row ∈ roster.live column) :
    Role.entry row column ∈ Role.head column :: roster.entriesIn column :=
  List.mem_cons_of_mem _ (List.mem_map_of_mem live)

theorem columnOwn (roster : Roster) (column : Nat) :
    ∀ role ∈ Role.head column :: roster.entriesIn column,
      role = .head column ∨ ∃ row, role = .entry row column := by
  intro role member
  rcases List.mem_cons.mp member with rfl | member
  · exact .inl rfl
  · obtain ⟨row, -, rfl⟩ := List.mem_map.mp member
    exact .inr ⟨row, rfl⟩

theorem shrunkStruck (woven : Woven seat sheet roster torus) (sound : sheet.Sound)
    (within : roster.Within sheet) (live : row ∈ roster.live column) :
    Woven seat sheet { roster.strike [(row, column)] with work := roster.work }
      ((torus.bypassed .down (seat (.entry row column))).shrunk column) := by
  have known := sound.known row column (within.liveMeets sound live)
  have circle := woven.columnCircle sound within known
  obtain ⟨xs, ys, split⟩ := List.append_of_mem live
  have shortened := strikeSplit split (split ▸ within.liveDistinct sound column)
  refine woven.columnChanged sound within (fun c => { c with size := c.size - 1 })
    (Torus.roleBypassed ..) (Torus.bypassedAcross torus _ (by decide) (by decide))
    (circle.bypassedApart (entryInside live))
    (columnPresent sound within known) (columnOwn roster column) rfl (fun y other => strikeAside other)
    (fun _ => ?_) rfl (fun header size => ⟨rfl, rfl, rfl, ?_⟩) woven.work
  · simp only [Roster.entriesIn, split, List.map_append, List.map_cons] at circle
    rw [Roster.entriesIn, shortened, List.map_append]
    exact circle.circleBypassed.loop
  · simp only [size, shortened, split, List.length_append, List.length_cons]
    omega

theorem detachStrikes (woven : Woven seat sheet roster torus) (sound : sheet.Sound)
    (within : roster.Within sheet) (live : row ∈ roster.live column) :
    ∃ after, torus.detach (seat (.entry row column)) = .ok after ∧
      Woven seat sheet (roster.strike [(row, column)]) after ∧
      Torus.Reverts (·.reattach (seat (.entry row column))) after torus := by
  have holds := within.liveMeets sound live
  have known := sound.known row column holds
  have circle := woven.columnCircle sound within known
  obtain ⟨header, listed, -, -, size⟩ := woven.headerOf known
  have found := woven.seated (.entry row column) holds
  have above := circle.backInside (entryInside live)
  have below := circle.onwardInside (entryInside live)
  have counted : header.size ≠ 0 := by
    rw [size]
    exact Nat.ne_of_gt (List.length_pos_of_mem live)
  exact ⟨_, Torus.detachRead found above below listed counted,
    (woven.shrunkStruck sound within live).countRemovalWoven,
    Torus.reattachReverts found above below (circle.linkInverse (entryInside live)) listed counted⟩

theorem detachedEach (woven : Woven seat sheet roster torus) (sound : sheet.Sound)
    (within : roster.Within sheet) {gone : List (Nat × Nat)} (distinct : gone.Nodup)
    (live : ∀ entry ∈ gone, entry.1 ∈ roster.live entry.2) :
    ∃ after, (sitesOf seat gone).foldlM Torus.detach torus = .ok after ∧
      Woven seat sheet (roster.strike gone) after ∧
      Torus.Reverts (fun t => (sitesOf seat gone).reverse.foldlM Torus.reattach t) after torus := by
  induction gone generalizing roster torus with
  | nil => exact ⟨torus, rfl, by rwa [Roster.strikeNone], fun _ => rfl⟩
  | cons entry rest ih =>
    obtain ⟨fresh, distinct⟩ := List.nodup_cons.mp distinct
    obtain ⟨next, done, holding, undo⟩ := woven.detachStrikes sound within (live entry List.mem_cons_self)
    have still : ∀ other ∈ rest, other.1 ∈ (roster.strike [entry]).live other.2 := by
      intro other member
      refine List.mem_filter.mpr ⟨live other (List.mem_cons_of_mem _ member), ?_⟩
      simpa using fun same : other = entry => fresh (same ▸ member)
    obtain ⟨after, all, held, back⟩ := ih holding (within.strikeWithin _) distinct still
    refine ⟨after, ?_, Roster.strikeCons roster entry rest ▸ held, undo.cons back⟩
    rw [sitesOf, List.map_cons, List.foldlM_cons, done]
    exact all

theorem closedAside (woven : Woven seat sheet roster torus) (remains : roster.Remains sheet covered)
    (known : column < sheet.columns.length) (secondary : sheet.isPrimary column = false) :
    ∃ after, torus.closeHead (seat (.head column)) = .ok after ∧
      Woven seat sheet (roster.close column) after ∧
      Torus.Reverts (·.reopenHead (seat (.head column))) after torus := by
  have found := woven.seated (.head column) known
  have circle := woven.asideCircle known secondary
  have before := circle.backInside List.mem_cons_self
  have after := circle.onwardInside List.mem_cons_self
  have joined := circle.linkInverse List.mem_cons_self
  have alone : (torus.bypassed .right (seat (.head column))).cells = torus.cells :=
    Torus.bypassedAlone circle.loop.nextAlone circle.loop.loopReversed.nextAlone before
  have kept : roster.pending.filter (· ≠ column) = roster.pending := by
    refine List.filter_eq_self.mpr fun y pending => ?_
    have primary := (Sheet.memPrimaries.mp (remains.memPending.mp pending).1).2
    simp only [ne_eq, decide_eq_true_eq]
    intro same
    subst same
    rw [secondary] at primary
    cases primary
  have close : roster.close column = { roster with work := roster.work + 1 } := by
    rw [Roster.close, kept]
  refine ⟨_, Torus.closeHeadRead found before after, ?_, Torus.closeHeadReverts found before after joined⟩
  rw [close]
  exact woven.countRemovalWoven.sameCells alone rfl rfl

theorem closedOpen (woven : Woven seat sheet roster torus)
    (remains : roster.Remains sheet covered) (pending : column ∈ roster.pending) :
    ∃ after, torus.closeHead (seat (.head column)) = .ok after ∧
      Woven seat sheet (roster.close column) after ∧
      Torus.Reverts (·.reopenHead (seat (.head column))) after torus := by
  have known := (Sheet.memPrimaries.mp (remains.memPending.mp pending).1).1
  have found := woven.seated (.head column) known
  have circle := woven.openCircle remains
  have member : Role.head column ∈ Role.root :: roster.pending.map Role.head :=
    List.mem_cons_of_mem _ (List.mem_map_of_mem pending)
  have before := circle.backInside member
  have after := circle.onwardInside member
  obtain ⟨xs, ys, split⟩ := List.append_of_mem pending
  have rest : (roster.close column).pending = xs ++ ys := by
    rw [Roster.close, split]
    exact filterSplit (split ▸ remains.pendingOnce)
  refine ⟨_, Torus.closeHeadRead found before after, ?_,
    Torus.closeHeadReverts found before after (circle.linkInverse member)⟩
  refine woven.headsChanged (Torus.roleBypassed ..) (Torus.bypassedAcross torus _ (by decide) (by decide))
    (circle.bypassedApart member) ?_ rfl ?_ rfl (congrArg (· + 1) woven.work)
  · intro role hit
    rcases List.mem_cons.mp hit with rfl | hit
    · exact .inl rfl
    · obtain ⟨y, there, rfl⟩ := List.mem_map.mp hit
      exact .inr ⟨y, (remains.memPending.mp there).1, rfl⟩
  · simp only [split, List.map_append, List.map_cons] at circle
    rw [rest, List.map_append]
    exact circle.circleBypassed.loop

theorem coverWoven (woven : Woven seat sheet roster torus) (sound : sheet.Sound)
    (remains : roster.Remains sheet covered) (known : column < sheet.columns.length)
    (outside : column ∉ covered) :
    ∃ after, torus.cover column = .ok after ∧
      Woven seat sheet (roster.cover sheet column) after ∧
      Torus.Reverts (·.uncover column) after torus := by
  have within := remains.within
  obtain ⟨-, -, -, head, -⟩ := woven.headerOf known
  have closing : ∃ after, torus.closeHead (seat (.head column)) = .ok after ∧
      Woven seat sheet (roster.close column) after ∧
      Torus.Reverts (·.reopenHead (seat (.head column))) after torus := by
    cases primary : sheet.isPrimary column with
    | false => exact woven.closedAside remains known primary
    | true =>
      have pending := remains.memPending.mpr ⟨Sheet.memPrimaries.mpr ⟨known, primary⟩, outside⟩
      exact woven.closedOpen remains pending
  obtain ⟨shut, closes, holding, reopen⟩ := closing
  have entries : shut.beside column .down .right =
      .ok (sitesOf seat (roster.besides sheet column)) :=
    holding.besideDown sound within known
  obtain ⟨after, detaches, held, reattach⟩ := holding.detachedEach sound within
    (remains.besidesNodup sound column) fun entry member =>
      (remains.besidesLive sound outside member).1
  rw [remains.coverStrikes sound column] at held
  refine ⟨after, ?_, held, fun count => ?_⟩
  · simp [Torus.cover, head, closes, entries, detaches, bind, Except.bind]
  · have covering := (remains.coverRemains sound outside).within
    have later := held.withRemovals count
    obtain ⟨-, -, -, top, -⟩ := later.headerOf known
    have same : (roster.cover sheet column).besides sheet column = roster.besides sheet column := by
      simp [Roster.besides, Roster.cover]
    have back : (after.withRemovals count).beside column .up .left =
        .ok (sitesOf seat (roster.besides sheet column)).reverse := by
      rw [← same]
      exact later.besideUp sound covering known
    have reattached : _ = Except.ok (shut.withRemovals count) := reattach count
    have reopened : _ = Except.ok (torus.withRemovals count) := reopen count
    dsimp only at reattached reopened ⊢
    simp only [Torus.uncover, top, back, bind, Except.bind, reattached, reopened]

theorem coversAt (woven : Woven seat sheet roster torus) (sound : sheet.Sound)
    (remains : roster.Remains sheet covered) (member : column ∈ sheet.columnsOf row)
    (outside : column ∉ covered) :
    ∃ after, torus.coverAt (seat (.entry row column)) = .ok after ∧
      Woven seat sheet (roster.cover sheet column) after ∧
      Torus.Reverts (·.uncoverAt (seat (.entry row column))) after torus := by
  obtain ⟨after, done, held, undo⟩ :=
    woven.coverWoven sound remains (sound.known row column member) outside
  refine ⟨after, ?_, held, fun count => ?_⟩
  · rw [Torus.coverAt, Torus.columnOfEntry (woven.seated _ member)]
    exact done
  · have later := held.withRemovals count
    dsimp only
    rw [Torus.uncoverAt, Torus.columnOfEntry (later.seated _ member)]
    exact undo count

theorem coversEach (woven : Woven seat sheet roster torus) (sound : sheet.Sound)
    (remains : roster.Remains sheet covered) {columns : List Nat}
    (inRow : ∀ y ∈ columns, y ∈ sheet.columnsOf row) (distinct : columns.Nodup)
    (outside : ∀ y ∈ columns, y ∉ covered) :
    ∃ after, ((entriesAcross row columns).map seat).foldlM Torus.coverAt torus = .ok after ∧
      Woven seat sheet (roster.coverEach sheet columns) after ∧
      Torus.Reverts (fun t => ((entriesAcross row columns).map seat).reverse.foldlM
        Torus.uncoverAt t) after torus := by
  induction columns generalizing roster torus covered with
  | nil => exact ⟨torus, rfl, woven, fun _ => rfl⟩
  | cons column rest ih =>
    obtain ⟨fresh, distinct⟩ := List.nodup_cons.mp distinct
    obtain ⟨clear, outside⟩ := List.forall_mem_cons.mp outside
    obtain ⟨next, done, holding, undo⟩ :=
      woven.coversAt sound remains (inRow column List.mem_cons_self) clear
    have still : ∀ y ∈ rest, y ∉ column :: covered := fun _ member hit =>
      List.disjoint_cons_right.mpr ⟨fresh, fun y => outside y⟩ member hit
    obtain ⟨after, all, held, back⟩ := ih holding (remains.coverRemains sound clear)
      (fun y member => inRow y (List.mem_cons_of_mem _ member)) distinct still
    refine ⟨after, ?_, held, undo.cons back⟩
    rw [entriesAcross, List.map_cons, List.map_cons, List.foldlM_cons, done]
    exact all

theorem coversRow (woven : Woven seat sheet roster torus) (sound : sheet.Sound)
    (remains : roster.Remains sheet covered) (member : column ∈ sheet.columnsOf row)
    (outside : ∀ y ∈ beyond column (sheet.columnsOf row), y ∉ covered) :
    ∃ after, torus.coverRow (seat (.entry row column)) = .ok after ∧
      Woven seat sheet (roster.coverEach sheet (beyond column (sheet.columnsOf row))) after ∧
      Torus.Reverts (·.uncoverRow (seat (.entry row column))) after torus := by
  have distinct := sound.distinct row
  obtain ⟨after, done, held, undo⟩ := woven.coversEach sound remains
    (fun y inside => ((memBeyond distinct member).mp inside).1) (beyondNodup distinct member) outside
  refine ⟨after, ?_, held, fun count => ?_⟩
  · rw [Torus.coverRow, woven.ringRight sound member]
    exact done
  · have later := held.withRemovals count
    dsimp only
    rw [Torus.uncoverRow, later.ringLeft sound member, List.map_reverse]
    exact undo count

end Woven

end DancingLinks
