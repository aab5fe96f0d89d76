import DancingLinks.Torus.Basic
import Mathlib.Data.List.Nodup

/-! A matrix without links: its columns, the columns of each stored row in order of placement, and
for each column the rows in play there, the one linked last on top. Building and taking rows out of
play are plain changes of lists. Nothing here looks at an arena. -/
namespace DancingLinks

structure Sheet where
  columns : List (String × Bool)
  rows : List (List Nat)
  isBuilding : Bool
  live : Nat → List Nat

namespace Sheet

def empty : Sheet := ⟨[], [], false, fun _ => []⟩

def columnsOf (sheet : Sheet) (row : Nat) : List Nat := sheet.rows.getD row []

def nameOf (sheet : Sheet) (column : Nat) : String := (sheet.columns[column]?.map Prod.fst).getD ""

def isPrimary (sheet : Sheet) (column : Nat) : Bool := (sheet.columns[column]?.map Prod.snd).getD false

def primaries (sheet : Sheet) : List Nat := (List.range sheet.columns.length).filter sheet.isPrimary

def isEnabled (sheet : Sheet) (row : Nat) : Bool :=
  (sheet.columnsOf row).any fun column => (sheet.live column).contains row

def rowInProgress (sheet : Sheet) : Nat :=
  if sheet.isBuilding then sheet.rows.length - 1 else sheet.rows.length

def addColumn (sheet : Sheet) (name : String) (isPrimary : Bool) : Sheet :=
  { sheet with columns := sheet.columns ++ [(name, isPrimary)] }

def newRow (sheet : Sheet) : Sheet := { sheet with isBuilding := false }

def place (sheet : Sheet) (column : Nat) : Sheet :=
  let row := sheet.rowInProgress
  if column ∈ sheet.columnsOf row then sheet
  else
    { sheet with
      rows := sheet.rows.take row ++ [sheet.columnsOf row ++ [column]]
      isBuilding := true
      live := Function.update sheet.live column (row :: sheet.live column) }

def disable (sheet : Sheet) (row : Nat) : Sheet :=
  { sheet with live := fun column => (sheet.live column).filter (· ≠ row) }

def enable (sheet : Sheet) (row : Nat) : Sheet :=
  if sheet.isEnabled row then sheet
  else
    { sheet with
      live := fun column =>
        if column ∈ sheet.columnsOf row then row :: sheet.live column else sheet.live column }

def Seats (sheet : Sheet) : Role → Prop
  | .root => True
  | .head column => column < sheet.columns.length
  | .entry row column => column ∈ sheet.columnsOf row

structure Sound (sheet : Sheet) : Prop where
  known : ∀ row, ∀ column ∈ sheet.columnsOf row, column < sheet.columns.length
  distinct : ∀ row, (sheet.columnsOf row).Nodup
  filled : ∀ row < sheet.rows.length, sheet.columnsOf row ≠ []
  once : ∀ column, (sheet.live column).Nodup
  holds : ∀ column, ∀ row ∈ sheet.live column, column ∈ sheet.columnsOf row
  whole : ∀ column, ∀ row ∈ sheet.live column, ∀ other ∈ sheet.columnsOf row, row ∈ sheet.live other
  begun : sheet.isBuilding → sheet.rows ≠ []

variable {sheet : Sheet} {row column : Nat}

theorem rowKnown (member : column ∈ sheet.columnsOf row) : row < sheet.rows.length := by
  by_contra outside
  simp [columnsOf, List.getD_eq_getElem?_getD, List.getElem?_eq_none (Nat.le_of_not_lt outside)] at member

theorem memPrimaries : column ∈ sheet.primaries ↔
    column < sheet.columns.length ∧ sheet.isPrimary column = true := by
  simp [primaries]

theorem columnsOfNew (outside : sheet.rows.length ≤ row) : sheet.columnsOf row = [] := by
  by_contra filled
  obtain ⟨column, member⟩ := List.exists_mem_of_ne_nil _ filled
  exact Nat.not_lt.mpr outside (rowKnown member)

theorem primariesAdded (sheet : Sheet) (name : String) (isPrimary : Bool) :
    (sheet.addColumn name isPrimary).primaries =
      sheet.primaries ++ if isPrimary then [sheet.columns.length] else [] := by
  have old : ∀ column < sheet.columns.length,
      (sheet.addColumn name isPrimary).isPrimary column = sheet.isPrimary column := by
    intro column inside
    simp only [Sheet.isPrimary, addColumn]
    rw [List.getElem?_append_left inside]
  have new : (sheet.addColumn name isPrimary).isPrimary sheet.columns.length = isPrimary := by
    simp [Sheet.isPrimary, addColumn]
  have length : (sheet.addColumn name isPrimary).columns.length = sheet.columns.length + 1 := by
    simp [addColumn]
  rw [primaries, length, List.range_succ, List.filter_append]
  refine congrArg₂ _ (List.filter_congr fun column member => old column (List.mem_range.mp member)) ?_
  rw [List.filter_singleton, new]
  cases isPrimary <;> rfl

theorem columnsPlaced (sheet : Sheet) (column : Nat) : (sheet.place column).columns = sheet.columns := by
  unfold place
  dsimp only
  split <;> rfl

theorem columnsEnabled (sheet : Sheet) (row : Nat) : (sheet.enable row).columns = sheet.columns := by
  unfold enable
  split <;> rfl

theorem rowBegun {done : List (List Nat)} {start : List Nat}
    (rows : sheet.rows = done ++ [start].filter (· ≠ []))
    (building : sheet.isBuilding = true ↔ start ≠ []) :
    sheet.columnsOf sheet.rowInProgress = start ∧ sheet.rows.take sheet.rowInProgress = done := by
  rw [rowInProgress, columnsOf, List.getD_eq_getElem?_getD, rows]
  by_cases none : start = []
  · have idle : ¬ sheet.isBuilding = true := by simp [building, none]
    simp [if_neg idle, none]
  · rw [if_pos (building.mpr none)]
    simp [none]

theorem placedColumns (fresh : column ∉ sheet.columnsOf sheet.rowInProgress) :
    (sheet.place column).columns = sheet.columns := by simp only [Sheet.place, if_neg fresh]

theorem placedLive (fresh : column ∉ sheet.columnsOf sheet.rowInProgress) (y : Nat) :
    (sheet.place column).live y =
      if y = column then sheet.rowInProgress :: sheet.live y else sheet.live y := by
  simp only [Sheet.place, if_neg fresh, Function.update_apply]
  split
  · rename_i same
    rw [same]
  · rfl

theorem livePlaced (fresh : column ∉ sheet.columnsOf sheet.rowInProgress) {row y : Nat} :
    row ∈ (sheet.place column).live y ↔
      row ∈ sheet.live y ∨ row = sheet.rowInProgress ∧ y = column := by
  rw [placedLive fresh]
  split
  · rename_i same
    simp [same, or_comm]
  · rename_i other
    simp [other]

namespace Sound

theorem enabledIff (sound : sheet.Sound) (member : column ∈ sheet.columnsOf row) :
    sheet.isEnabled row = true ↔ row ∈ sheet.live column := by
  simp only [isEnabled, List.any_eq_true, List.contains_iff_mem]
  constructor
  · intro enabled
    obtain ⟨other, -, inPlay⟩ := enabled
    exact sound.whole other row inPlay column member
  · exact fun inPlay => ⟨column, member, inPlay⟩

theorem liveNowhere (sound : sheet.Sound) (out : sheet.isEnabled row = false) (column : Nat) :
    row ∉ sheet.live column := by
  intro live
  rw [(sound.enabledIff (sound.holds column row live)).mpr live] at out
  cases out

theorem disableIdle (sound : sheet.Sound) (out : sheet.isEnabled row = false) :
    sheet.disable row = sheet := by
  have kept : ∀ column, (sheet.live column).filter (· ≠ row) = sheet.live column := by
    intro column
    refine List.filter_eq_self.mpr fun other live => decide_eq_true ?_
    intro same
    subst same
    exact sound.liveNowhere out column live
  simp only [Sheet.disable, kept]

theorem liveNew (sound : sheet.Sound) (outside : sheet.columns.length ≤ column) :
    sheet.live column = [] := by
  refine List.eq_nil_iff_forall_not_mem.mpr fun row live => ?_
  have known := sound.known row column (sound.holds column row live)
  omega

theorem emptySound : Sheet.empty.Sound where
  known := by simp [Sheet.empty, columnsOf]
  distinct := by simp [Sheet.empty, columnsOf]
  filled := by simp [Sheet.empty]
  once := by simp [Sheet.empty]
  holds := by simp [Sheet.empty]
  whole := by simp [Sheet.empty]
  begun := by simp [Sheet.empty]

theorem addColumnSound (sound : sheet.Sound) (name : String) (isPrimary : Bool) :
    (sheet.addColumn name isPrimary).Sound where
  known row column member := by
    have bound := sound.known row column member
    simp only [Sheet.addColumn, List.length_append, List.length_cons, List.length_nil]
    omega
  distinct := sound.distinct
  filled := sound.filled
  once := sound.once
  holds := sound.holds
  whole := sound.whole
  begun := sound.begun

theorem newRowSound (sound : sheet.Sound) : sheet.newRow.Sound where
  known := sound.known
  distinct := sound.distinct
  filled := sound.filled
  once := sound.once
  holds := sound.holds
  whole := sound.whole
  begun := by simp [Sheet.newRow]

theorem disableSound (sound : sheet.Sound) (row : Nat) : (sheet.disable row).Sound where
  known := sound.known
  distinct := sound.distinct
  filled := sound.filled
  once column := (sound.once column).filter _
  holds column other member := sound.holds column other (List.mem_of_mem_filter member)
  whole column other member y inRow := by
    obtain ⟨inPlay, kept⟩ := List.mem_filter.mp member
    exact List.mem_filter.mpr ⟨sound.whole column other inPlay y inRow, kept⟩
  begun := sound.begun

theorem enableSound (sound : sheet.Sound) (row : Nat) : (sheet.enable row).Sound := by
  unfold Sheet.enable
  split
  · exact sound
  rename_i out
  have absent := sound.liveNowhere (Bool.eq_false_iff.mpr out)
  refine ⟨sound.known, sound.distinct, sound.filled, ?_, ?_, ?_, sound.begun⟩
  · intro column
    dsimp only
    split
    · exact List.nodup_cons.mpr ⟨absent column, sound.once column⟩
    · exact sound.once column
  · intro column other member
    dsimp only at member
    split at member
    · rename_i inRow
      rcases List.mem_cons.mp member with rfl | inPlay
      · exact inRow
      · exact sound.holds column other inPlay
    · exact sound.holds column other member
  · intro column other member y inRow
    dsimp only at member ⊢
    have inPlay : other = row ∨ other ∈ sheet.live column := by
      split at member
      · exact List.mem_cons.mp member
      · exact Or.inr member
    rcases inPlay with rfl | inPlay
    · rw [if_pos (show y ∈ sheet.columnsOf other from inRow)]
      exact List.mem_cons_self
    · have there := sound.whole column other inPlay y inRow
      split
      · exact List.mem_cons_of_mem _ there
      · exact there

theorem progressBounds (sound : sheet.Sound) :
    sheet.rowInProgress ≤ sheet.rows.length ∧ sheet.rows.length ≤ sheet.rowInProgress + 1 ∧
    (sheet.isBuilding = true → sheet.rowInProgress + 1 = sheet.rows.length) := by
  unfold rowInProgress
  split
  · rename_i building
    have some := List.length_pos_iff.mpr (sound.begun building)
    omega
  · rename_i idle
    exact ⟨Nat.le_refl _, Nat.le_succ _, fun building => absurd building idle⟩

theorem columnsOfPlaced (sound : sheet.Sound) (fresh : column ∉ sheet.columnsOf sheet.rowInProgress)
    (row : Nat) :
    (sheet.place column).columnsOf row =
      if row = sheet.rowInProgress then sheet.columnsOf row ++ [column] else sheet.columnsOf row := by
  obtain ⟨low, high, -⟩ := sound.progressBounds
  have length : (sheet.rows.take sheet.rowInProgress).length = sheet.rowInProgress := by
    rw [List.length_take]
    omega
  simp only [place, if_neg fresh]
  rcases Nat.lt_trichotomy row sheet.rowInProgress with before | rfl | after
  · rw [if_neg (Nat.ne_of_lt before)]
    simp only [columnsOf, List.getD_eq_getElem?_getD]
    rw [List.getElem?_append_left (by omega), List.getElem?_take_of_lt before]
  · rw [if_pos rfl]
    conv_lhs => rw [columnsOf, List.getD_eq_getElem?_getD]
    rw [List.getElem?_append_right (by omega), length, Nat.sub_self]
    rfl
  · have outside : sheet.rows.length ≤ row := by omega
    rw [if_neg (Nat.ne_of_gt after), columnsOfNew outside, columnsOfNew]
    simp only [List.length_append, length, List.length_cons, List.length_nil]
    omega

theorem placeProgress (sound : sheet.Sound) (fresh : column ∉ sheet.columnsOf sheet.rowInProgress) :
    (sheet.place column).rows.length = sheet.rowInProgress + 1 ∧
      (sheet.place column).rowInProgress = sheet.rowInProgress := by
  have low := sound.progressBounds.1
  have length : (sheet.place column).rows.length = sheet.rowInProgress + 1 := by
    simp only [Sheet.place, if_neg fresh, List.length_append, List.length_take, List.length_singleton]
    omega
  have building : (sheet.place column).isBuilding = true := by simp only [Sheet.place, if_neg fresh]
  refine ⟨length, ?_⟩
  rw [rowInProgress, if_pos building, length]
  rfl

theorem memPlaced (sound : sheet.Sound) (fresh : column ∉ sheet.columnsOf sheet.rowInProgress)
    {row y : Nat} :
    y ∈ (sheet.place column).columnsOf row ↔
      y ∈ sheet.columnsOf row ∨ row = sheet.rowInProgress ∧ y = column := by
  rw [sound.columnsOfPlaced fresh]
  split
  · rename_i same
    simp [same]
  · rename_i other
    simp [other]

theorem placedHere (sound : sheet.Sound) (fresh : column ∉ sheet.columnsOf sheet.rowInProgress) :
    column ∈ (sheet.place column).columnsOf sheet.rowInProgress :=
  (sound.memPlaced fresh).mpr (Or.inr ⟨rfl, rfl⟩)

theorem placedKnown (sound : sheet.Sound) (known : column < sheet.columns.length)
    (fresh : column ∉ sheet.columnsOf sheet.rowInProgress) {row y : Nat}
    (member : y ∈ (sheet.place column).columnsOf row) : y < (sheet.place column).columns.length := by
  rw [placedColumns fresh]
  rcases (sound.memPlaced fresh).mp member with old | ⟨-, rfl⟩
  · exact sound.known row y old
  · exact known

theorem placedDistinct (sound : sheet.Sound) (fresh : column ∉ sheet.columnsOf sheet.rowInProgress)
    (row : Nat) : ((sheet.place column).columnsOf row).Nodup := by
  rw [sound.columnsOfPlaced fresh]
  split
  · rename_i same
    subst same
    exact List.nodup_append.mpr ⟨sound.distinct _, by simp, by
      intro a ha b hb
      rw [List.mem_singleton.mp hb]
      exact fun same => fresh (same ▸ ha)⟩
  · exact sound.distinct row

theorem placedFilled (sound : sheet.Sound) (fresh : column ∉ sheet.columnsOf sheet.rowInProgress)
    {row : Nat} (bound : row < (sheet.place column).rows.length) :
    (sheet.place column).columnsOf row ≠ [] := by
  by_cases same : row = sheet.rowInProgress
  · subst same
    exact List.ne_nil_of_mem (sound.placedHere fresh)
  · have low := sound.progressBounds.1
    rw [(sound.placeProgress fresh).1] at bound
    rw [sound.columnsOfPlaced fresh, if_neg same]
    exact sound.filled row (by omega)

theorem placedOnce (sound : sheet.Sound) (fresh : column ∉ sheet.columnsOf sheet.rowInProgress) (y : Nat) :
    ((sheet.place column).live y).Nodup := by
  rw [placedLive fresh]
  split
  · rename_i same
    subst same
    exact List.nodup_cons.mpr ⟨fun member => fresh (sound.holds y _ member), sound.once y⟩
  · exact sound.once y

theorem placedHolds (sound : sheet.Sound) (fresh : column ∉ sheet.columnsOf sheet.rowInProgress)
    {row y : Nat} (live : row ∈ (sheet.place column).live y) : y ∈ (sheet.place column).columnsOf row := by
  rcases (livePlaced fresh).mp live with old | new
  · exact (sound.memPlaced fresh).mpr (Or.inl (sound.holds y row old))
  · exact (sound.memPlaced fresh).mpr (Or.inr new)

theorem placeSound (sound : sheet.Sound) (known : column < sheet.columns.length)
    (inPlay : ∀ y ∈ sheet.columnsOf sheet.rowInProgress, sheet.rowInProgress ∈ sheet.live y) :
    (sheet.place column).Sound := by
  by_cases present : column ∈ sheet.columnsOf sheet.rowInProgress
  · simpa only [Sheet.place, if_pos present] using sound
  refine ⟨fun row y => sound.placedKnown known present, sound.placedDistinct present,
    fun row => sound.placedFilled present, sound.placedOnce present,
    fun y row => sound.placedHolds present, ?_, ?_⟩
  · intro y row member other inRow
    refine (livePlaced present).mpr ?_
    rcases (sound.memPlaced present).mp inRow with old | new
    · rcases (livePlaced present).mp member with there | ⟨rfl, -⟩
      · exact Or.inl (sound.whole y row there other old)
      · exact Or.inl (inPlay other old)
    · exact Or.inr new
  · intro _
    simp [Sheet.place, if_neg present]

end Sound

end Sheet

end DancingLinks
