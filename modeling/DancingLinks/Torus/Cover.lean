import DancingLinks.Torus.Build
/-! Covering and uncovering. A removed site keeps its own links, so putting sites back in exactly
the opposite order of their removal restores every ring. Every removal counts one unit of work;
putting back counts none. -/
namespace DancingLinks.Torus

def resetRemovals (torus : Torus) : Torus := { torus with removals := 0 }

def countRemoval (torus : Torus) : Torus := { torus with removals := torus.removals + 1 }

def closeHead (torus : Torus) (head : Site) : Except Fault Torus := do
  let cell ← torus.cell head
  let torus ← torus.point cell.left .right cell.right
  let torus ← torus.point cell.right .left cell.left
  return torus.countRemoval

def reopenHead (torus : Torus) (head : Site) : Except Fault Torus := do
  let cell ← torus.cell head
  let torus ← torus.point cell.left .right head
  torus.point cell.right .left head

def detach (torus : Torus) (entry : Site) : Except Fault Torus := do
  let torus ← torus.unhook entry
  return torus.countRemoval

def reattach (torus : Torus) (entry : Site) : Except Fault Torus := do
  let cell ← torus.cell entry
  let column ← cell.column
  let torus ← torus.point cell.up .down entry
  let torus ← torus.point cell.down .up entry
  torus.grow column

def cover (torus : Torus) (column : Nat) : Except Fault Torus := do
  let head ← torus.headOf column
  let torus ← torus.closeHead head
  let entries ← torus.beside column .down .right
  entries.foldlM detach torus

def uncover (torus : Torus) (column : Nat) : Except Fault Torus := do
  let head ← torus.headOf column
  let entries ← torus.beside column .up .left
  let torus ← entries.foldlM reattach torus
  torus.reopenHead head

def coverAt (torus : Torus) (entry : Site) : Except Fault Torus := do
  let column ← torus.columnOf entry
  torus.cover column

def uncoverAt (torus : Torus) (entry : Site) : Except Fault Torus := do
  let column ← torus.columnOf entry
  torus.uncover column

def coverRow (torus : Torus) (entry : Site) : Except Fault Torus := do
  let others ← torus.ring entry .right
  others.foldlM coverAt torus

def uncoverRow (torus : Torus) (entry : Site) : Except Fault Torus := do
  let others ← torus.ring entry .left
  others.foldlM uncoverAt torus

end DancingLinks.Torus
