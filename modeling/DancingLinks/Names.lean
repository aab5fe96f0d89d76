/-! A directory of names. A name that is recorded again stands for its latest index. -/
namespace DancingLinks

structure Names where
  entries : List (String × Nat)
  deriving DecidableEq, Repr

namespace Names

def empty : Names := ⟨[]⟩

def find? (names : Names) (name : String) : Option Nat := names.entries.lookup name

def record (names : Names) (name : String) (index : Nat) : Names := ⟨(name, index) :: names.entries⟩

@[simp] theorem findRecorded (names : Names) (name : String) (index : Nat) :
    (names.record name index).find? name = some index := by simp [find?, record]

theorem findOther (names : Names) {name other : String} (index : Nat) (different : other ≠ name) :
    (names.record name index).find? other = names.find? other := by
  have unequal : (other == name) = false := by simpa using different
  simp [find?, record, List.lookup_cons, unequal]

end Names

end DancingLinks
