import ScriptVM.Instruction

/-!
The register file: registers may be written or not, and one never mentioned is not.
-/
namespace ScriptVM

/-- The registers of a machine. Those beyond the end are unwritten. -/
structure Registers where
  cells : Array (Option Value) := #[]
deriving DecidableEq, Repr, Inhabited

namespace Registers

/-- The value of a register, if it is written. -/
def read (registers : Registers) (reg : Nat) : Option Value :=
  (registers.cells[reg]?).join

/-- Writes a register, or makes it unwritten. -/
def write (registers : Registers) (reg : Nat) (cell : Option Value) : Registers :=
  if reg < registers.cells.size then ⟨registers.cells.setIfInBounds reg cell⟩
  else ⟨(registers.cells ++ Array.replicate (reg - registers.cells.size) none).push cell⟩

/-- Makes registers unwritten. -/
def unset (registers : Registers) (regs : List Nat) : Registers :=
  regs.foldl (fun registers reg => registers.write reg none) registers

/-- The written registers with their values, in order. -/
def written (registers : Registers) : List (Nat × Value) :=
  registers.cells.toList.zipIdx.filterMap fun (cell, reg) => cell.map fun value => (reg, value)

theorem read_write (registers : Registers) (reg other : Nat) (cell : Option Value) :
    (registers.write reg cell).read other = if reg = other then cell else registers.read other := by
  unfold write read
  split
  next inside =>
    by_cases same : reg = other
    · subst same
      simp [inside]
    · simp [same]
  next outside =>
    have size :
        (registers.cells ++ Array.replicate (reg - registers.cells.size) none).size = reg := by
      rw [Array.size_append, Array.size_replicate]
      exact Nat.add_sub_of_le (Nat.le_of_not_lt outside)
    rw [Array.getElem?_push, size]
    by_cases same : reg = other
    · simp [same]
    · rw [if_neg (Ne.symm same), if_neg same, Array.getElem?_append]
      split
      next => rfl
      next beyond =>
        rw [Array.getElem?_replicate, Array.getElem?_eq_none (Nat.le_of_not_lt beyond)]
        split <;> rfl

end Registers

end ScriptVM
