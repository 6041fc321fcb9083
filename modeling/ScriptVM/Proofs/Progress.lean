import ScriptVM.Proofs.Correspondence
import ScriptVM.Proofs.Given
import ScriptVM.Proofs.Scoping

/-!
Executing the instructions of a node, one rule for each way an instruction may change the machine.

`Progress` is what any stretch of a node's instructions preserves; it composes. `Done` adds that the
value of the node stands in its register, and that the variable it declares has a value.
-/
namespace ScriptVM

open Assembly (Placed)
open Evaluation (State)
open Machine (isPlanned)

section Fetch

variable {image : Image} {m : Machine} {instruction : Instruction} {rest : List Instruction}

/-- An instruction without a target stands in the code as it was lowered. -/
theorem fetch_of_placed (code : m.code = image.code)
    (placed : Placed image.table image.code m.pc (instruction :: rest))
    (noLabel : instruction.labelName? = none) (noTarget : instruction.target? = none) :
    m.code[m.pc]? = some instruction := by
  obtain ⟨⟨resolved, found, stands⟩, _⟩ := (Assembly.placed_cons noLabel).mp placed
  simp only [Assembly.resolve, noTarget] at found
  cases found
  rw [code, stands]

/-- A target that was lowered as a label stands in the code as the address of the label. -/
theorem fetch_of_placed_target {label : String} (code : m.code = image.code)
    (placed : Placed image.table image.code m.pc (instruction :: rest))
    (noLabel : instruction.labelName? = none) (target : instruction.target? = some (.label label)) :
    ∃ address, image.table.lookup label = some address ∧
      m.code[m.pc]? = some (instruction.withTarget (.address address)) := by
  obtain ⟨⟨resolved, found, stands⟩, _⟩ := (Assembly.placed_cons noLabel).mp placed
  simp only [Assembly.resolve, target] at found
  split at found
  next address known =>
    cases found
    exact ⟨address, known, by rw [code, stands]⟩
  next => cases found

end Fetch

namespace Agrees

variable {α : Type} {count : Nat} {goal : α → State → Machine → Prop} {m : Machine}
  {result : EStateM.Result Stop State α} {instruction : Instruction} {effect : Effect}

/-- At an instruction only a machine that has addresses for its cells need be looked at. -/
theorem of_addressable (running : m.halted = false) (fetch : m.code[m.pc]? = some instruction)
    (rest : m.isAddressable = true → Agrees count goal m result) : Agrees count goal m result := by
  cases addressable : m.isAddressable with
  | false => exact of_outgrown (Machine.isDone_of_fetch running fetch) addressable
  | true => exact rest addressable

theorem step {m' : Machine} (running : m.halted = false)
    (fetch : m.code[m.pc]? = some instruction)
    (steady : m.Steady instruction)
    (stepped : m.isAddressable = true → m.step = (m', none))
    (rest : m.isAddressable = true → Agrees count goal m' result) :
    Agrees (count + 1) goal m result := by
  refine of_addressable running fetch fun addressable => ?_
  refine advance ⟨Machine.isDone_of_fetch running fetch, addressable, stepped addressable, ?_⟩
    (rest addressable)
  intro other found
  rw [fetch] at found
  cases found
  exact steady

/-- Executing an instruction that changes what its plan says. -/
theorem execute_counted (running : m.halted = false) (fetch : m.code[m.pc]? = some instruction)
    (planned : isPlanned instruction = true) (plan : m.plan instruction = .ok effect)
    (steady : m.Steady instruction)
    (rest : m.isAddressable = true → Agrees count goal (m.commit effect) result) :
    Agrees (count + 1) goal m result :=
  step running fetch steady (fun _ => Machine.step_of_plan fetch planned plan) rest

theorem execute (running : m.halted = false) (fetch : m.code[m.pc]? = some instruction)
    (planned : isPlanned instruction = true) (plan : m.plan instruction = .ok effect)
    (steady : m.Steady instruction)
    (rest : m.isAddressable = true → Agrees count goal (m.commit effect) result) :
    Agrees count goal m result :=
  (execute_counted running fetch planned plan steady rest).fewer (Nat.le_succ count)

/-- Executing an instruction that faults as the evaluation does. -/
theorem execute_fault {stop : Stop} {state : State} {fault : Fault} (running : m.halted = false)
    (fetch : m.code[m.pc]? = some instruction) (planned : isPlanned instruction = true)
    (plan : m.plan instruction = .error fault) (steady : m.Steady instruction)
    (causes : stop.causes fault) (heap : m.heap = state.heap) :
    Agrees count goal m (.error stop state) := by
  refine of_addressable running fetch fun addressable => ?_
  refine of_faults ⟨_, _, ⟨Machine.isDone_of_fetch running fetch, addressable,
    Machine.step_of_fault fetch planned plan, ?_⟩, causes, heap⟩
  intro other found
  rw [fetch] at found
  cases found
  exact steady

end Agrees

/-- A stretch of instructions was executed that belongs to the current function. Variables that had
values still have values. -/
structure Progress (image : Image) (locals : Locals) (lo hi pc : Nat) (before : State)
    (m : Machine) (after : State) (m' : Machine) : Prop where
  kept : Kept locals.size lo hi m m'
  pc : m'.pc = pc
  mirrors : Mirrors image locals after m'
  assigned : ∀ id, (before.vars id).isSome → (after.vars id).isSome

/-- The instructions of a node were executed. -/
structure Done (image : Image) (locals : Locals) (node : Node Tag) (lo hi reg pc : Nat)
    (before : State) (m : Machine) (value : Value) (after : State) (m' : Machine) : Prop extends
    Progress image locals lo hi pc before m after m' where
  holds : m'.registers.read reg = some value
  introduced : ∀ id ∈ Scoping.introduced node, (after.vars id).isSome

namespace Progress

variable {image : Image} {locals : Locals} {lo hi pc pc' : Nat} {s s' s'' : State}
  {m m' m'' : Machine}

theorem refl (lo hi : Nat) (mirrors : Mirrors image locals s m) :
    Progress image locals lo hi m.pc s m s m :=
  ⟨Kept.refl _ _ _ _, rfl, mirrors, fun _ known => known⟩

theorem trans (first : Progress image locals lo hi pc s m s' m')
    (second : Progress image locals lo hi pc' s' m' s'' m'') :
    Progress image locals lo hi pc' s m s'' m'' :=
  ⟨first.kept.trans second.kept, second.pc, second.mirrors,
    fun id known => second.assigned id (first.assigned id known)⟩

theorem widen {lo' hi' : Nat} (progress : Progress image locals lo hi pc s m s' m')
    (lower : lo' ≤ lo) (upper : hi ≤ hi') : Progress image locals lo' hi' pc s m s' m' :=
  ⟨progress.kept.widen lower upper, progress.pc, progress.mirrors, progress.assigned⟩

theorem goto (lo hi pc : Nat) (mirrors : Mirrors image locals s m) :
    Progress image locals lo hi pc s m s { m with pc } :=
  ⟨Kept.goto _ _ _ _ _, rfl, mirrors.goto pc, fun _ known => known⟩

theorem write {reg : Nat} (mirrors : Mirrors image locals s m) (cell : Option Value)
    (lower : lo ≤ reg) (upper : reg < hi) :
    Progress image locals lo hi (m.pc + 1) s m s (m.write reg cell).next :=
  ⟨Kept.write m cell lower upper, rfl, mirrors.write reg cell, fun _ known => known⟩

theorem unset {regs : List Nat} (mirrors : Mirrors image locals s m)
    (within : ∀ reg ∈ regs, lo ≤ reg ∧ reg < hi) :
    Progress image locals lo hi (m.pc + 1) s m s
      { m with registers := m.registers.unset regs }.next :=
  ⟨Kept.unset m regs within, rfl, mirrors.registers _, fun _ known => known⟩

theorem store {owner slot id : Nat} (lo hi : Nat) (mirrors : Mirrors image locals s m)
    (frame : image.Frame owner locals) (found : locals.ids[slot]? = some id) (value : Value) :
    Progress image locals lo hi (m.pc + 1) s m
      { s with vars := fun other => if other = id then some value else s.vars other }
      { m with stack := m.stack.setIfInBounds (m.framePtr + slot + 1) (some value) }.next := by
  have inside : slot < locals.size := by
    have := (List.getElem?_eq_some_iff.mp found).1
    rwa [Locals.length_ids] at this
  refine ⟨Kept.store lo hi m value inside, rfl, mirrors.store frame found value, ?_⟩
  intro other known
  dsimp only
  split
  · rfl
  · exact known

/-- A register given out before keeps its value. -/
theorem read {reg : Nat} (progress : Progress image locals lo hi pc s m s' m') (given : 1 ≤ reg)
    (outside : reg < lo ∨ hi ≤ reg) : m'.registers.read reg = m.registers.read reg :=
  progress.kept.registers reg (by simp only [resultReg]; omega) outside

end Progress

namespace Done

variable {image : Image} {locals : Locals} {node value : Node Tag} {lo hi reg pc : Nat}
  {s s' : State} {m m' : Machine} {v : Value}

theorem at_pc {pc' : Nat} (done : Done image locals node lo hi reg pc s m v s' m')
    (same : pc = pc') : Done image locals node lo hi reg pc' s m v s' m' :=
  same ▸ done

/-- Storing a value that was just computed to the slot of a variable. -/
theorem store {owner slot id : Nat} (done : Done image locals value lo hi reg pc s m v s' m')
    (frame : image.Frame owner locals) (found : locals.ids[slot]? = some id)
    (introduced : ∀ other ∈ Scoping.introduced node, other = id) :
    Done image locals node lo hi reg (pc + 1) s m v
      { s' with vars := fun other => if other = id then some v else s'.vars other }
      (m'.commit (.store (m'.framePtr + slot + 1) v)) := by
  have progress := done.toProgress.trans (Progress.store lo hi done.mirrors frame found v)
  refine { progress with pc := ?_, holds := done.holds, introduced := ?_ }
  · exact progress.pc.trans (by rw [done.pc])
  · intro other member
    simp [introduced other member]

end Done

theorem Progress.done {image : Image} {locals : Locals} {node : Node Tag} {lo hi reg pc : Nat}
    {s s' : State} {m m' : Machine} {value : Value}
    (progress : Progress image locals lo hi pc s m s' m')
    (holds : m'.registers.read reg = some value) (plain : Scoping.introduced node = []) :
    Done image locals node lo hi reg pc s m value s' m' :=
  { progress with holds, introduced := by simp [plain] }

end ScriptVM
