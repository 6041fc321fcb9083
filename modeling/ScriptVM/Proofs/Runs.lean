import ScriptVM.Machine

/-!
Runs of the machine, step by step.

`Advances` is one step that neither ends the run nor outgrows memory. `Leads` says that such steps
reach a state with some property, `Survives` that there are at least so many of them, and `Sound`
that for so many steps nothing else happens than such steps, the end of the program, or a fault that
the program itself is to blame for. All three leave open that memory runs out, in which case the run
has no outcome.
-/
namespace ScriptVM

/-- The faults that a program itself is to blame for. The others would mean that its instructions do
not fit together. -/
def Fault.isOfProgram : Fault → Bool
  | .value _ | .alreadyAssigned _ => true
  | _ => false

namespace Machine

variable {m m' : Machine}

/-- The machine after a number of steps. -/
def after : Nat → Machine → Machine
  | 0, m => m
  | count + 1, m => after count m.step.1

/-- A run that at some point has more cells than there are addresses. -/
def Outgrows (m : Machine) : Prop :=
  ∃ count, (m.after count).isAddressable = false

/-- An instruction of a lowered program, which looks at nothing that the program has not written: a
slot that is to be filled once has been written before, and nothing is read from the heap. -/
def Steady (m : Machine) : Instruction → Prop
  | .storeOnce _ slot => ∃ value, m.stack[m.framePtr + slot + 1]? = some (some value)
  | .halt | .loadConst .. | .loadPool .. | .loadAddress .. | .copy .. | .unset _ | .phi ..
  | .arith .. | .compare .. | .jump _ | .branchZero .. | .call .. | .ret | .reserve _ | .save _
  | .restore _ | .loadSlot .. | .storeSlot .. | .newChunk .. | .storeHeapAt .. => True
  | _ => False

/-- One step of a run that goes on. -/
structure Advances (m m' : Machine) : Prop where
  running : m.isDone = false
  addressable : m.isAddressable = true
  step : m.step = (m', none)
  steady : ∀ instruction, m.code[m.pc]? = some instruction → m.Steady instruction

/-- One step that ends a run with a fault. -/
structure Fails (m : Machine) (error : RuntimeError) (m' : Machine) : Prop where
  running : m.isDone = false
  addressable : m.isAddressable = true
  step : m.step = (m', some error)
  steady : ∀ instruction, m.code[m.pc]? = some instruction → m.Steady instruction

/-- Steps that reach a goal, unless memory runs out before. -/
inductive Leads (goal : Machine → Prop) : Machine → Prop
  | here {m : Machine} (reached : goal m) : Leads goal m
  | next {m m' : Machine} (advance : Advances m m') (rest : Leads goal m') : Leads goal m
  | outgrown {m : Machine} (running : m.isDone = false) (full : m.isAddressable = false) :
      Leads goal m

/-- At least so many steps, unless memory runs out before. -/
inductive Survives : Nat → Machine → Prop
  | zero (m : Machine) : Survives 0 m
  | next {count : Nat} {m m' : Machine} (advance : Advances m m') (rest : Survives count m') :
      Survives (count + 1) m
  | outgrown {count : Nat} {m : Machine} (running : m.isDone = false)
      (full : m.isAddressable = false) : Survives count m

/-- For so many steps, the run goes on or ends as it may. -/
inductive Sound : Nat → Machine → Prop
  | zero (m : Machine) : Sound 0 m
  | done {count : Nat} {m : Machine} (done : m.isDone = true) : Sound count m
  | fails {count : Nat} {m m' : Machine} {error : RuntimeError} (fails : Fails m error m')
      (blame : error.fault.isOfProgram = true) : Sound count m
  | next {count : Nat} {m m' : Machine} (advance : Advances m m') (rest : Sound count m') :
      Sound (count + 1) m
  | outgrown {count : Nat} {m : Machine} (running : m.isDone = false)
      (full : m.isAddressable = false) : Sound count m

theorem Leads.bind {goal goal' : Machine → Prop} (leads : Leads goal m)
    (rest : ∀ m', goal m' → Leads goal' m') : Leads goal' m := by
  induction leads with
  | here reached => exact rest _ reached
  | next advance _ ih => exact .next advance ih
  | outgrown running full => exact .outgrown running full

theorem Survives.of_succ {count : Nat} (survives : Survives (count + 1) m) : Survives count m := by
  induction count generalizing m with
  | zero => exact .zero m
  | succ count ih =>
    cases survives with
    | next advance rest => exact .next advance (ih rest)
    | outgrown running full => exact .outgrown running full

theorem Survives.mono {count fewer : Nat} (survives : Survives count m) (le : fewer ≤ count) :
    Survives fewer m := by
  induction le with
  | refl => exact survives
  | step _ ih => exact ih survives.of_succ

theorem Survives.after_advance {count : Nat} (advance : Advances m m')
    (rest : Survives count m') : Survives count m :=
  (Survives.next advance rest).of_succ

theorem Leads.survives {goal : Machine → Prop} {count : Nat} (leads : Leads goal m)
    (rest : ∀ m', goal m' → Survives count m') : Survives count m := by
  induction leads with
  | here reached => exact rest _ reached
  | next advance _ ih => exact ih.after_advance advance
  | outgrown running full => exact .outgrown running full

theorem Survives.sound {count : Nat} (survives : Survives count m) : Sound count m := by
  induction survives with
  | zero m => exact .zero m
  | next advance _ ih => exact .next advance ih
  | outgrown running full => exact .outgrown running full

theorem Leads.sound {goal : Machine → Prop} {count : Nat} (leads : Leads goal m)
    (rest : ∀ m' count, goal m' → Sound count m') : Sound count m := by
  induction leads generalizing count with
  | here reached => exact rest _ _ reached
  | next advance _ ih =>
    cases count with
    | zero => exact .zero _
    | succ count => exact .next advance ih
  | outgrown running full => exact .outgrown running full

section Run

theorem run_of_done (done : m.isDone = true) (fuel : Nat) :
    m.run fuel = some ({ m with halted := true }, none) := by
  cases fuel <;> simp [run, done]

theorem run_of_advances (advance : Advances m m') (fuel : Nat) : m.run (fuel + 1) = m'.run fuel := by
  simp [run, advance.running, advance.addressable, advance.step]

theorem run_of_fails {error : RuntimeError} (fails : Fails m error m') (fuel : Nat) :
    m.run (fuel + 1) = some (m', some error) := by
  simp [run, fails.running, fails.addressable, fails.step]

theorem run_zero_of_running (running : m.isDone = false) : m.run 0 = none := by
  simp [run, running]

theorem run_of_outgrown (running : m.isDone = false) (full : m.isAddressable = false)
    (fuel : Nat) : m.run fuel = none := by
  cases fuel <;> simp [run, running, full]

/-- A run that goes on for more steps than it may take has no outcome. -/
theorem Survives.run_eq_none {fuel : Nat} (survives : Survives (fuel + 1) m) :
    m.run fuel = none := by
  induction fuel generalizing m with
  | zero =>
    cases survives with
    | next advance _ => exact run_zero_of_running advance.running
    | outgrown running _ => exact run_zero_of_running running
  | succ fuel ih =>
    cases survives with
    | next advance rest => rw [run_of_advances advance, ih rest]
    | outgrown running full => exact run_of_outgrown running full _

/-- A run that has an outcome passes every state that its steps lead to. -/
theorem Leads.of_run {goal : Machine → Prop} {fuel : Nat} {outcome : Machine × Option RuntimeError}
    (leads : Leads goal m) (finished : m.run fuel = some outcome) :
    ∃ m' fuel', goal m' ∧ m'.run fuel' = some outcome := by
  induction leads generalizing fuel with
  | here reached => exact ⟨_, fuel, reached, finished⟩
  | next advance _ ih =>
    cases fuel with
    | zero =>
      rw [run_zero_of_running advance.running] at finished
      cases finished
    | succ fuel =>
      rw [run_of_advances advance] at finished
      exact ih finished
  | outgrown running full =>
    rw [run_of_outgrown running full] at finished
    cases finished

/-- Steps that lead to a state from which a run ends make a run that ends, unless memory runs out. -/
theorem Leads.run {goal : Machine → Prop} (leads : Leads goal m) :
    (∃ m' count, goal m' ∧ ∀ fuel, m.run (count + fuel) = m'.run fuel) ∨ m.Outgrows := by
  induction leads with
  | @here m reached => exact .inl ⟨m, 0, reached, fun fuel => by rw [Nat.zero_add]⟩
  | next advance _ ih =>
    rcases ih with ⟨last, count, reached, same⟩ | ⟨count, full⟩
    · refine .inl ⟨last, count + 1, reached, fun fuel => ?_⟩
      rw [Nat.add_right_comm, run_of_advances advance, same]
    · exact .inr ⟨count + 1, by simpa only [after, advance.step] using full⟩
  | outgrown running full => exact .inr ⟨0, full⟩

/-- A sound run faults only as it may. -/
theorem Sound.fault_of_run {fuel count : Nat} {error : RuntimeError}
    (sound : Sound count m) (finished : m.run fuel = some (m', some error))
    (enough : fuel ≤ count) : error.fault.isOfProgram = true := by
  induction sound generalizing fuel with
  | zero m =>
    cases Nat.le_zero.mp enough
    unfold run at finished
    split at finished <;> cases finished
  | done done =>
    rw [run_of_done done] at finished
    cases finished
  | @fails count m _ _ fails blame =>
    cases fuel with
    | zero =>
      rw [run_zero_of_running fails.running] at finished
      cases finished
    | succ fuel =>
      rw [run_of_fails fails] at finished
      cases finished
      exact blame
  | next advance _ ih =>
    cases fuel with
    | zero =>
      rw [run_zero_of_running advance.running] at finished
      cases finished
    | succ fuel =>
      rw [run_of_advances advance] at finished
      exact ih finished (Nat.le_of_succ_le_succ enough)
  | outgrown running full =>
    rw [run_of_outgrown running full] at finished
    cases finished

end Run

section Step

variable {instruction : Instruction} {effect : Effect}

/-- An instruction that changes everything or nothing. -/
def isPlanned : Instruction → Bool
  | .restore _ | .ret => false
  | _ => true

theorem isAddressable_iff : m.isAddressable = true ↔
    m.code.size < addressLimit ∧ m.stack.size < addressLimit ∧ m.heap.top < addressLimit ∧
      ∀ instruction, m.code[m.pc]? = some instruction →
        m.stackNeeded instruction < addressLimit := by
  simp [isAddressable, Option.all_eq_true, and_assoc]

theorem isDone_of_fetch (running : m.halted = false) (fetch : m.code[m.pc]? = some instruction) :
    m.isDone = false := by
  obtain ⟨inside, _⟩ := Array.getElem?_eq_some_iff.mp fetch
  simp [isDone, running, inside]

theorem execute_of_planned (planned : isPlanned instruction = true) :
    m.execute instruction =
      match m.plan instruction with
      | .ok effect => (m.commit effect, none)
      | .error fault => (m, some fault) := by
  cases instruction with
  | restore regs => cases planned
  | ret => cases planned
  | _ => rfl

theorem step_of_plan (fetch : m.code[m.pc]? = some instruction)
    (planned : isPlanned instruction = true) (plan : m.plan instruction = .ok effect) :
    m.step = (m.commit effect, none) := by
  simp only [step, fetch, execute_of_planned planned, plan]

theorem step_of_fault {fault : Fault} (fetch : m.code[m.pc]? = some instruction)
    (planned : isPlanned instruction = true) (plan : m.plan instruction = .error fault) :
    m.step = ({ m with halted := true }, some ⟨m.pc, fault⟩) := by
  simp only [step, fetch, execute_of_planned planned, plan]

theorem step_of_restore {regs : List Nat} (fetch : m.code[m.pc]? = some (.restore regs))
    (restored : m.restore regs = (m', none)) : m.step = (m'.next, none) := by
  simp only [step, fetch, execute, restored]

theorem step_of_leave (fetch : m.code[m.pc]? = some .ret) (left : m.leave = (m', none)) :
    m.step = (m', none) := by
  simp only [step, fetch, execute, left]

/-- Taking registers off the stack changes nothing but the stack and the registers, also if it
fails. -/
theorem restore_keeps {fault : Option Fault} {regs : List Nat}
    (restored : m.restore regs = (m', fault)) :
    ∃ stack registers, m' = { m with stack, registers } ∧ stack.toList <+: m.stack.toList := by
  induction regs generalizing m with
  | nil =>
    cases restored
    exact ⟨_, _, rfl, List.prefix_rfl⟩
  | cons reg rest ih =>
    simp only [restore] at restored
    split at restored
    · cases restored
      exact ⟨_, _, rfl, List.prefix_rfl⟩
    · obtain ⟨stack, registers, rfl, shorter⟩ := ih restored
      exact ⟨stack, registers, rfl, shorter.trans (by simpa [write] using List.dropLast_prefix _)⟩

/-- Closing a frame changes the stack, the frame pointer and the program counter, or the stack alone
if it fails. -/
theorem leave_keeps {fault : Option Fault} (left : m.leave = (m', fault)) :
    ∃ stack framePtr pc, m' = { m with stack, framePtr, pc } ∧
      (fault ≠ none → framePtr = m.framePtr ∧ pc = m.pc) := by
  unfold leave at left
  dsimp only at left
  split at left
  · cases left
    exact ⟨_, _, _, rfl, fun _ => ⟨rfl, rfl⟩⟩
  · split at left
    · cases left
      exact ⟨_, _, _, rfl, fun _ => ⟨rfl, rfl⟩⟩
    · split at left
      · cases left
        exact ⟨_, _, _, rfl, fun _ => ⟨rfl, rfl⟩⟩
      · cases left
        exact ⟨_, _, _, rfl, fun impossible => absurd rfl impossible⟩

/-- What a step does that has no fault. -/
inductive Steps (m : Machine) : Machine → Prop
  | outside (fetch : m.code[m.pc]? = none) : Steps m { m with halted := true }
  | commits {instruction : Instruction} {effect : Effect}
      (fetch : m.code[m.pc]? = some instruction) (planned : isPlanned instruction = true)
      (plan : m.plan instruction = .ok effect) : Steps m (m.commit effect)
  | restores {regs : List Nat} {last : Machine} (fetch : m.code[m.pc]? = some (.restore regs))
      (restored : m.restore regs = (last, none)) : Steps m last.next
  | leaves {last : Machine} (fetch : m.code[m.pc]? = some .ret) (left : m.leave = (last, none)) :
      Steps m last

/-- A fault of a step, and the machine as it is left, but for being halted. -/
inductive Faults (m : Machine) : Fault → Machine → Prop
  | refuses {instruction : Instruction} {fault : Fault} (fetch : m.code[m.pc]? = some instruction)
      (planned : isPlanned instruction = true) (plan : m.plan instruction = .error fault) :
      Faults m fault m
  | restores {regs : List Nat} {fault : Fault} {last : Machine}
      (fetch : m.code[m.pc]? = some (.restore regs))
      (restored : m.restore regs = (last, some fault)) : Faults m fault last
  | leaves {fault : Fault} {last : Machine} (fetch : m.code[m.pc]? = some .ret)
      (left : m.leave = (last, some fault)) : Faults m fault last

/-- A fault leaves everything but the stack and the registers. -/
theorem Faults.keeps {fault : Fault} {last : Machine} (faults : Faults m fault last) :
    ∃ stack registers, last = { m with stack, registers } := by
  cases faults with
  | refuses => exact ⟨m.stack, m.registers, rfl⟩
  | restores _ restored =>
    obtain ⟨stack, registers, rfl, _⟩ := restore_keeps restored
    exact ⟨stack, registers, rfl⟩
  | leaves _ left =>
    obtain ⟨stack, _, _, rfl, same⟩ := leave_keeps left
    obtain ⟨rfl, rfl⟩ := same (by simp)
    exact ⟨stack, m.registers, rfl⟩

/-- All that a step can do. -/
theorem step_cases (m : Machine) :
    (∃ m', m.step = (m', none) ∧ Steps m m') ∨
      ∃ fault last, m.step = ({ last with halted := true }, some ⟨m.pc, fault⟩) ∧
        Faults m fault last := by
  cases fetch : m.code[m.pc]? with
  | none => exact .inl ⟨_, by simp only [step, fetch], .outside fetch⟩
  | some instruction =>
    by_cases planned : isPlanned instruction = true
    · cases plan : m.plan instruction with
      | ok effect => exact .inl ⟨_, step_of_plan fetch planned plan, .commits fetch planned plan⟩
      | error fault =>
        exact .inr ⟨fault, m, step_of_fault fetch planned plan, .refuses fetch planned plan⟩
    · cases instruction with
      | restore regs =>
        cases restored : m.restore regs with
        | mk last fault =>
          cases fault with
          | none => exact .inl ⟨_, step_of_restore fetch restored, .restores fetch restored⟩
          | some fault =>
            exact .inr
              ⟨fault, last, by simp only [step, fetch, execute, restored], .restores fetch restored⟩
      | ret =>
        cases left : m.leave with
        | mk last fault =>
          cases fault with
          | none => exact .inl ⟨_, step_of_leave fetch left, .leaves fetch left⟩
          | some fault =>
            exact .inr ⟨fault, last, by simp only [step, fetch, execute, left], .leaves fetch left⟩
      | _ => exact absurd rfl planned

theorem steps_of_step (stepped : m.step = (m', none)) : Steps m m' := by
  rcases step_cases m with ⟨last, same, steps⟩ | ⟨fault, last, failed, _⟩
  · cases stepped.symm.trans same
    exact steps
  · cases stepped.symm.trans failed

theorem faults_of_step {error : RuntimeError} (failed : m.step = (m', some error)) :
    ∃ fault last, Faults m fault last ∧ error = ⟨m.pc, fault⟩ ∧
      m' = { last with halted := true } := by
  rcases step_cases m with ⟨last, stepped, _⟩ | ⟨fault, last, same, faults⟩
  · cases failed.symm.trans stepped
  · cases failed.symm.trans same
    exact ⟨fault, last, faults, rfl, rfl⟩

/-- A step without a fault makes the change that was planned. -/
theorem effect_of_step (fetch : m.code[m.pc]? = some instruction)
    (planned : isPlanned instruction = true) (stepped : m.step = (m', none)) :
    ∃ effect, m.plan instruction = .ok effect ∧ m' = m.commit effect := by
  cases plan : m.plan instruction with
  | error fault => cases stepped.symm.trans (step_of_fault fetch planned plan)
  | ok effect =>
    cases stepped.symm.trans (step_of_plan fetch planned plan)
    exact ⟨effect, rfl, rfl⟩

theorem restored_of_step {regs : List Nat} (fetch : m.code[m.pc]? = some (.restore regs))
    (stepped : m.step = (m', none)) :
    ∃ last, m.restore regs = (last, none) ∧ m' = last.next := by
  cases steps_of_step stepped with
  | outside none => cases none.symm.trans fetch
  | commits fetch' planned =>
    cases fetch'.symm.trans fetch
    cases planned
  | restores fetch' restored =>
    cases fetch'.symm.trans fetch
    exact ⟨_, restored, rfl⟩
  | leaves fetch' => cases fetch'.symm.trans fetch

end Step

section Slots

variable {reg slot : Nat} {cell : Option Value} {value : Value}

theorem slotPlace_ok {index place : Nat} (found : m.slotPlace index = .ok place) :
    place = wrap (m.framePtr + index + 1) ∧ place < m.stack.size := by
  simp only [slotPlace] at found
  split at found
  next inside =>
    cases found
    exact ⟨rfl, inside⟩
  next => cases found

variable (fits : m.stack.size < addressLimit)

include fits

/-- The sum that gives the place of a slot is a word if there is a cell at that place. -/
theorem slotPlace_of_cell (inside : m.stack[m.framePtr + slot + 1]? = some cell) :
    m.slotPlace slot = .ok (m.framePtr + slot + 1) := by
  have place := (Array.getElem?_eq_some_iff.mp inside).1
  have limit := addressLimit_add_self
  simp only [slotPlace, wrap_of_lt (show m.framePtr + slot + 1 < wordLimit by omega), if_pos place]

theorem plan_loadSlot (filled : m.stack[m.framePtr + slot + 1]? = some (some value)) :
    m.plan (.loadSlot reg slot) = .ok (.write reg (some value)) := by
  simp [plan, slotPlace_of_cell fits filled, filled, bind, Except.bind, pure, Except.pure]

theorem plan_storeSlot (inside : m.stack[m.framePtr + slot + 1]? = some cell)
    (holds : m.registers.read reg = some value) :
    m.plan (.storeSlot reg slot) = .ok (.store (m.framePtr + slot + 1) value) := by
  simp [plan, read, holds, slotPlace_of_cell fits inside, bind, Except.bind, pure, Except.pure]

/-- A checked store to a slot that holds a value. -/
theorem plan_storeOnce {found : Value} (filled : m.stack[m.framePtr + slot + 1]? = some (some found))
    (holds : m.registers.read reg = some value) :
    m.plan (.storeOnce reg slot) =
      if found = .null then .ok (.store (m.framePtr + slot + 1) value)
      else .error (.alreadyAssigned (m.framePtr + slot + 1)) := by
  have written : m.read reg = .ok value := by
    simp [read, holds]
  cases found <;>
    simp [plan, written, slotPlace_of_cell fits filled, filled, bind, Except.bind, pure,
      Except.pure] <;>
    rfl

end Slots

theorem addressOf_ofAddress {address : Nat} (small : address < addressLimit) :
    addressOf (ofAddress address) = .ok address := by
  have value : (Int64.ofNat address).toInt = address := Int64.toInt_ofNat_of_lt small
  simp [ofAddress, addressOf, value]

theorem read_unset (registers : Registers) (regs : List Nat) (reg : Nat) :
    (registers.unset regs).read reg = if reg ∈ regs then none else registers.read reg := by
  induction regs generalizing registers with
  | nil => simp [Registers.unset]
  | cons first rest ih =>
    have unfolded : registers.unset (first :: rest) = (registers.write first none).unset rest := rfl
    rw [unfolded, ih, Registers.read_write]
    by_cases inRest : reg ∈ rest
    · simp [inRest]
    · by_cases same : first = reg
      · simp [same]
      · simp [inRest, same, Ne.symm same]

theorem readAll_eq {regs : List Nat} {values : List Value}
    (written : regs.map m.registers.read = values.map some) : m.readAll regs = .ok values := by
  induction regs generalizing values with
  | nil =>
    cases values with
    | nil => rfl
    | cons value values => cases written
  | cons reg rest ih =>
    cases values with
    | nil => cases written
    | cons value values =>
      simp only [List.map_cons, List.cons.injEq] at written
      simp [readAll, read, written.1, ih written.2, bind, Except.bind, pure, Except.pure]

end Machine

end ScriptVM
