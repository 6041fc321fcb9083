import ScriptVM.Proofs.CallProtection

/-!
What a fault leaves behind.

Here an instruction is carried out as a sequence of actions, each of which reads or changes the
machine or fails. A failure keeps what the actions before it changed, so the order in which an
instruction reads, checks and writes matters. The machine's own step, which plans an instruction
before it commits it, leaves the same machine and the same error.

An instruction that fails has changed nothing, but for the two that take cells off the stack one by
one. A `restore` that fails has emptied the stack into its first registers, and a `ret` has cut the
stack.
-/
namespace ScriptVM

/-- Registers that receive cells in turn. -/
def Registers.receive (registers : Registers) (cells : List (Nat × Option Value)) : Registers :=
  cells.foldl (fun registers cell => registers.write cell.1 cell.2) registers

/-- A register that is not among those that receive cells keeps its own. -/
theorem Registers.read_receive {reg : Nat} (registers : Registers)
    {cells : List (Nat × Option Value)} (other : ∀ cell ∈ cells, cell.1 ≠ reg) :
    (registers.receive cells).read reg = registers.read reg := by
  induction cells generalizing registers with
  | nil => rfl
  | cons cell rest ih =>
    have first : cell.1 ≠ reg := other cell (by simp)
    have received : registers.receive (cell :: rest) =
        (registers.write cell.1 cell.2).receive rest := rfl
    rw [received, ih _ fun cell later => other cell (by simp [later]), read_write, if_neg first]

namespace Machine

variable {α β : Type} {m m' : Machine}

/-- A part of an instruction. It may change the machine and may fail, and what was changed before
the failure stays changed. -/
def Action (α : Type) : Type :=
  Machine → Machine × Except Fault α

instance : Monad Action where
  pure a := fun m => (m, .ok a)
  bind action rest := fun m =>
    match action m with
    | (m, .ok a) => rest a m
    | (m, .error fault) => (m, .error fault)

/-- Where control goes after an instruction. -/
inductive Flow where
  | next
  | jump (pc : Nat)
  | halt
deriving DecidableEq, Repr

namespace Action

/-- Finds something out about the machine, or fails. -/
def look (found : Machine → Except Fault α) : Action α :=
  fun m => (m, found m)

/-- Fails, or goes on with a result that does not depend on the machine. -/
def check (result : Except Fault α) : Action α :=
  look fun _ => result

/-- Changes the machine. -/
def change (changed : Machine → Machine) : Action Unit :=
  fun m => (changed m, .ok ())

def readReg (reg : Nat) : Action Value :=
  look (·.read reg)

def writeReg (reg : Nat) (cell : Option Value) : Action Unit :=
  change (·.write reg cell)

def setReg (reg : Nat) (value : Value) : Action Unit :=
  writeReg reg (some value)

def push (cell : Option Value) : Action Unit :=
  change fun m => { m with stack := m.stack.push cell }

/-- Takes the last cell off the stack. -/
def popCell : Action (Option Value) := fun m =>
  match m.stack.back? with
  | some cell => ({ m with stack := m.stack.pop }, .ok cell)
  | none => (m, .error .stackUnderflow)

/-- Takes the last cell off the stack and reads it as an address. A cell that holds none is gone all
the same. -/
def popAddress : Action Nat := do
  match ← popCell with
  | some value => check (addressOf value)
  | none => check (.error .stackUnderflow)

def setCell (place : Nat) (value : Value) : Action Unit :=
  change fun m => { m with stack := m.stack.setIfInBounds place (some value) }

/-- Writes a heap cell, if it was handed out. -/
def storeCell (address : Nat) (value : Value) : Action Unit := fun m =>
  match m.heap.store address value with
  | .ok heap => ({ m with heap }, .ok ())
  | .error e => (m, .error (.heap e))

/-- Hands out heap cells. -/
def allocate (size : Nat) : Action Nat := fun m =>
  let (address, heap) := m.heap.allocate size
  ({ m with heap }, .ok address)

/-- Hands out heap cells that hold a text. -/
def allocateSymbol (text : String) : Action Nat := fun m =>
  let (address, heap) := m.heap.allocateSymbol text
  ({ m with heap }, .ok address)

def print (line : String) : Action Unit :=
  change fun m => { m with output := m.output.push line }

/-- Reads registers one by one. -/
def readEach : List Nat → Action (List Value)
  | [] => return []
  | reg :: rest => do
    let value ← readReg reg
    let values ← readEach rest
    return value :: values

/-- Makes registers unwritten one by one. -/
def unsetEach : List Nat → Action Unit
  | [] => return
  | reg :: rest => do
    writeReg reg none
    unsetEach rest

/-- Pushes registers one by one, written or not. -/
def saveEach : List Nat → Action Unit
  | [] => return
  | reg :: rest => do
    let cell ← look fun m => .ok (m.registers.read reg)
    push cell
    saveEach rest

/-- Pops registers one by one. -/
def restoreEach : List Nat → Action Unit
  | [] => return
  | reg :: rest => do
    let cell ← popCell
    writeReg reg cell
    restoreEach rest

/-- Goes to a target if a test holds. -/
def jumpIf (instruction : Instruction) (target : Target) (test : Bool) : Action Flow := do
  if test then
    let pc ← check (destination instruction target)
    return .jump pc
  else return .next

/-- Carries out an instruction, one action after the other. -/
def perform (instruction : Instruction) : Action Flow :=
  match instruction with
  | .halt => return .halt
  | .label _ => check (.error (.illegalInstruction instruction.render))
  | .loadConst dst value => do
    setReg dst value
    return .next
  | .loadPool dst index => do
    let value ← look fun m =>
      match m.pool[index]? with
      | some value => .ok value
      | none => .error (.missingConstant index)
    setReg dst value
    return .next
  | .loadAddress dst target => do
    let address ← check (destination instruction target)
    setReg dst (ofAddress address)
    return .next
  | .copy dst src => do
    let value ← readReg src
    setReg dst value
    return .next
  | .unset regs => do
    unsetEach regs
    return .next
  | .phi dst left right => do
    let value ← look fun m =>
      match m.registers.read left, m.registers.read right with
      | some value, none | none, some value => .ok value
      | some _, some _ => .error (.phiBothSet left right)
      | none, none => .error (.phiNeitherSet left right)
    setReg dst value
    return .next
  | .arith op dst left right => do
    let a ← readReg left
    let b ← readReg right
    let value ← check (valueFault (op.apply a b))
    setReg dst value
    return .next
  | .arithConst op dst left b => do
    let a ← readReg left
    let value ← check (valueFault (op.apply a b))
    setReg dst value
    return .next
  | .compare op dst left right => do
    let a ← readReg left
    let b ← readReg right
    let value ← check (valueFault (op.apply a b))
    setReg dst value
    return .next
  | .jump target => do
    let pc ← check (destination instruction target)
    return .jump pc
  | .branchZero pred target => do
    let value ← readReg pred
    jumpIf instruction target value.isZero
  | .branchNonzero pred target => do
    let value ← readReg pred
    jumpIf instruction target (!value.isZero)
  | .branch test left right target => do
    let a ← readReg left
    let b ← readReg right
    let holds ← check (valueFault (test.compare.holds a b))
    jumpIf instruction target holds
  | .call target args => do
    let entry ← check (destination instruction target)
    let values ← readEach args
    let returnTo ← look fun m => .ok m.pc
    push (some (ofAddress returnTo))
    let caller ← look fun m => .ok m.framePtr
    push (some (ofAddress caller))
    change fun m => { m with framePtr := m.stack.size - 1 }
    change fun m => { m with stack := m.stack ++ (values.map some).toArray }
    return .jump entry
  | .ret => do
    look fun m =>
      if m.framePtr = 0 ∨ m.stack.size ≤ m.framePtr then .error .stackUnderflow else .ok ()
    change fun m => { m with stack := m.stack.shrink (m.framePtr + 1) }
    let caller ← popAddress
    let returnTo ← popAddress
    change fun m => { m with framePtr := caller }
    return .jump (returnTo + 1)
  | .reserve size => do
    change fun m => { m with stack := growStack m.stack (wrap (m.framePtr + 1 + size)) }
    return .next
  | .save regs => do
    saveEach regs.reverse
    return .next
  | .restore regs => do
    restoreEach regs
    return .next
  | .loadSlot dst index => do
    let place ← look (·.slotPlace index)
    let value ← look fun m =>
      match (m.stack[place]?).join with
      | some value => .ok value
      | none => .error (.unsetSlot place)
    setReg dst value
    return .next
  | .storeSlot src index => do
    let value ← readReg src
    let place ← look (·.slotPlace index)
    setCell place value
    return .next
  | .storeOnce src index => do
    let value ← readReg src
    let place ← look (·.slotPlace index)
    look fun m =>
      match (m.stack[place]?).join with
      | none | some .null => .ok ()
      | some _ => .error (.alreadyAssigned place)
    setCell place value
    return .next
  | .push src => do
    let value ← readReg src
    push (some value)
    return .next
  | .pop dst => do
    let cell ← popCell
    writeReg dst cell
    return .next
  | .peek dst offset => do
    let cell ← look fun m =>
      if offset < m.stack.size then .ok (m.stack[m.stack.size - (offset + 1)]?).join
      else .error (.stackOutOfRange (offset + 1) m.stack.size)
    writeReg dst cell
    return .next
  | .newChunk dst size => do
    let address ← allocate size
    setReg dst (ofAddress address)
    return .next
  | .newSymbol dst text => do
    let address ← allocateSymbol text
    setReg dst (ofAddress address)
    return .next
  | .loadHeap dst ptr => do
    let address ← look (·.pointer ptr 0)
    let value ← look fun m => heapFault (m.heap.load address)
    setReg dst value
    return .next
  | .storeHeap ptr src => do
    let address ← look (·.pointer ptr 0)
    let value ← readReg src
    storeCell address value
    return .next
  | .loadHeapAt dst ptr offset => do
    let address ← look (·.pointer ptr offset)
    let value ← look fun m => heapFault (m.heap.load address)
    setReg dst value
    return .next
  | .storeHeapAt ptr offset src => do
    let address ← look (·.pointer ptr offset)
    let value ← readReg src
    storeCell address value
    return .next
  | .printConst value => do
    print value.render
    return .next
  | .printReg reg => do
    let value ← readReg reg
    print (renderReg reg ++ ":" ++ value.render)
    return .next
  | .printSymbol reg => do
    let value ← readReg reg
    let address ← check (addressOf value)
    let text ← look fun m => heapFault (m.heap.symbol address)
    print (renderReg reg ++ ":" ++ toString address ++ "=>'" ++ text ++ "'")
    return .next

end Action

/-- Moves the program counter as an instruction says that was carried out. -/
def follow : Machine × Except Fault Flow → Machine × Option Fault
  | (m, .ok .next) => (m.next, none)
  | (m, .ok (.jump pc)) => ({ m with pc }, none)
  | (m, .ok .halt) => ({ m with halted := true }, none)
  | (m, .error fault) => (m, some fault)

/-- Executes the instruction at the program counter, one action after the other. -/
def stepInOrder (m : Machine) : Machine × Option RuntimeError :=
  match m.code[m.pc]? with
  | none => ({ m with halted := true }, none)
  | some instruction =>
    match follow (Action.perform instruction m) with
    | (m', none) => (m', none)
    | (m', some fault) => ({ m' with halted := true }, some ⟨m.pc, fault⟩)

section InOrder

open Machine.Action

variable {instruction : Instruction}

/-- The machine after a plan. -/
def carryOut (m : Machine) : Except Fault Effect → Machine × Option Fault
  | .ok effect => (m.commit effect, none)
  | .error fault => (m, some fault)

/-- Actions end as a plan does. -/
def Agrees (m : Machine) (action : Action Flow) (planned : Except Fault Effect) : Prop :=
  follow (action m) = m.carryOut planned

theorem Agrees.looked {found : Machine → Except Fault α} {rest : α → Action Flow} {a : α}
    {planned : Except Fault Effect} (result : found m = .ok a)
    (agrees : Agrees m (rest a) planned) :
    Agrees m (Action.look found >>= rest) planned := by
  have same : (Action.look found >>= rest) m = rest a m := by simp [bind, Action.look, result]
  unfold Agrees
  rw [same]
  exact agrees

theorem Agrees.failed {found : Machine → Except Fault α} {rest : α → Action Flow} {fault : Fault}
    (result : found m = .error fault) : Agrees m (Action.look found >>= rest) (.error fault) := by
  have same : (Action.look found >>= rest) m = (m, .error fault) := by
    simp [bind, Action.look, result]
  unfold Agrees
  rw [same]
  rfl

/-- Both find out the same first. -/
theorem Agrees.look {found : Machine → Except Fault α} {rest : α → Action Flow}
    {planned : α → Except Fault Effect} (agrees : ∀ a, Agrees m (rest a) (planned a)) :
    Agrees m (Action.look found >>= rest) (found m >>= planned) := by
  cases result : found m with
  | ok a => exact .looked result (agrees a)
  | error fault => exact .failed result

theorem agrees_jumpIf (target : Target) (test : Bool) :
    Agrees m (jumpIf instruction target test) (gotoIf instruction target test) := by
  cases test with
  | false => exact rfl
  | true =>
    have both : gotoIf instruction target true =
        destination instruction target >>= fun pc => .ok (.goto pc) := by
      simp only [gotoIf, if_true]
      cases destination instruction target <;> rfl
    rw [both]
    exact .look fun pc => rfl

theorem readEach_eq (regs : List Nat) : readEach regs = Action.look (·.readAll regs) := by
  funext m
  induction regs with
  | nil => rfl
  | cons reg rest ih =>
    simp only [readEach, readAll, Action.look, bind, readReg]
    cases m.read reg with
    | error fault => rfl
    | ok value =>
      simp only [ih, Action.look, Except.bind]
      cases m.readAll rest <;> rfl

theorem unsetEach_eq (regs : List Nat) :
    unsetEach regs = change fun m => { m with registers := m.registers.unset regs } := by
  induction regs with
  | nil => rfl
  | cons reg rest ih =>
    rw [unsetEach, ih]
    rfl

theorem saveEach_eq (regs : List Nat) : saveEach regs =
    change fun m => { m with stack := m.stack ++ (regs.map m.registers.read).toArray } := by
  induction regs with
  | nil =>
    funext m
    simp [saveEach, change, pure]
  | cons reg rest ih =>
    funext m
    simp [saveEach, ih, bind, Action.look, push, change]

theorem agrees_storeCell (address : Nat) (value : Value) :
    Agrees m (storeCell address value >>= fun _ => return .next)
      (heapFault (m.heap.check address) >>= fun _ => .ok (.storeHeap address value)) := by
  unfold Agrees
  simp only [bind, storeCell, Heap.store]
  cases m.heap.check address <;> rfl

theorem agrees_pop (dst : Nat) : Agrees m (perform (.pop dst)) (m.plan (.pop dst)) := by
  simp only [perform, plan, Agrees, bind, popCell]
  cases found : m.stack.back? with
  | none =>
    have empty : m.stack.isEmpty = true := by simpa using found
    rw [if_pos empty]
    rfl
  | some cell =>
    have some : ¬ m.stack.isEmpty = true := by
      intro empty
      rw [Array.isEmpty_iff.mp empty] at found
      cases found
    rw [if_neg some]
    simp only [carryOut, commit, found]
    rfl

theorem perform_agrees (planned : isPlanned instruction = true) :
    Agrees m (perform instruction) (m.plan instruction) := by
  cases instruction with
  | halt | label | loadConst | newChunk | newSymbol | printConst | reserve => exact rfl
  | loadAddress | copy | push | printReg => exact .look fun _ => rfl
  | arith | compare => exact .look fun _ => .look fun _ => .look fun _ => rfl
  | arithConst => exact .look fun _ => .look fun _ => rfl
  | storeSlot => exact .look fun _ => .look fun _ => rfl
  | loadHeap | loadHeapAt => exact .look fun _ => .look fun _ => rfl
  | branchZero | branchNonzero => exact .look fun _ => agrees_jumpIf _ _
  | branch => exact .look fun _ => .look fun _ => .look fun _ => agrees_jumpIf _ _
  | storeHeap | storeHeapAt => exact .look fun _ => .look fun _ => agrees_storeCell _ _
  | jump target => exact agrees_jumpIf target true
  | restore | ret => cases planned
  | unset regs =>
    simp only [perform, unsetEach_eq]
    exact rfl
  | save regs =>
    simp only [perform, saveEach_eq]
    exact rfl
  | call target args =>
    simp only [perform, readEach_eq]
    refine .look fun entry => .look fun values => ?_
    show follow _ = (m.commit (.call entry values), none)
    simp [commit, follow, bind, Action.look, Action.push, change, pure]
  | printSymbol => exact .look fun _ => .look fun _ => .look fun _ => rfl
  | loadPool dst index =>
    cases found : m.pool[index]? with
    | some value =>
      simp only [plan, found]
      exact .looked (by simp only [found]) rfl
    | none =>
      simp only [plan, found]
      exact .failed (by simp only [found])
  | phi dst left right =>
    cases first : m.registers.read left <;> cases second : m.registers.read right <;>
      simp only [plan, first, second]
    · exact .failed (by simp only [first, second])
    · exact .looked (by simp only [first, second]) rfl
    · exact .looked (by simp only [first, second]) rfl
    · exact .failed (by simp only [first, second])
  | loadSlot dst index =>
    refine .look fun place => ?_
    cases found : (m.stack[place]?).join with
    | some value => exact .looked (by simp only [found]) rfl
    | none => exact .failed (by simp only [found])
  | storeOnce src index =>
    refine .look fun value => .look fun place => ?_
    cases found : (m.stack[place]?).join with
    | none => exact .looked (a := ()) (by simp only [found]) rfl
    | some old =>
      cases old with
      | null => exact .looked (a := ()) (by simp only [found]) rfl
      | _ => exact .failed (by simp only [found])
  | pop dst => exact agrees_pop dst
  | peek dst offset =>
    simp only [plan]
    split
    next inside => exact .looked (if_pos inside) rfl
    next outside => exact .failed (if_neg outside)

theorem restoreEach_eq (m : Machine) (regs : List Nat) :
    restoreEach regs m =
      match m.restore regs with
      | (m, none) => (m, .ok ())
      | (m, some fault) => (m, .error fault) := by
  induction regs generalizing m with
  | nil => rfl
  | cons reg rest ih =>
    simp only [restoreEach, restore, bind, popCell, writeReg, change]
    cases m.stack.back? with
    | none => rfl
    | some cell => exact ih _

/-- The cell that is taken off is gone, whether it holds an address or not. -/
theorem popAddress_shrink (m : Machine) {place : Nat} (inside : place < m.stack.size) :
    popAddress { m with stack := m.stack.shrink (place + 1) } =
      ({ m with stack := m.stack.shrink place }, cellAddress m.stack place) := by
  have top : (m.stack.shrink (place + 1)).back? = some m.stack[place] := by
    have isLast : min (place + 1) m.stack.size - 1 = place := by omega
    rw [Array.back?_eq_getElem?, ← Array.getElem?_toList, Array.toList_shrink, Array.size_shrink,
      isLast, List.getElem?_take_of_lt (by omega), Array.getElem?_toList,
      Array.getElem?_eq_getElem inside]
  have rest : (m.stack.shrink (place + 1)).pop = m.stack.shrink place := by
    apply Array.ext'
    have shorter : min (min (place + 1) m.stack.size - 1) (place + 1) = place := by omega
    rw [Array.toList_pop, Array.toList_shrink, Array.toList_shrink, List.dropLast_eq_take,
      List.take_take, List.length_take, Array.length_toList, shorter]
  simp only [popAddress, bind, popCell, top, rest, cellAddress, Array.getElem?_eq_getElem inside]
  cases m.stack[place] <;> rfl

theorem perform_ret (m : Machine) : follow (perform .ret m) = m.leave := by
  by_cases closed : m.framePtr = 0 ∨ m.stack.size ≤ m.framePtr
  · simp only [perform, leave, bind, Action.look, if_pos closed]
    rfl
  · obtain ⟨base, isBase⟩ : ∃ base, m.framePtr = base + 1 := ⟨m.framePtr - 1, by omega⟩
    have atFrame : m.framePtr < m.stack.size := by omega
    have atBase : base < m.stack.size := by omega
    have caller := popAddress_shrink m atFrame
    have returnTo := popAddress_shrink m atBase
    rw [← isBase] at returnTo
    simp only [perform, leave, bind, Action.look, if_neg closed, change, caller]
    have below : m.framePtr - 1 = base := by omega
    cases cellAddress m.stack m.framePtr with
    | error fault => rfl
    | ok caller =>
      simp only [returnTo, below]
      cases cellAddress m.stack base <;> rfl

/-- Carrying out an instruction in order is executing it. -/
theorem perform_eq_execute (m : Machine) (instruction : Instruction) :
    follow (perform instruction m) = m.execute instruction := by
  by_cases planned : isPlanned instruction = true
  · rw [execute_of_planned planned, perform_agrees planned]
    rfl
  · cases instruction with
    | restore regs =>
      simp only [perform, bind, restoreEach_eq, execute]
      rcases m.restore regs with ⟨m', _ | fault⟩ <;> rfl
    | ret => exact perform_ret m
    | _ => exact absurd rfl planned

theorem stepInOrder_eq_step (m : Machine) : m.stepInOrder = m.step := by
  unfold stepInOrder step
  cases m.code[m.pc]? with
  | none => rfl
  | some instruction =>
    rcases executed : m.execute instruction with ⟨m', _ | fault⟩ <;>
      simp only [perform_eq_execute, executed]

end InOrder

section Faults

/-- All cells are popped first if there are fewer than registers. -/
theorem restore_fault {regs : List Nat} {fault : Fault}
    (failed : m.restore regs = (m', some fault)) :
    m.stack.size < regs.length ∧
      m' = { m with
        stack := #[]
        registers :=
          m.registers.receive ((regs.take m.stack.size).zip m.stack.toList.reverse) } := by
  induction regs generalizing m with
  | nil => cases failed
  | cons reg rest ih =>
    simp only [restore] at failed
    split at failed
    next none =>
      have empty : m.stack = #[] := by simpa using none
      cases failed
      refine ⟨by simp [empty], ?_⟩
      simp only [empty, Registers.receive, List.reverse_nil, List.zip_nil_right, List.foldl_nil]
      rw [← empty]
    next cell isLast =>
      obtain ⟨fewer, same⟩ := ih failed
      obtain ⟨below, isPushed⟩ := Array.back?_eq_some_iff.mp isLast
      simp only [write, isPushed, Array.pop_push] at fewer same
      refine ⟨by simpa [isPushed] using fewer, ?_⟩
      rw [same, isPushed]
      simp [Registers.receive]

theorem leave_fault {fault : Fault} (failed : m.leave = (m', some fault)) :
    ∃ size, m' = { m with stack := m.stack.shrink size } := by
  unfold leave at failed
  dsimp only at failed
  split at failed
  next =>
    cases failed
    exact ⟨m.stack.size, by simp⟩
  next =>
    split at failed
    next =>
      cases failed
      exact ⟨_, rfl⟩
    next =>
      split at failed
      next =>
        cases failed
        exact ⟨_, rfl⟩
      next => cases failed

/-- What a fault of an instruction leaves in the registers and on the stack. -/
def FaultLeaves (m m' : Machine) : Instruction → Prop
  | .restore regs =>
    m.stack.size < regs.length ∧ m'.stack = #[] ∧
      m'.registers =
        m.registers.receive ((regs.take m.stack.size).zip m.stack.toList.reverse) ∧
      ∀ reg ∉ regs.take m.stack.size, m'.registers.read reg = m.registers.read reg
  | .ret => m'.registers = m.registers ∧ m'.stack.toList <+: m.stack.toList
  | _ => m'.registers = m.registers ∧ m'.stack = m.stack

/-- A fault changes registers and stack only, and these as its instruction may. -/
theorem execute_fault_leaves {instruction : Instruction} {fault : Fault}
    (failed : m.execute instruction = (m', some fault)) :
    m' = { m with registers := m'.registers, stack := m'.stack } ∧
      FaultLeaves m m' instruction := by
  by_cases planned : isPlanned instruction = true
  · rw [execute_of_planned planned] at failed
    split at failed
    · cases failed
    · cases failed
      refine ⟨rfl, ?_⟩
      cases instruction with
      | restore | ret => cases planned
      | _ => exact ⟨rfl, rfl⟩
  · cases instruction with
    | restore regs =>
      simp only [execute] at failed
      split at failed
      next => cases failed
      next restored =>
        cases failed
        obtain ⟨fewer, same⟩ := restore_fault restored
        subst same
        refine ⟨rfl, fewer, rfl, rfl, fun reg other => ?_⟩
        refine Registers.read_receive _ fun cell received => ?_
        rintro rfl
        exact other (List.of_mem_zip received).1
    | ret =>
      obtain ⟨size, rfl⟩ := leave_fault failed
      refine ⟨rfl, rfl, ?_⟩
      rw [Array.toList_shrink]
      exact List.take_prefix _ _
    | _ => exact absurd rfl planned

end Faults

/-- A step that fails halts the machine and reports where it is. It keeps program, pool, heap,
output, program counter and frame pointer. Registers and stack it keeps too, unless its instruction
closes a frame: a `restore` that fails has emptied the stack into the first of its registers, as many
as there were cells, and a `ret` that fails has kept the registers and cut the stack. All this is so
although instructions read, check and write in turn. -/
theorem fault_keeps_state {error : RuntimeError} (failed : m.step = (m', some error)) :
    m.stepInOrder = (m', some error) ∧ m'.halted = true ∧ error.pc = m.pc ∧
      (m'.pc = m.pc ∧ m'.code = m.code ∧ m'.pool = m.pool ∧ m'.heap = m.heap ∧
        m'.framePtr = m.framePtr ∧ m'.output = m.output) ∧
      ∃ instruction, m.code[m.pc]? = some instruction ∧ FaultLeaves m m' instruction := by
  refine ⟨(stepInOrder_eq_step m).trans failed, ?_⟩
  unfold step at failed
  split at failed
  next => cases failed
  next instruction fetch =>
    dsimp only at failed
    split at failed
    next => cases failed
    next last fault executed =>
      cases failed
      obtain ⟨same, leaves⟩ := execute_fault_leaves executed
      have kept : last.pc = m.pc ∧ last.code = m.code ∧ last.pool = m.pool ∧
          last.heap = m.heap ∧ last.framePtr = m.framePtr ∧ last.output = m.output := by
        rw [same]
        exact ⟨rfl, rfl, rfl, rfl, rfl, rfl⟩
      refine ⟨rfl, rfl, kept, instruction, fetch, ?_⟩
      cases instruction <;> exact leaves

/-- A machine with two cells on the stack, one of them unwritten, that is to restore three
registers. -/
def shortOfCells : Machine :=
  ((Machine.new 4).load
    [.loadConst 1 (.int 5), .push 1, .save [2], .restore [3, 1, 4], .halt] #[]).after 3

/-- The first two registers have received the cells, and the third has kept its own. -/
theorem fault_keeps_state_of_restore :
    shortOfCells.stack = #[some (.int 5), none] ∧
      shortOfCells.step.2 = some ⟨3, .stackUnderflow⟩ ∧ shortOfCells.step.1.stack = #[] ∧
      shortOfCells.stepInOrder = shortOfCells.step ∧
      FaultLeaves shortOfCells shortOfCells.step.1 (.restore [3, 1, 4]) := by
  have failed : shortOfCells.step = (shortOfCells.step.1, some ⟨3, .stackUnderflow⟩) := by decide
  obtain ⟨inOrder, _, _, _, instruction, fetch, leaves⟩ := fault_keeps_state failed
  have isRestore : instruction = .restore [3, 1, 4] := by
    have here : shortOfCells.code[shortOfCells.pc]? = some (.restore [3, 1, 4]) := by decide
    rw [fetch] at here
    exact Option.some.inj here
  subst isRestore
  exact ⟨by decide, by decide, leaves.2.1, inOrder.trans failed.symm, leaves⟩

end Machine

end ScriptVM
