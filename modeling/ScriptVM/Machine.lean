import ScriptVM.Heap
import ScriptVM.Machine.Registers

/-!
The machine: registers, a stack of frames, a heap, and a program counter.

A frame begins with the address to return to and the frame pointer of the caller; the frame pointer
of the callee is the place of the latter. Slots follow it, then whatever is pushed.

An instruction is executed in two parts. Planning reads the machine and finds what is to change,
or a fault; committing makes the change. So a fault leaves everything as it was. Only the two
instructions that take cells off the stack one by one, `restore` and `ret`, may fault halfway.
-/
namespace ScriptVM

/-- Why an instruction cannot be executed. -/
inductive Fault where
  | illegalInstruction (text : String)
  | unsetRegister (reg : Nat)
  | phiBothSet (left right : Nat)
  | phiNeitherSet (left right : Nat)
  | stackUnderflow
  | stackOutOfRange (index size : Nat)
  | unsetSlot (index : Nat)
  | alreadyAssigned (index : Nat)
  | missingConstant (index : Nat)
  | notAnAddress (value : Value)
  | value (error : ValueError)
  | heap (error : HeapError)
deriving DecidableEq, Repr

/-- The reason alone. -/
def Fault.reason : Fault → String
  | illegalInstruction text => "illegal instruction `" ++ text ++ "`"
  | unsetRegister reg => "register " ++ renderReg reg ++ " is read before it was written"
  | phiBothSet left right =>
    "phi found both " ++ renderReg left ++ " and " ++ renderReg right ++ " set"
  | phiNeitherSet left right =>
    "phi found neither " ++ renderReg left ++ " nor " ++ renderReg right ++ " set"
  | stackUnderflow => "stack underflow"
  | stackOutOfRange index size =>
    "stack slot " ++ toString index ++ " is outside the stack of " ++ toString size ++ " cells"
  | unsetSlot index => "stack slot " ++ toString index ++ " is read before it was written"
  | alreadyAssigned index => "val in stack slot " ++ toString index ++ " is already assigned"
  | missingConstant index => "constant #" ++ toString index ++ " is not in the pool"
  | notAnAddress found => found.render ++ " is not an address"
  | value error => error.message
  | heap error => error.message

/-- A fault and where it arose. -/
structure RuntimeError where
  pc : Nat
  fault : Fault
deriving DecidableEq, Repr

/-- The whole diagnostic. -/
def RuntimeError.message (e : RuntimeError) : String :=
  "runtime error at pc " ++ toString e.pc ++ ": " ++ e.fault.reason

/-- Stack cells may be written or not, as registers may. -/
abbrev Stack := Array (Option Value)

/-- The state of a machine. -/
structure Machine where
  code : Array Instruction := #[]
  pool : Array Value := #[]
  pc : Nat := 0
  registers : Registers := {}
  stack : Stack := #[]
  framePtr : Nat := 0
  heap : Heap
  /-- Lines printed and not collected yet. -/
  output : Array String := #[]
  halted : Bool := false
deriving DecidableEq, Repr

/-- What an instruction changes. -/
inductive Effect where
  /-- Nothing but to go on. -/
  | skip
  | halt
  | goto (pc : Nat)
  | write (dst : Nat) (cell : Option Value)
  | unset (regs : List Nat)
  | call (entry : Nat) (args : List Value)
  | reserve (size : Nat)
  | save (regs : List Nat)
  | store (place : Nat) (value : Value)
  | push (value : Value)
  | pop (dst : Nat)
  | allocate (dst : Nat) (size : Nat)
  | allocateSymbol (dst : Nat) (text : String)
  | storeHeap (address : Nat) (value : Value)
  | print (line : String)
deriving DecidableEq, Repr

namespace Machine

/-- A machine with nothing loaded. -/
def new (heapCells : Nat) : Machine :=
  { heap := .empty heapCells }

/-- Installs a program. Registers, stack and heap keep what earlier programs left. -/
def load (m : Machine) (code : List Instruction) (pool : Array Value) : Machine :=
  { m with code := code.toArray, pool, pc := 0, halted := false }

/-- Drops every frame. -/
def unwind (m : Machine) : Machine :=
  { m with stack := #[], framePtr := 0 }

/-- The value of a written register. -/
def read (m : Machine) (reg : Nat) : Except Fault Value :=
  match m.registers.read reg with
  | some value => .ok value
  | none => .error (.unsetRegister reg)

/-- The values of written registers. -/
def readAll (m : Machine) : List Nat → Except Fault (List Value)
  | [] => .ok []
  | reg :: rest => do
    let value ← m.read reg
    let values ← m.readAll rest
    return value :: values

/-- A value as an address. -/
def addressOf : Value → Except Fault Nat
  | .int n => if 0 ≤ n.toInt then .ok n.toInt.toNat else .error (.notAnAddress (.int n))
  | value => .error (.notAnAddress value)

/-- An address as a value. -/
def ofAddress (address : Nat) : Value :=
  .int (Int64.ofNat address)

/-- The address that an instruction's target is. -/
def destination (instruction : Instruction) : Target → Except Fault Nat
  | .address address => .ok address
  | .label _ => .error (.illegalInstruction instruction.render)

/-- The place in the stack of a slot of the current frame. A place is a word, so the largest indexes
lead back to the frame pointer and below it. -/
def slotPlace (m : Machine) (index : Nat) : Except Fault Nat :=
  let place := wrap (m.framePtr + index + 1)
  if place < m.stack.size then .ok place else .error (.stackOutOfRange place m.stack.size)

/-- The heap address that a register and an offset give. -/
def pointer (m : Machine) (reg : Nat) (offset : Nat) : Except Fault Nat := do
  let address ← addressOf (← m.read reg)
  return wrap (address + offset)

/-- A result of arithmetic, or its error as a fault. -/
def valueFault {α : Type} : Except ValueError α → Except Fault α
  | .ok a => .ok a
  | .error e => .error (.value e)

/-- A result from the heap, or its error as a fault. -/
def heapFault {α : Type} : Except HeapError α → Except Fault α
  | .ok a => .ok a
  | .error e => .error (.heap e)

/-- To go to a target if a test holds. -/
def gotoIf (instruction : Instruction) (target : Target) (test : Bool) : Except Fault Effect :=
  if test then (destination instruction target).map .goto else .ok .skip

/-- What an instruction is to change, for those that either change all of it or nothing. -/
def plan (m : Machine) (instruction : Instruction) : Except Fault Effect :=
  match instruction with
  | .halt => .ok .halt
  | .label _ => .error (.illegalInstruction instruction.render)
  | .loadConst dst value => .ok (.write dst (some value))
  | .loadPool dst index =>
    match m.pool[index]? with
    | some value => .ok (.write dst (some value))
    | none => .error (.missingConstant index)
  | .loadAddress dst target => do
    let address ← destination instruction target
    return .write dst (some (ofAddress address))
  | .copy dst src => do
    let value ← m.read src
    return .write dst (some value)
  | .unset regs => .ok (.unset regs)
  | .phi dst left right =>
    match m.registers.read left, m.registers.read right with
    | some value, none | none, some value => .ok (.write dst (some value))
    | some _, some _ => .error (.phiBothSet left right)
    | none, none => .error (.phiNeitherSet left right)
  | .arith op dst left right => do
    let a ← m.read left
    let b ← m.read right
    let value ← valueFault (op.apply a b)
    return .write dst (some value)
  | .arithConst op dst left b => do
    let a ← m.read left
    let value ← valueFault (op.apply a b)
    return .write dst (some value)
  | .compare op dst left right => do
    let a ← m.read left
    let b ← m.read right
    let value ← valueFault (op.apply a b)
    return .write dst (some value)
  | .jump target => (destination instruction target).map .goto
  | .branchZero pred target => do
    let value ← m.read pred
    gotoIf instruction target value.isZero
  | .branchNonzero pred target => do
    let value ← m.read pred
    gotoIf instruction target (!value.isZero)
  | .branch test left right target => do
    let a ← m.read left
    let b ← m.read right
    let holds ← valueFault (test.compare.holds a b)
    gotoIf instruction target holds
  | .call target args => do
    let entry ← destination instruction target
    let values ← m.readAll args
    return .call entry values
  | .reserve size => .ok (.reserve size)
  | .save regs => .ok (.save regs)
  | .loadSlot dst index => do
    let place ← m.slotPlace index
    match (m.stack[place]?).join with
    | some value => return .write dst (some value)
    | none => throw (.unsetSlot place)
  | .storeSlot src index => do
    let value ← m.read src
    let place ← m.slotPlace index
    return .store place value
  | .storeOnce src index => do
    let value ← m.read src
    let place ← m.slotPlace index
    match (m.stack[place]?).join with
    | none | some .null => return .store place value
    | some _ => throw (.alreadyAssigned place)
  | .push src => do
    let value ← m.read src
    return .push value
  | .pop dst => if m.stack.isEmpty then .error .stackUnderflow else .ok (.pop dst)
  | .peek dst offset =>
    if offset < m.stack.size then
      .ok (.write dst (m.stack[m.stack.size - (offset + 1)]?).join)
    else .error (.stackOutOfRange (offset + 1) m.stack.size)
  | .newChunk dst size => .ok (.allocate dst size)
  | .newSymbol dst text => .ok (.allocateSymbol dst text)
  | .loadHeap dst ptr => do
    let address ← m.pointer ptr 0
    let value ← heapFault (m.heap.load address)
    return .write dst (some value)
  | .storeHeap ptr src => do
    let address ← m.pointer ptr 0
    let value ← m.read src
    let _ ← heapFault (m.heap.check address)
    return .storeHeap address value
  | .loadHeapAt dst ptr offset => do
    let address ← m.pointer ptr offset
    let value ← heapFault (m.heap.load address)
    return .write dst (some value)
  | .storeHeapAt ptr offset src => do
    let address ← m.pointer ptr offset
    let value ← m.read src
    let _ ← heapFault (m.heap.check address)
    return .storeHeap address value
  | .printConst value => .ok (.print value.render)
  | .printReg reg => do
    let value ← m.read reg
    return .print (renderReg reg ++ ":" ++ value.render)
  | .printSymbol reg => do
    let address ← addressOf (← m.read reg)
    let text ← heapFault (m.heap.symbol address)
    return .print (renderReg reg ++ ":" ++ toString address ++ "=>'" ++ text ++ "'")
  | .restore _ | .ret => .ok .skip

/-- The machine going on with the next instruction. -/
def next (m : Machine) : Machine :=
  { m with pc := m.pc + 1 }

/-- The machine with a register written. -/
def write (m : Machine) (reg : Nat) (cell : Option Value) : Machine :=
  { m with registers := m.registers.write reg cell }

/-- The stack with unwritten cells up to a size. -/
def growStack (stack : Stack) (size : Nat) : Stack :=
  if stack.size < size then stack ++ Array.replicate (size - stack.size) none else stack

/-- Makes the change. -/
def commit (m : Machine) : Effect → Machine
  | .skip => m.next
  | .halt => { m with halted := true }
  | .goto pc => { m with pc }
  | .write dst cell => (m.write dst cell).next
  | .unset regs => { m with registers := m.registers.unset regs }.next
  | .call entry args =>
    let returnTo := m.pc
    let caller := m.framePtr
    let frame := m.stack.size + 1
    { m with
      stack := ((m.stack.push (some (ofAddress returnTo))).push (some (ofAddress caller))) ++
        (args.map some).toArray
      framePtr := frame
      pc := entry }
  | .reserve size =>
    let needed := wrap (m.framePtr + 1 + size)
    { m with stack := growStack m.stack needed }.next
  | .save regs =>
    let registers := m.registers
    { m with stack := m.stack ++ (regs.reverse.map registers.read).toArray }.next
  | .store place value => { m with stack := m.stack.setIfInBounds place (some value) }.next
  | .push value => { m with stack := m.stack.push (some value) }.next
  | .pop dst =>
    let cell := (m.stack.back?).join
    ({ m with stack := m.stack.pop }.write dst cell).next
  | .allocate dst size =>
    let (address, heap) := m.heap.allocate size
    ({ m with heap }.write dst (some (ofAddress address))).next
  | .allocateSymbol dst text =>
    let (address, heap) := m.heap.allocateSymbol text
    ({ m with heap }.write dst (some (ofAddress address))).next
  | .storeHeap address value =>
    { m with heap := m.heap.put address value }.next
  | .print line => { m with output := m.output.push line }.next

/-- Pops registers, the first one first, up to the end of the stack. -/
def restore (m : Machine) : List Nat → Machine × Option Fault
  | [] => (m, none)
  | reg :: rest =>
    match m.stack.back? with
    | none => (m, some .stackUnderflow)
    | some cell => restore ({ m with stack := m.stack.pop }.write reg cell) rest

/-- The address in a stack cell. -/
def cellAddress (stack : Stack) (place : Nat) : Except Fault Nat :=
  match (stack[place]?).join with
  | none => .error .stackUnderflow
  | some value => addressOf value

/-- Closes the current frame. A cell that should hold an address is gone even if it holds none. -/
def leave (m : Machine) : Machine × Option Fault :=
  if m.framePtr = 0 ∨ m.stack.size ≤ m.framePtr then (m, some .stackUnderflow)
  else
    let base := m.framePtr - 1
    match cellAddress m.stack m.framePtr with
    | .error fault => ({ m with stack := m.stack.shrink m.framePtr }, some fault)
    | .ok caller =>
      match cellAddress m.stack base with
      | .error fault => ({ m with stack := m.stack.shrink base }, some fault)
      | .ok returnTo =>
        ({ m with stack := m.stack.shrink base, framePtr := caller, pc := returnTo + 1 }, none)

/-- Executes one instruction. -/
def execute (m : Machine) (instruction : Instruction) : Machine × Option Fault :=
  match instruction with
  | .restore regs =>
    match m.restore regs with
    | (m, none) => (m.next, none)
    | (m, some fault) => (m, some fault)
  | .ret => m.leave
  | instruction =>
    match m.plan instruction with
    | .ok effect => (m.commit effect, none)
    | .error fault => (m, some fault)

/-- Executes the instruction at the program counter. Past the end, and at a fault, the machine
halts. -/
def step (m : Machine) : Machine × Option RuntimeError :=
  match m.code[m.pc]? with
  | none => ({ m with halted := true }, none)
  | some instruction =>
    let pc := m.pc
    match m.execute instruction with
    | (m, none) => (m, none)
    | (m, some fault) => ({ m with halted := true }, some ⟨pc, fault⟩)

/-- Whether a run is over. -/
def isDone (m : Machine) : Bool :=
  m.halted || m.code.size ≤ m.pc

/-- The number of addresses that values can hold. -/
def addressLimit : Nat := Nat.pow 2 63

/-- Two addresses add up to a word. -/
theorem addressLimit_add_self : addressLimit + addressLimit = wordLimit := rfl

/-- The size of the stack that an instruction asks for. -/
def stackNeeded (m : Machine) : Instruction → Nat
  | .reserve size => m.framePtr + 1 + size
  | _ => 0

/-- Whether every instruction and every cell has an address of its own, those that the next
instruction asks for included. No machine has memory for more. -/
def isAddressable (m : Machine) : Bool :=
  m.code.size < addressLimit && m.stack.size < addressLimit && m.heap.top < addressLimit &&
    (m.code[m.pc]?).all fun instruction => m.stackNeeded instruction < addressLimit

/-- Runs to the end of the program or a fault, if that takes no more than `fuel` steps and no more
memory than there is. -/
def run : Nat → Machine → Option (Machine × Option RuntimeError)
  | 0, m => if m.isDone then some ({ m with halted := true }, none) else none
  | fuel + 1, m =>
    if m.isDone then some ({ m with halted := true }, none)
    else if m.isAddressable then
      match m.step with
      | (m, none) => run fuel m
      | (m, some error) => some (m, some error)
    else none

/-- Empties the output. -/
def collectOutput (m : Machine) : List String × Machine :=
  (m.output.toList, { m with output := #[] })

/-- One stack cell, with marks at the frame pointer and the top. -/
def describeCell (m : Machine) (place : Nat) (cell : Option Value) : String :=
  (match cell with
   | some value => value.render
   | none => "_") ++
    (if place = m.framePtr then "<fp" else "") ++
    (if place + 1 = m.stack.size then "<sp" else "")

/-- Registers and stack on one line. -/
def describe (m : Machine) : String :=
  let registers := m.registers.written.map fun (reg, value) => renderReg reg ++ ":" ++ value.render
  let cells := m.stack.toList.zipIdx.map fun (cell, place) => m.describeCell place cell
  "\x7b" ++ String.intercalate ", " registers ++ "\x7d [" ++ String.intercalate ", " cells ++ "]"

end Machine

end ScriptVM
