import ScriptVM.Value
import ScriptVM.Text.Escape

/-!
Instructions of the machine and how listings write them.

A transfer of control names its target by a label, which assembly replaces by an address: the index
of an instruction. The text of an instruction is its opcode and its operands.
-/
namespace ScriptVM

/-- The register that carries a function's result to its caller. -/
def resultReg : Nat := 0

/-- Where control goes. -/
inductive Target where
  | label (name : String)
  | address (index : Nat)
deriving DecidableEq, Repr

/-- How a listing writes a target. -/
def Target.render : Target → String
  | label name => "@" ++ name
  | address index => toString index

/-- The comparisons on which a branch can depend. -/
inductive BranchTest where
  | eq
  | gt
  | lt
  | gte
  | lte
deriving DecidableEq, Repr

/-- The comparison itself. -/
def BranchTest.compare : BranchTest → Compare
  | eq => .eq
  | gt => .gt
  | lt => .lt
  | gte => .gte
  | lte => .lte

/-- One instruction. -/
inductive Instruction where
  /-- Stops the machine. -/
  | halt
  /-- Marks the instruction after it, and is gone after assembly. -/
  | label (name : String)
  | loadConst (dst : Nat) (value : Value)
  | loadPool (dst : Nat) (index : Nat)
  | loadAddress (dst : Nat) (target : Target)
  | copy (dst src : Nat)
  /-- Makes registers unwritten. -/
  | unset (regs : List Nat)
  /-- Takes the one of two registers that is written. -/
  | phi (dst left right : Nat)
  | arith (op : Arith) (dst left right : Nat)
  | arithConst (op : Arith) (dst left : Nat) (value : Value)
  | compare (op : Compare) (dst left right : Nat)
  | jump (target : Target)
  | branchZero (pred : Nat) (target : Target)
  | branchNonzero (pred : Nat) (target : Target)
  | branch (test : BranchTest) (left right : Nat) (target : Target)
  /-- Opens a frame that holds the arguments and jumps. -/
  | call (target : Target) (args : List Nat)
  /-- Closes the frame and resumes after the call. -/
  | ret
  /-- Grows the frame to a number of slots. -/
  | reserve (size : Nat)
  /-- Pushes registers, the last one first. -/
  | save (regs : List Nat)
  /-- Pops registers, the first one first. -/
  | restore (regs : List Nat)
  | loadSlot (dst : Nat) (index : Nat)
  | storeSlot (src : Nat) (index : Nat)
  /-- Fills a slot that holds no value yet. -/
  | storeOnce (src : Nat) (index : Nat)
  | push (src : Nat)
  | pop (dst : Nat)
  /-- Reads a cell some way below the top of the stack. -/
  | peek (dst : Nat) (offset : Nat)
  | newChunk (dst : Nat) (size : Nat)
  | newSymbol (dst : Nat) (text : String)
  | loadHeap (dst ptr : Nat)
  | storeHeap (ptr src : Nat)
  | loadHeapAt (dst ptr : Nat) (offset : Nat)
  | storeHeapAt (ptr : Nat) (offset : Nat) (src : Nat)
  | printConst (value : Value)
  | printReg (reg : Nat)
  | printSymbol (reg : Nat)
deriving DecidableEq, Repr

/-- How a listing writes a register. -/
def renderReg (reg : Nat) : String :=
  "r" ++ toString reg

/-- One operand of an instruction. -/
inductive Operand where
  | reg (reg : Nat)
  | const (value : Value)
  | pool (index : Nat)
  | target (target : Target)
  | count (n : Nat)
  | text (text : String)
deriving DecidableEq, Repr

/-- How a listing writes an operand. -/
def Operand.render : Operand → String
  | reg r => renderReg r
  | const value => value.render
  | pool index => "#" ++ toString index
  | target place => place.render
  | count n => toString n
  | text shown => Text.quote shown

namespace Instruction

/-- The name of an instruction. -/
def opcode : Instruction → String
  | halt => "halt"
  | label _ => "label"
  | loadConst .. => "load_c"
  | loadPool .. => "load_k"
  | loadAddress .. => "load_a"
  | copy .. => "copy"
  | unset _ => "unset"
  | phi .. => "phi"
  | arith op .. => op.name ++ "_rr"
  | arithConst op .. => op.name ++ "_rc"
  | compare op .. => op.name
  | jump _ => "jump"
  | branchZero .. => "branch_zero"
  | branchNonzero .. => "branch_one"
  | branch test .. => "branch_" ++ test.compare.name
  | call .. => "call"
  | ret => "ret"
  | reserve _ => "reserve"
  | save _ => "save"
  | restore _ => "restore"
  | loadSlot .. => "load_p"
  | storeSlot .. => "store_p"
  | storeOnce .. => "store_once"
  | push _ => "push"
  | pop _ => "pop"
  | peek .. => "peak"
  | newChunk .. => "new_chunk"
  | newSymbol .. => "new_sym"
  | loadHeap .. => "load_d"
  | storeHeap .. => "store_d"
  | loadHeapAt .. => "load_i"
  | storeHeapAt .. => "store_i"
  | printConst _ => "print_const"
  | printReg _ => "print_reg"
  | printSymbol _ => "print_sym"

/-- The operands of an instruction, in the order they are written. -/
def operands : Instruction → List Operand
  | halt | ret => []
  | label name => [.target (.label name)]
  | loadConst dst value => [.reg dst, .const value]
  | loadPool dst index => [.reg dst, .pool index]
  | loadAddress dst target => [.reg dst, .target target]
  | copy dst src => [.reg dst, .reg src]
  | unset regs | save regs | restore regs => regs.map .reg
  | phi dst left right | arith _ dst left right | compare _ dst left right =>
    [.reg dst, .reg left, .reg right]
  | arithConst _ dst left value => [.reg dst, .reg left, .const value]
  | jump target => [.target target]
  | branchZero pred target | branchNonzero pred target => [.reg pred, .target target]
  | branch _ left right target => [.reg left, .reg right, .target target]
  | call target args => .target target :: args.map .reg
  | reserve size => [.count size]
  | loadSlot reg index | storeSlot reg index | storeOnce reg index => [.reg reg, .count index]
  | push reg | pop reg | printReg reg | printSymbol reg => [.reg reg]
  | peek dst offset => [.reg dst, .count offset]
  | newChunk dst size => [.reg dst, .count size]
  | newSymbol dst text => [.reg dst, .text text]
  | loadHeap dst ptr => [.reg dst, .reg ptr]
  | storeHeap ptr src => [.reg ptr, .reg src]
  | loadHeapAt dst ptr offset => [.reg dst, .reg ptr, .count offset]
  | storeHeapAt ptr offset src => [.reg ptr, .count offset, .reg src]
  | printConst value => [.const value]

/-- The text of an instruction. -/
def render (i : Instruction) : String :=
  i.opcode ++ String.join (i.operands.map fun operand => " " ++ operand.render)

/-- The target of an instruction that names one. -/
def target? : Instruction → Option Target
  | loadAddress _ target | jump target | branchZero _ target | branchNonzero _ target
  | branch _ _ _ target | call target _ => some target
  | _ => none

/-- The instruction with another target, if it names one. -/
def withTarget (target : Target) : Instruction → Instruction
  | loadAddress dst _ => loadAddress dst target
  | jump _ => jump target
  | branchZero pred _ => branchZero pred target
  | branchNonzero pred _ => branchNonzero pred target
  | branch test left right _ => branch test left right target
  | call _ args => call target args
  | other => other

/-- The name that an instruction marks. -/
def labelName? : Instruction → Option String
  | label name => some name
  | _ => none

end Instruction

/-- A number in a field of four columns. -/
def padLeft4 (n : Nat) : String :=
  let text := toString n
  String.ofList (List.replicate (4 - text.length) ' ') ++ text

/-- Lines of a listing from an index on. -/
def listingFrom (index : Nat) : List Instruction → String
  | [] => ""
  | instruction :: rest =>
    padLeft4 index ++ ": " ++ instruction.render ++ "\n" ++ listingFrom (index + 1) rest

/-- A listing: one line for each instruction, with its index. -/
def listing (code : List Instruction) : String :=
  listingFrom 0 code

end ScriptVM
