import ScriptVM.Document
import ScriptVM.Supplies

/-!
Lowering: from a document to instructions.

Every node becomes instructions that leave its value in a register of their own. A function is

    load_a dst entry, jump past, entry:, reserve, save, body, copy r0, restore, ret, past:

where the registers saved and restored are those that the body was given. Lowering composes: the
instructions of a node are made of those of its children and some between them. When it fails it
still gives the instructions made so far, with empty lists where a list was not known yet.
-/
namespace ScriptVM

/-- Why a node cannot be lowered. -/
inductive CompileError.Cause where
  | rootNotModule (kind : String)
  | note (error : NoteError)
  | missing (key : Note.Key) (kind : String)
  | unsupportedOperator (op : String)
  | emptyBlock
  | trailingBlock
  | unnamedCallee
  | notAFunction (name : String)
  | argumentCount (name : String) (params args : Nat)
  | captured (name : String)
  | notAValue (name kind : String)
  | reassigned (name : String)
  | parameterAssigned (name : String)
  | otherAssigned (name kind : String)
  | unmatchedAlternative
  | notLowerable (kind : String)
deriving DecidableEq, Repr

/-- The reason alone. -/
def CompileError.Cause.reason : CompileError.Cause → String
  | rootNotModule kind => "expected a Module, found " ++ kind
  | note error => error.message
  | missing key kind => kind ++ " node has no `" ++ key.name ++ "` annotation"
  | unsupportedOperator op => "BinOp `" ++ op ++ "` is not supported"
  | emptyBlock => "empty block cannot produce a value"
  | trailingBlock => "calls with a block argument are not supported"
  | unnamedCallee => "only named functions can be called"
  | notAFunction name => "`" ++ name ++ "` is not a function"
  | argumentCount name params args =>
    "`" ++ name ++ "` expects " ++ toString params ++ " arguments, found " ++ toString args
  | captured name =>
    "`" ++ name ++ "` belongs to an enclosing function; functions cannot capture outer locals"
  | notAValue name kind => "`" ++ name ++ "` names a " ++ kind ++ " node, not a value"
  | reassigned name => "cannot reassign val `" ++ name ++ "`"
  | parameterAssigned name => "cannot assign to parameter `" ++ name ++ "`"
  | otherAssigned name kind => "cannot assign to " ++ kind ++ " `" ++ name ++ "`"
  | unmatchedAlternative => "`else` without a matching `if`"
  | notLowerable kind => kind ++ " node cannot be compiled"

/-- A refusal at a node. -/
structure CompileError where
  cause : CompileError.Cause
  span : Span
deriving DecidableEq, Repr

/-- The whole diagnostic. -/
def CompileError.message (e : CompileError) : String :=
  e.span.render ++ ": " ++ e.cause.reason

namespace Lowering

/-- What has not been given out yet. -/
structure Supply where
  registers : RegisterSupply := {}
  names : FreshNames := {}
deriving DecidableEq, Repr, Inhabited

/-- What lowering comes to: a result with its instructions, or a refusal with those made so far. -/
inductive Outcome (α : Type) where
  | ok (value : α) (code : List Instruction) (supply : Supply)
  | error (error : CompileError) (code : List Instruction)
deriving Repr

end Lowering

/-- A computation that gives out registers and names, appends instructions, and may refuse. -/
def Lowering (α : Type) : Type := Lowering.Supply → Lowering.Outcome α

namespace Lowering

variable {α β : Type}

/-- Nothing but a result. -/
def result (value : α) : Lowering α := fun supply => .ok value [] supply

/-- One computation after another, with the instructions of the first before those of the second. -/
def andThen (first : Lowering α) (second : α → Lowering β) : Lowering β := fun supply =>
  match first supply with
  | .error e code => .error e code
  | .ok value code supply =>
    match second value supply with
    | .error e code' => .error e (code ++ code')
    | .ok value' code' supply' => .ok value' (code ++ code') supply'

instance : Monad Lowering where
  pure := result
  bind := andThen

/-- Refuses. -/
def fail (cause : CompileError.Cause) (span : Span) : Lowering α := fun _ =>
  .error ⟨cause, span⟩ []

/-- Appends instructions. -/
def emit (code : List Instruction) : Lowering Unit := fun supply => .ok () code supply

/-- A register of its own. -/
def fresh : Lowering Nat := fun supply =>
  let (reg, registers) := supply.registers.take
  .ok reg [] { supply with registers }

/-- The register that `fresh` gives next. -/
def mark : Lowering Nat := fun supply => .ok supply.registers.next [] supply

/-- The registers given out since a mark. -/
def givenSince (mark : Nat) : Lowering (List Nat) := fun supply =>
  .ok (supply.registers.since mark) [] supply

/-- A number for a label. -/
def freshNumber : Lowering Nat := fun supply =>
  let (n, names) := supply.names.take
  .ok n [] { supply with names }

/-- Puts an instruction in front that is only known when the computation is done. Should it refuse,
the pending instruction stands there. -/
def precededBy (pending : Instruction) (settled : α → Instruction) (body : Lowering α) :
    Lowering α := fun supply =>
  match body supply with
  | .error e code => .error e (pending :: code)
  | .ok value code supply => .ok value (settled value :: code) supply

/-- What is known where a node stands. -/
structure Env where
  /-- Every node of the document. -/
  nodes : List (Node Tag)
  annotations : Annotations
  /-- The innermost function around, or the program. -/
  owner : Nat
  /-- What its labels start with. -/
  stem : String

namespace Env

/-- The notes of a node. -/
def notes (env : Env) (node : Node Tag) : Notes :=
  env.annotations.get node.id

/-- The node with an identity. -/
def find? (env : Env) (id : Nat) : Option (Node Tag) :=
  env.nodes.find? fun node => node.id == id

end Env

/-- A note that must be there. -/
def require (note : Option α) (key : Note.Key) (node : Node Tag) : Lowering α :=
  match note with
  | some value => result value
  | none => fail (.missing key node.kindName) node.span

/-- The declaration that a use refers to. -/
def declarationOf (env : Env) (node : Node Tag) : Lowering (Node Tag) :=
  require ((env.notes node).binding.bind env.find?) .binding node

/-- The slot of a declaration, which must belong to the function being lowered. -/
def slotOf (env : Env) (declaration : Node Tag) (name : String) (span : Span) : Lowering Nat :=
  let owned := (env.annotations.get env.owner).locals.any (·.containsNode declaration.id)
  if owned then require (env.notes declaration).index .index declaration
  else fail (.captured name) span

/-- The label at which a function starts. -/
def entryOf (env : Env) (declaration : Node Tag) : Lowering String :=
  require (env.notes declaration).address .address declaration

/-- A label inside the function being lowered. -/
def freshLabel (env : Env) (suffix : String) : Lowering String := do
  let n ← freshNumber
  return env.stem ++ "_" ++ toString n ++ "_" ++ suffix

/-- The instruction of an operator on two registers. -/
def operation? (op : String) : Option (Nat → Nat → Nat → Instruction) :=
  if op = "+" then some (.arith .add)
  else if op = "-" then some (.arith .sub)
  else if op = "*" then some (.arith .mul)
  else if op = "/" then some (.arith .div)
  else if op = "%" then some (.arith .rem)
  else if op = "<" then some (.compare .lt)
  else if op = "<=" then some (.compare .lte)
  else if op = ">" then some (.compare .gt)
  else if op = ">=" then some (.compare .gte)
  else if op = "==" then some (.compare .eq)
  else if op = "!=" then some (.compare .neq)
  else none

/-- No value, in a register. -/
def nothing : Lowering Nat := do
  let dst ← fresh
  emit [.loadConst dst .null]
  return dst

/-- A literal, in a register. -/
def literal (env : Env) (node : Node Tag) : Lowering Nat := do
  let index ← require (env.notes node).constant .constant node
  let dst ← fresh
  emit [.loadPool dst index]
  return dst

/-- What a name stands for, in a register. -/
def reference (env : Env) (node : Node Tag) (name : String) : Lowering Nat := do
  let declaration ← declarationOf env node
  match declaration with
  | .declare .. | .param .. => do
    let index ← slotOf env declaration name node.span
    let dst ← fresh
    emit [.loadSlot dst index]
    return dst
  | .define .. => do
    let entry ← entryOf env declaration
    let dst ← fresh
    emit [.loadAddress dst (.label entry)]
    return dst
  | other => fail (.notAValue name other.kindName) node.span

/-- The function that a call names, by the label at which it starts. -/
def calleeOf (env : Env) (callee : Node Tag) (args : Nat) (trailing : Bool) (span : Span) :
    Lowering String :=
  if trailing then fail .trailingBlock span
  else
    match callee with
    | .leaf _ (.valueId name) => do
      let declaration ← declarationOf env callee
      match declaration with
      | .define _ _ params _ _ =>
        if params.length = args then entryOf env declaration
        else fail (.argumentCount name params.length args) span
      | _ => fail (.notAFunction name) span
    | _ => fail .unnamedCallee span

/-- How an assignment stores: a variable that was declared without a value may be given one once. -/
def storeOf (declaration : Node Tag) (name : String) (span : Span) :
    Lowering (Nat → Nat → Instruction) :=
  match declaration with
  | .declare _ .var _ _ _ => result .storeSlot
  | .declare _ .val _ _ value =>
    if value.isUnit then result .storeOnce else fail (.reassigned name) span
  | .param .. => fail (.parameterAssigned name) span
  | other => fail (.otherAssigned name other.kindName) span

/-- Stores of consecutive cells. -/
def cellStores (ptr : Nat) (offset : Nat) : List Nat → List Instruction
  | [] => []
  | src :: rest => .storeHeapAt ptr offset src :: cellStores ptr (offset + 1) rest

mutual

/-- The instructions of a tree and the register that holds its value. -/
def visit (env : Env) : Node Tag → Lowering Nat
  | node@(.leaf _ (.int _)) | node@(.leaf _ (.real _)) | node@(.leaf _ (.bool _)) =>
    literal env node
  | node@(.leaf _ (.valueId name)) => reference env node name
  | .leaf _ .unit | .leaf _ .noop => nothing
  | node@(.leaf tag (.typeId _)) | node@(.leaf tag (.symbolId _)) | node@(.param tag _ _) =>
    fail (.notLowerable node.kindName) tag.span
  | .program tag _ body | .block tag body => do
    match ← visitStatements env none body with
    | some last => return last
    | none => fail .emptyBlock tag.span
  | node@(.define tag _ _ body _) => do
    let entry ← entryOf env node
    let past := entry ++ "_end"
    let locals ← require (env.notes node).locals .locals node
    let dst ← fresh
    emit [.loadAddress dst (.label entry), .jump (.label past), .label entry, .reserve locals.size]
    let start ← mark
    let (last, given) ← precededBy (.save []) (fun (_, given) => .save given) do
      let last ← visit { env with owner := tag.id, stem := entry } body
      return (last, ← givenSince start)
    emit [.copy resultReg last, .restore given, .ret, .label past]
    return dst
  | node@(.declare _ _ _ _ value) => do
    let src ← visit env value
    let index ← require (env.notes node).index .index node
    emit [.storeSlot src index]
    return src
  | node@(.assign tag name value) => do
    let declaration ← declarationOf env node
    let store ← storeOf declaration name tag.span
    let index ← slotOf env declaration name tag.span
    let src ← visit env value
    emit [store src index]
    return src
  | .branch _ pred yes no => do
    let pred ← visit env pred
    let otherwise ← freshLabel env "else"
    let past ← freshLabel env "end"
    let (left, right) ← precededBy (.unset []) (fun (left, right) => .unset [left, right]) do
      emit [.branchZero pred (.label otherwise)]
      let left ← visit env yes
      emit [.jump (.label past), .label otherwise]
      let right ← visit env no
      emit [.label past]
      return (left, right)
    let dst ← fresh
    emit [.phi dst left right]
    return dst
  | .orElse tag _ => fail .unmatchedAlternative tag.span
  | .loop _ pred body => do
    let again ← freshLabel env "begin"
    let past ← freshLabel env "end"
    emit [.label again]
    let pred ← visit env pred
    emit [.branchZero pred (.label past)]
    let _ ← visit env body
    emit [.jump (.label again), .label past]
    nothing
  | .binary tag op left right =>
    match operation? op with
    | none => fail (.unsupportedOperator op) tag.span
    | some instruction => do
      let left ← visit env left
      let right ← visit env right
      let dst ← fresh
      emit [instruction dst left right]
      return dst
  | .call tag callee args trailing => do
    let entry ← calleeOf env callee args.length trailing.isSome tag.span
    let regs ← visitAll env args
    emit [.call (.label entry) regs]
    let dst ← fresh
    emit [.copy dst resultReg]
    return dst
  | .aggregate _ _ elements => do
    let regs ← visitAll env elements
    let ptr ← fresh
    emit (.newChunk ptr regs.length :: cellStores ptr 0 regs)
    return ptr

/-- The values of several trees, from left to right. -/
def visitAll (env : Env) : List (Node Tag) → Lowering (List Nat)
  | [] => return []
  | node :: rest => do
    let reg ← visit env node
    return reg :: (← visitAll env rest)

/-- Statements in order; the value is that of the last one that is not the rest of a merged one. -/
def visitStatements (env : Env) (last : Option Nat) : List (Node Tag) → Lowering (Option Nat)
  | [] => return last
  | node :: rest =>
    if node.isNoop then visitStatements env last rest
    else do
      let reg ← visit env node
      visitStatements env (some reg) rest

end

attribute [simp] visit visitAll visitStatements

/-- Gives one function a label to start at. -/
def giveAddress (state : Annotations × FreshNames) (node : Node Tag) :
    Except CompileError (Annotations × FreshNames) :=
  match node with
  | .define tag name _ _ _ =>
    let (label, names) := state.2.unique name
    match state.1.set tag.id (.address label) with
    | .ok annotations => .ok (annotations, names)
    | .error e => .error ⟨.note e, tag.span⟩
  | _ => .ok state

end Lowering

/-- Instructions with labels, and the register that holds the value of the program in the end. -/
structure Compiled where
  code : List Instruction
  result : Nat
deriving DecidableEq, Repr

/-- A refusal and the instructions made before it. -/
structure CompileFailure where
  error : CompileError
  code : List Instruction
deriving DecidableEq, Repr

/-- Gives every function a label to start at, in preorder, so that calls may come first. -/
def Document.assignAddresses (document : Document) :
    Except CompileError (Annotations × FreshNames) :=
  document.root.preorder.foldlM Lowering.giveAddress (document.annotations, {})

/-- Lowers a whole document. -/
def Document.compile (document : Document) : Except CompileFailure (Document × Compiled) :=
  match document.root with
  | .program tag name _ =>
    match document.assignAddresses with
    | .error e => .error ⟨e, []⟩
    | .ok (annotations, names) =>
      match (annotations.get tag.id).locals with
      | none => .error ⟨⟨.missing .locals document.root.kindName, tag.span⟩, []⟩
      | some locals =>
        let opening : List Instruction := if 0 < locals.size then [.reserve locals.size] else []
        let env : Lowering.Env := ⟨document.root.preorder, annotations, tag.id, name⟩
        match Lowering.visit env document.root ⟨{}, names⟩ with
        | .error e code => .error ⟨e, opening ++ code⟩
        | .ok result code _ =>
          .ok ({ document with annotations }, ⟨opening ++ code ++ [.halt], result⟩)
  | root => .error ⟨⟨.rootNotModule root.kindName, root.span⟩, []⟩

end ScriptVM
