import ScriptVM.Constant
import ScriptVM.Machine

/-!
What a program means, by recursion on its tree.

Operands, arguments, elements and statements are evaluated from left to right. An activation maps
the declarations of a function to the values they have been given; a call opens a fresh one in which
only the parameters have values. The heap is that of the machine, because tuples and lists are known
by their addresses, and a function is known by the address of its code, which the environment tells.

Recursion is on the tree. Calls and repetitions are bounded by `fuel`, so a program without an end
has no value under any bound.
-/
namespace ScriptVM

/-- The value of a literal. -/
def Leaf.literal? : Leaf → Option Value
  | .int text => Literal.int? text
  | .real text => Literal.real? text
  | .bool text => some (Value.ofBool (text = "true"))
  | _ => none

/-- Whether a leaf is a literal. -/
def Leaf.isLiteral : Leaf → Bool
  | .int _ | .real _ | .bool _ => true
  | _ => false

/-- Why an evaluation has no value. -/
inductive Stop where
  /-- An operation has no result. -/
  | value (error : ValueError)
  /-- A variable that may be given a value once is given a second one. -/
  | alreadyAssigned
  /-- The tree is none that can be lowered, or a variable is read before it has a value. -/
  | stuck
  /-- The bound on nested calls and on repetitions is reached. -/
  | timeout
deriving DecidableEq, Repr

namespace Evaluation

/-- What an evaluation reads and changes: the current activation and the heap. -/
structure State where
  vars : Nat → Option Value
  heap : Heap

/-- What is known of the whole program. -/
structure Env where
  /-- Every node of the document. -/
  nodes : List (Node Tag)
  annotations : Annotations
  /-- Where the code of a function starts. -/
  entry : Nat → Nat

/-- An evaluation. A fault leaves the heap as it was when the fault arose. -/
abbrev Eval (α : Type) : Type := EStateM Stop State α

namespace Env

/-- The declaration that a use refers to. -/
def declaration? (env : Env) (use : Nat) : Option (Node Tag) :=
  (env.annotations.get use).binding.bind fun id => env.nodes.find? fun node => node.id == id

/-- The value of a function. -/
def function (env : Env) (id : Nat) : Value :=
  Machine.ofAddress (env.entry id)

end Env

/-- The meaning of an operator. -/
def operator? (op : String) : Option (Value → Value → Except ValueError Value) :=
  if op = "+" then some Arith.add.apply
  else if op = "-" then some Arith.sub.apply
  else if op = "*" then some Arith.mul.apply
  else if op = "/" then some Arith.div.apply
  else if op = "%" then some Arith.rem.apply
  else if op = "<" then some Compare.lt.apply
  else if op = "<=" then some Compare.lte.apply
  else if op = ">" then some Compare.gt.apply
  else if op = ">=" then some Compare.gte.apply
  else if op = "==" then some Compare.eq.apply
  else if op = "!=" then some Compare.neq.apply
  else none

/-- A value that must exist. -/
def expect : Option Value → Eval Value
  | some value => return value
  | none => throw .stuck

/-- The result of an operation, or its error. -/
def settle : Except ValueError Value → Eval Value
  | .ok value => return value
  | .error e => throw (.value e)

/-- The value of a variable. -/
def readVar (id : Nat) : Eval Value := do
  expect ((← get).vars id)

/-- Gives a variable a value. -/
def writeVar (id : Nat) (value : Value) : Eval Unit :=
  modify fun state =>
    { state with vars := fun other => if other = id then some value else state.vars other }

/-- Gives a variable that holds no value yet a value. -/
def writeOnce (id : Nat) (value : Value) : Eval Unit := do
  match ← readVar id with
  | .null => writeVar id value
  | _ => throw .alreadyAssigned

/-- Hands out as many cells as there are values, writes the values to them, and gives the address of
the first. -/
def allocate (values : List Value) : Eval Value := do
  let state ← get
  let heap := state.heap.handOut (state.heap.top + values.length)
  set { state with heap := heap.fill state.heap.top values }
  return Machine.ofAddress state.heap.top

/-- The activation in which the parameters hold the arguments. -/
def parameters : List (Node Tag) → List Value → Nat → Option Value
  | param :: params, value :: values => fun id =>
    if id = param.id then some value else parameters params values id
  | _, _ => fun _ => none

/-- Evaluates the body of a function in an activation of its own. -/
def activate (evaluate : Node Tag → Eval Value) (params : List (Node Tag)) (body : Node Tag)
    (args : List Value) : Eval Value := do
  let caller ← get
  set { caller with vars := parameters params args }
  let value ← evaluate body
  modify fun callee => { callee with vars := caller.vars }
  return value

/-- Repeats a body while a predicate does not fail. -/
def repeatWhile (pred body : Eval Value) : Nat → Eval Value
  | 0 => throw .timeout
  | fuel + 1 => do
    if (← pred).isZero then return .null
    else
      let _ ← body
      repeatWhile pred body fuel

section

variable (env : Env) (fuel : Nat)
  (invoke : List (Node Tag) → Node Tag → List Value → Eval Value)

mutual

/-- The value of a tree, with calls left to `invoke`. -/
def eval : Node Tag → Eval Value
  | .leaf _ (.int text) => expect (Literal.int? text)
  | .leaf _ (.real text) => expect (Literal.real? text)
  | .leaf _ (.bool text) => return Value.ofBool (text = "true")
  | .leaf tag (.valueId _) =>
    match env.declaration? tag.id with
    | some (.declare declared _ _ _ _) | some (.param declared _ _) => readVar declared.id
    | some (.define declared _ _ _ _) => return env.function declared.id
    | _ => throw .stuck
  | .leaf _ .unit | .leaf _ .noop => return .null
  | .leaf _ (.typeId _) | .leaf _ (.symbolId _) | .param .. | .orElse .. => throw .stuck
  | .program _ _ body | .block _ body => do
    expect (← evalStatements none body)
  | .define tag _ _ _ _ => return env.function tag.id
  | .declare tag _ _ _ value => do
    let value ← eval value
    writeVar tag.id value
    return value
  | .assign tag _ value =>
    match env.declaration? tag.id with
    | some (.declare declared .var _ _ _) => do
      let value ← eval value
      writeVar declared.id value
      return value
    | some (.declare declared .val _ _ initial) =>
      if initial.isUnit then do
        let value ← eval value
        writeOnce declared.id value
        return value
      else throw .stuck
    | _ => throw .stuck
  | .branch _ pred yes no => do
    if (← eval pred).isZero then eval no else eval yes
  | .loop _ pred body => repeatWhile (eval pred) (eval body) fuel
  | .binary _ op left right =>
    match operator? op with
    | none => throw .stuck
    | some apply => do
      let a ← eval left
      let b ← eval right
      settle (apply a b)
  | .call _ callee args _ =>
    match env.declaration? callee.id with
    | some (.define _ _ params body _) => do
      let values ← evalAll args
      invoke params body values
    | _ => throw .stuck
  | .aggregate _ _ elements => do
    let values ← evalAll elements
    allocate values

/-- The values of several trees, from left to right. -/
def evalAll : List (Node Tag) → Eval (List Value)
  | [] => return []
  | node :: rest => do
    let value ← eval node
    return value :: (← evalAll rest)

/-- Statements in order; the value is that of the last one that is not the rest of a merged one. -/
def evalStatements (last : Option Value) : List (Node Tag) → Eval (Option Value)
  | [] => return last
  | node :: rest =>
    if node.isNoop then evalStatements last rest
    else do
      let value ← eval node
      evalStatements (some value) rest

end

attribute [simp] eval evalAll evalStatements

end

/-- The value of a tree with no more than `fuel` calls inside each other and no more than `fuel`
repetitions of any loop. -/
def evaluate (env : Env) : Nat → Node Tag → Eval Value
  | 0 => eval env 0 fun _ _ _ => throw .timeout
  | fuel + 1 => eval env (fuel + 1) (activate (evaluate env fuel))

end Evaluation

/-- The value of a document, starting with a heap. -/
def Document.evaluate (document : Document) (entry : Nat → Nat) (fuel : Nat) (heap : Heap) :
    EStateM.Result Stop Evaluation.State Value :=
  Evaluation.evaluate ⟨document.root.preorder, document.annotations, entry⟩ fuel document.root
    ⟨fun _ => none, heap⟩

end ScriptVM
