import ScriptVM.Document.Error

/-!
Giving every node a type, bottom up, and checking it against the types that are written.

Parameters without a type, and whatever cannot be seen through, have type `any`. Before a function's
body is checked its signature is known, with `any` for a result that is not written, so that it may
call itself.
-/
namespace ScriptVM

namespace Typing

/-- What the walk has found so far. -/
structure State where
  annotations : Annotations
  /-- Types of functions whose bodies have been started, the latest first. -/
  signatures : List (Nat × Ty)

/-- A step of the walk. -/
abbrev Walk (α : Type) : Type := StateT State (Except PassError) α

/-- Refuses a node. -/
def refuse {α : Type} (cause : TypeError.Cause) (tag : Tag) : Walk α :=
  throw (.type cause tag.span)

/-- Notes a node's type. -/
def record (tag : Tag) (type : Ty) : Walk Ty := do
  let state ← get
  let annotations ← state.annotations.write tag.id (.type type)
  set { state with annotations }
  return type

/-- The type with a written name, if one is written. -/
def declared (tag : Tag) : Option String → Walk (Option Ty)
  | none => return none
  | some name =>
    match Ty.ofName? name with
    | some type => return some type
    | none => refuse (.unknownType name) tag

/-- The declaration that a use refers to. -/
def declarationOf (node : Node Tag) : Walk Nat := do
  match ((← get).annotations.get node.id).binding with
  | some declaration => return declaration
  | none => throw (.missing .binding node.kindName node.span)

/-- The type of a declaration as far as it is known. -/
def typeOf (declaration : Nat) : Walk Ty := do
  let state ← get
  match (state.annotations.get declaration).type with
  | some type => return type
  | none => return (state.signatures.lookup declaration).getD .any

/-- Makes a function's type known to its body. -/
def announce (id : Nat) (type : Ty) : Walk Unit :=
  modify fun state => { state with signatures := (id, type) :: state.signatures }

/-- Whether the operator is arithmetic on numbers. -/
def isArithmetic (op : String) : Bool :=
  ["+", "-", "*", "/", "%"].contains op

/-- Whether the operator compares the order of numbers. -/
def isOrder (op : String) : Bool :=
  ["<", "<=", ">", ">="].contains op

/-- Whether the operator compares for equality. -/
def isEquality (op : String) : Bool :=
  ["==", "!="].contains op

/-- The type of an operation, or why it has none. -/
def operation (op : String) (left right : Ty) : Except TypeError.Cause Ty :=
  if isArithmetic op || isOrder op then
    if left.isNumeric && right.isNumeric then
      if isOrder op then .ok .bool
      else
        match left, right with
        | .int, .int => .ok .int
        | .any, _ | _, .any => .ok .any
        | _, _ => .ok .real
    else .error (.operands op left right)
  else if isEquality op then
    if (left.isNumeric && right.isNumeric) || left.compatible right then .ok .bool
    else .error (.comparison left right)
  else .ok .any

/-- The first argument that its parameter does not accept. -/
def mismatch? : List Ty → List Ty → Option (Ty × Ty)
  | param :: params, arg :: args =>
    if param.compatible arg then mismatch? params args else some (param, arg)
  | _, _ => none

/-- The type of a call, or why it has none. -/
def application (callee : Ty) (args : List Ty) : Except TypeError.Cause Ty :=
  match callee with
  | .function params result =>
    if params.length = args.length then
      match mismatch? params args with
      | some (param, arg) => .error (.argument param arg)
      | none => .ok result
    else .error (.argumentCount params.length args.length)
  | .any => .ok .any
  | other => .error (.notCallable other)

/-- The type of a variable, or why it has none. Without an initialiser only the written type
counts. -/
def variableType (name : String) (initialised : Bool) (value : Ty) :
    Option Ty → Except TypeError.Cause Ty
  | some type =>
    if initialised && !type.compatible value then .error (.initialiser name type value)
    else .ok type
  | none => .ok (if initialised then value else .any)

/-- Refuses a node for a cause, or goes on. -/
def accept {α : Type} (tag : Tag) : Except TypeError.Cause α → Walk α
  | .ok a => return a
  | .error cause => refuse cause tag

/-- Refuses a predicate that is neither a truth value nor a number. -/
def checkPredicate (pred : Node Tag) (type : Ty) : Walk Unit :=
  if type.isNumeric || type = .bool then pure () else refuse (.condition type) pred.tag

mutual

/-- The type of a tree, after noting the types of all its nodes. -/
def visit : Node Tag → Walk Ty
  | .leaf tag (.int _) => record tag .int
  | .leaf tag (.real _) => record tag .real
  | .leaf tag (.bool _) => record tag .bool
  | node@(.leaf tag (.valueId _)) => do
    let declaration ← declarationOf node
    record tag (← typeOf declaration)
  | .leaf tag (.typeId _) | .leaf tag (.symbolId _) => record tag .any
  | .leaf tag .unit | .leaf tag .noop => record tag .unit
  | .param tag _ type => do
    record tag ((← declared tag type).getD .any)
  | .program tag _ body => do
    record tag (← visitStatements .unit body)
  | .block tag body => do
    record tag (← visitStatements .unit body)
  | .define tag name params body result => do
    let params ← visitAll params
    let result ← declared tag result
    announce tag.id (.function params (result.getD .any))
    let type ← visit body
    match result with
    | none => record tag (.function params type)
    | some result =>
      if result.compatible type then record tag (.function params result)
      else refuse (.result name result type) tag
  | .declare tag _ name type value => do
    let initialised := !value.isUnit
    let valueType ← visit value
    if initialised && valueType = .unit then refuse (.unitBinding name) tag
    else
      let type ← declared tag type
      record tag (← accept tag (variableType name initialised valueType type))
  | node@(.assign tag name value) => do
    let type ← visit value
    if type = .unit then refuse (.unitAssignment name) tag
    else
      let declaration ← declarationOf node
      let target ← typeOf declaration
      if target.compatible type then record tag type
      else refuse (.assignment name target type) tag
  | .branch tag pred yes no => do
    checkPredicate pred (← visit pred)
    let left ← visit yes
    let right ← visit no
    record tag (left.join right)
  | .orElse tag body => do
    record tag (← visit body)
  | .loop tag pred body => do
    checkPredicate pred (← visit pred)
    let _ ← visit body
    record tag .unit
  | .binary tag op left right => do
    let left ← visit left
    let right ← visit right
    record tag (← accept tag (operation op left right))
  | .call tag callee args none => do
    let callee ← visit callee
    let args ← visitAll args
    record tag (← accept tag (application callee args))
  | .call tag callee args (some trailing) => do
    let callee ← visit callee
    let args ← visitAll args
    let _ ← visit trailing
    record tag (← accept tag (application callee args))
  | .aggregate tag .tuple elements => do
    record tag (.tuple (← visitAll elements))
  | .aggregate tag .list elements => do
    record tag (.list (← visitElements tag none elements))

/-- The types of several trees, from left to right. -/
def visitAll : List (Node Tag) → Walk (List Ty)
  | [] => return []
  | node :: rest => do
    let type ← visit node
    return type :: (← visitAll rest)

/-- The type of the last statement that is not the rest of a merged one. -/
def visitStatements (last : Ty) : List (Node Tag) → Walk Ty
  | [] => return last
  | node :: rest => do
    let type ← visit node
    visitStatements (if node.isNoop then last else type) rest

/-- The type of the first element, with which all others must be compatible. -/
def visitElements (tag : Tag) (first : Option Ty) : List (Node Tag) → Walk Ty
  | [] => return first.getD .any
  | node :: rest => do
    let type ← visit node
    match first with
    | none => visitElements tag (some type) rest
    | some seen =>
      if seen.compatible type then visitElements tag first rest
      else refuse (.elements seen type) tag

end

attribute [simp] visit visitAll visitStatements visitElements

end Typing

/-- Notes the type of every node and gives that of the root. -/
def Document.inferTypes (document : Document) : Except PassError (Document × Ty) := do
  let (type, state) ← (Typing.visit document.root).run ⟨document.annotations, []⟩
  return ({ document with annotations := state.annotations }, type)

/-- Notes the type of every node. -/
def Document.checkTypes (document : Document) : Except PassError Document :=
  document.inferTypes.map Prod.fst

end ScriptVM
