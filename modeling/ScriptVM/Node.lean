import ScriptVM.Source.Span

/-!
Syntax trees.

A tree carries a tag at every node: an identity and a span, or a span alone where the identity does
not matter, and `Node Unit` is the bare tree. Everything that walks a tree does so by structural
recursion on it.
-/
namespace ScriptVM

/-- What is known of each node besides its kind. -/
structure Tag where
  id : Nat
  span : Span
deriving DecidableEq, Repr, Inhabited

/-- Nodes without children, other than parameters. Literals keep their text. -/
inductive Leaf where
  | int (text : String)
  | real (text : String)
  | bool (text : String)
  | valueId (name : String)
  | typeId (name : String)
  | symbolId (name : String)
  | unit
  /-- What is left of a statement that was merged into another one. -/
  | noop
deriving DecidableEq, Repr, Inhabited

/-- Whether a variable is given its value once or any number of times. -/
inductive Mutability where
  | val
  | var
deriving DecidableEq, Repr

/-- The two kinds of literal that group values. -/
inductive Aggregate where
  | tuple
  | list
deriving DecidableEq, Repr

/-- A syntax tree with a tag at every node. -/
inductive Node (α : Type) where
  | leaf (tag : α) (leaf : Leaf)
  | param (tag : α) (name : String) (type : Option String)
  | program (tag : α) (name : String) (body : List (Node α))
  | block (tag : α) (body : List (Node α))
  | define (tag : α) (name : String) (params : List (Node α)) (body : Node α)
      (result : Option String)
  | declare (tag : α) (mutability : Mutability) (name : String) (type : Option String)
      (value : Node α)
  | assign (tag : α) (name : String) (value : Node α)
  /-- The last part is a unit leaf when there is nothing to do otherwise. -/
  | branch (tag : α) (pred yes no : Node α)
  /-- The other half of a branch, standing as a statement of its own. -/
  | orElse (tag : α) (body : Node α)
  | loop (tag : α) (pred body : Node α)
  | binary (tag : α) (op : String) (left right : Node α)
  | call (tag : α) (callee : Node α) (args : List (Node α)) (trailing : Option (Node α))
  | aggregate (tag : α) (kind : Aggregate) (elements : List (Node α))
deriving Repr

namespace Node

variable {α β : Type}

instance [Inhabited α] : Inhabited (Node α) := ⟨.leaf default .unit⟩

/-- The tag of the node itself. -/
def tag : Node α → α
  | leaf tag _ | param tag _ _ | program tag _ _ | block tag _ | define tag _ _ _ _
  | declare tag _ _ _ _ | assign tag _ _ | branch tag _ _ _ | orElse tag _ | loop tag _ _
  | binary tag _ _ _ | call tag _ _ _ | aggregate tag _ _ => tag

/-- The name of a node's kind in diagnostics. -/
def kindName : Node α → String
  | leaf _ (.int _) => "Int"
  | leaf _ (.real _) => "Real"
  | leaf _ (.bool _) => "Bool"
  | leaf _ (.valueId _) => "ValueId"
  | leaf _ (.typeId _) => "TypeId"
  | leaf _ (.symbolId _) => "SymbolId"
  | leaf _ .unit => "Unit"
  | leaf _ .noop => "NoOp"
  | param .. => "Param"
  | program .. => "Module"
  | block .. => "Block"
  | define .. => "Def"
  | declare _ .val .. => "Val"
  | declare _ .var .. => "Var"
  | assign .. => "Assign"
  | branch .. => "If"
  | orElse .. => "Else"
  | loop .. => "While"
  | binary .. => "BinOp"
  | call .. => "Call"
  | aggregate _ .tuple _ => "Tuple"
  | aggregate _ .list _ => "List"

/-- Whether the node is a unit leaf. -/
def isUnit : Node α → Bool
  | leaf _ .unit => true
  | _ => false

/-- Whether the node is the rest of a merged statement. -/
def isNoop : Node α → Bool
  | leaf _ .noop => true
  | _ => false

/-- The direct children, in source order. -/
def children : Node α → List (Node α)
  | leaf .. | param .. => []
  | program _ _ body | block _ body => body
  | define _ _ params body _ => params ++ [body]
  | declare _ _ _ _ value | assign _ _ value => [value]
  | branch _ pred yes no => [pred, yes, no]
  | orElse _ body => [body]
  | loop _ pred body => [pred, body]
  | binary _ _ left right => [left, right]
  | call _ callee args trailing => callee :: args ++ trailing.toList
  | aggregate _ _ elements => elements

mutual

/-- The number of nodes. -/
def size : Node α → Nat
  | leaf .. | param .. => 1
  | program _ _ body | block _ body => 1 + sizeAll body
  | define _ _ params body _ => 1 + sizeAll params + body.size
  | declare _ _ _ _ value | assign _ _ value => 1 + value.size
  | branch _ pred yes no => 1 + pred.size + yes.size + no.size
  | orElse _ body => 1 + body.size
  | loop _ pred body => 1 + pred.size + body.size
  | binary _ _ left right => 1 + left.size + right.size
  | call _ callee args none => 1 + callee.size + sizeAll args
  | call _ callee args (some trailing) => 1 + callee.size + sizeAll args + trailing.size
  | aggregate _ _ elements => 1 + sizeAll elements

/-- The number of nodes in a list of trees. -/
def sizeAll : List (Node α) → Nat
  | [] => 0
  | node :: rest => node.size + sizeAll rest

end

mutual

/-- Every node below and including this one, parents before children, children in source order. -/
def preorder : Node α → List (Node α)
  | node@(leaf ..) | node@(param ..) => [node]
  | node@(program _ _ body) | node@(block _ body) => node :: preorderAll body
  | node@(define _ _ params body _) => node :: (preorderAll params ++ body.preorder)
  | node@(declare _ _ _ _ value) | node@(assign _ _ value) => node :: value.preorder
  | node@(branch _ pred yes no) => node :: (pred.preorder ++ yes.preorder ++ no.preorder)
  | node@(orElse _ body) => node :: body.preorder
  | node@(loop _ pred body) => node :: (pred.preorder ++ body.preorder)
  | node@(binary _ _ left right) => node :: (left.preorder ++ right.preorder)
  | node@(call _ callee args none) => node :: (callee.preorder ++ preorderAll args)
  | node@(call _ callee args (some trailing)) =>
    node :: (callee.preorder ++ preorderAll args ++ trailing.preorder)
  | node@(aggregate _ _ elements) => node :: preorderAll elements

/-- The nodes of several trees, one tree after the other. -/
def preorderAll : List (Node α) → List (Node α)
  | [] => []
  | node :: rest => node.preorder ++ preorderAll rest

end

mutual

/-- Each node's distance from a root at `depth`, in the order of `preorder`. -/
def depths (depth : Nat) : Node α → List Nat
  | leaf .. | param .. => [depth]
  | program _ _ body | block _ body => depth :: depthsAll (depth + 1) body
  | define _ _ params body _ =>
    depth :: (depthsAll (depth + 1) params ++ body.depths (depth + 1))
  | declare _ _ _ _ value | assign _ _ value => depth :: value.depths (depth + 1)
  | branch _ pred yes no =>
    depth :: (pred.depths (depth + 1) ++ yes.depths (depth + 1) ++ no.depths (depth + 1))
  | orElse _ body => depth :: body.depths (depth + 1)
  | loop _ pred body => depth :: (pred.depths (depth + 1) ++ body.depths (depth + 1))
  | binary _ _ left right => depth :: (left.depths (depth + 1) ++ right.depths (depth + 1))
  | call _ callee args none =>
    depth :: (callee.depths (depth + 1) ++ depthsAll (depth + 1) args)
  | call _ callee args (some trailing) =>
    depth ::
      (callee.depths (depth + 1) ++ depthsAll (depth + 1) args ++ trailing.depths (depth + 1))
  | aggregate _ _ elements => depth :: depthsAll (depth + 1) elements

/-- The distances of the nodes of several trees. -/
def depthsAll (depth : Nat) : List (Node α) → List Nat
  | [] => []
  | node :: rest => node.depths depth ++ depthsAll depth rest

end

mutual

/-- The same tree with other tags. -/
def map (f : α → β) : Node α → Node β
  | leaf tag kind => leaf (f tag) kind
  | param tag name type => param (f tag) name type
  | program tag name body => program (f tag) name (mapAll f body)
  | block tag body => block (f tag) (mapAll f body)
  | define tag name params body result =>
    define (f tag) name (mapAll f params) (body.map f) result
  | declare tag mutability name type value =>
    declare (f tag) mutability name type (value.map f)
  | assign tag name value => assign (f tag) name (value.map f)
  | branch tag pred yes no => branch (f tag) (pred.map f) (yes.map f) (no.map f)
  | orElse tag body => orElse (f tag) (body.map f)
  | loop tag pred body => loop (f tag) (pred.map f) (body.map f)
  | binary tag op left right => binary (f tag) op (left.map f) (right.map f)
  | call tag callee args none => call (f tag) (callee.map f) (mapAll f args) none
  | call tag callee args (some trailing) =>
    call (f tag) (callee.map f) (mapAll f args) (some (trailing.map f))
  | aggregate tag kind elements => aggregate (f tag) kind (mapAll f elements)

/-- The same trees with other tags. -/
def mapAll (f : α → β) : List (Node α) → List (Node β)
  | [] => []
  | node :: rest => node.map f :: mapAll f rest

end

/-- A name with its declared type, if it has one. -/
def renderTyped (name : String) : Option String → String
  | some type => name ++ ":" ++ type
  | none => name

/-- The text of a leaf in the parenthesised form. -/
def renderLeaf : Leaf → String
  | .int text | .real text | .bool text => text
  | .valueId name | .typeId name | .symbolId name => name
  | .unit => "()"
  | .noop => "noop"

mutual

/-- The tree as one parenthesised line. -/
def render : Node α → String
  | leaf _ kind => renderLeaf kind
  | param _ name type => renderTyped name type
  | program _ name body => "(module " ++ name ++ renderEach body ++ ")"
  | block _ body => "(block" ++ renderEach body ++ ")"
  | define _ name params body result =>
    "(def " ++ name ++ " (" ++ renderParams params ++ ")" ++
      (match result with
       | some type => " " ++ type
       | none => "") ++
      " " ++ body.render ++ ")"
  | declare _ mutability name type value =>
    (match mutability with
     | .val => "(val "
     | .var => "(var ") ++ renderTyped name type ++ " " ++ value.render ++ ")"
  | assign _ name value => "(= " ++ name ++ " " ++ value.render ++ ")"
  | branch _ pred yes no =>
    "(if " ++ pred.render ++ " " ++ yes.render ++ " " ++ no.render ++ ")"
  | orElse _ body => "(else " ++ body.render ++ ")"
  | loop _ pred body => "(while " ++ pred.render ++ " " ++ body.render ++ ")"
  | binary _ op left right => "(" ++ op ++ " " ++ left.render ++ " " ++ right.render ++ ")"
  | call _ callee args none => "(call " ++ callee.render ++ renderEach args ++ ")"
  | call _ callee args (some trailing) =>
    "(call " ++ callee.render ++ renderEach args ++ " &" ++ trailing.render ++ ")"
  | aggregate _ .tuple elements => "(tuple" ++ renderEach elements ++ ")"
  | aggregate _ .list elements => "(list" ++ renderEach elements ++ ")"

/-- Each tree with a space before it. -/
def renderEach : List (Node α) → String
  | [] => ""
  | node :: rest => " " ++ node.render ++ renderEach rest

/-- The trees with spaces between them. -/
def renderParams : List (Node α) → String
  | [] => ""
  | node :: rest => node.render ++ renderEach rest

end

end Node

end ScriptVM
