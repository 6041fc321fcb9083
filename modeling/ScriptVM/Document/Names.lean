import ScriptVM.Document.Error

/-!
Resolving names to declarations.

Programs, blocks and functions open a scope and are noted with it; every other node is noted with
the scope it stands in. A function's name belongs to the scope around it and its parameters to its
own. Functions and parameters are visible from where they stand, variables only after their value.

A name refers to the innermost declaration visible where it is used. A name without one is tried
again when all scopes are complete, and must then refer to a function: functions may be used before
they are written, values may not.
-/
namespace ScriptVM

namespace Names

/-- A use that had no declaration in sight: the node, the scope it stands in and the name. -/
structure Pending where
  use : Tag
  scope : Nat
  name : String
deriving DecidableEq, Repr

/-- What the walk has found so far. -/
structure State where
  scopes : Scopes
  annotations : Annotations
  /-- Uses to be tried again, the latest first. -/
  pending : List Pending

/-- A step of the walk. -/
abbrev Walk (α : Type) : Type := StateT State (Except PassError) α

/-- Writes a note. -/
def note (id : Nat) (value : Note) : Walk Unit := do
  let state ← get
  let annotations ← state.annotations.write id value
  set { state with annotations }

/-- Opens a scope for a node. -/
def openScope (current : Option Nat) (tag : Tag) : Walk Nat := do
  let state ← get
  let (scope, scopes) := state.scopes.create current
  set { state with scopes }
  note tag.id (.scope scope)
  return scope

/-- Notes the scope that a node stands in. -/
def enter (current : Option Nat) (node : Node Tag) : Walk Nat := do
  match current with
  | some scope =>
    note node.id (.scope scope)
    return scope
  | none => throw (.shape (.outsideModule node.kindName) node.span)

/-- Declares a name. -/
def declare (scope : Nat) (name : String) (tag : Tag) : Walk Unit := do
  let state ← get
  match state.scopes.declare scope name tag.id tag.span with
  | .ok scopes => set { state with scopes }
  | .error e => throw (.name e)

/-- Refers a use to its declaration, or puts it off. -/
def refer (scope : Nat) (name : String) (tag : Tag) : Walk Unit := do
  let state ← get
  match state.scopes.resolve scope name with
  | some (_, declaration) => note tag.id (.binding declaration)
  | none => set { state with pending := ⟨tag, scope, name⟩ :: state.pending }

mutual

/-- Walks a tree that stands in the given scope, if in any. -/
def visit (current : Option Nat) : Node Tag → Walk Unit
  | .program tag _ body => do
    let scope ← openScope current tag
    visitAll (some scope) body
  | .block tag body => do
    let scope ← openScope current tag
    visitAll (some scope) body
  | .define tag name params body _ => do
    match current with
    | some outer => declare outer name tag
    | none => pure ()
    let scope ← openScope current tag
    visitAll (some scope) params
    visit (some scope) body
  | node@(.param tag name _) => do
    let scope ← enter current node
    declare scope name tag
  | node@(.declare tag _ name _ value) => do
    let scope ← enter current node
    visit current value
    declare scope name tag
  | node@(.assign tag name value) => do
    let scope ← enter current node
    refer scope name tag
    visit current value
  | node@(.leaf tag (.valueId name)) => do
    let scope ← enter current node
    refer scope name tag
  | node@(.leaf _ _) => do
    let _ ← enter current node
  | node@(.branch _ pred yes no) => do
    let _ ← enter current node
    visit current pred
    visit current yes
    visit current no
  | node@(.orElse _ body) => do
    let _ ← enter current node
    visit current body
  | node@(.loop _ pred body) => do
    let _ ← enter current node
    visit current pred
    visit current body
  | node@(.binary _ _ left right) => do
    let _ ← enter current node
    visit current left
    visit current right
  | node@(.call _ callee args none) => do
    let _ ← enter current node
    visit current callee
    visitAll current args
  | node@(.call _ callee args (some trailing)) => do
    let _ ← enter current node
    visit current callee
    visitAll current args
    visit current trailing
  | node@(.aggregate _ _ elements) => do
    let _ ← enter current node
    visitAll current elements

/-- Walks several trees in the same scope, from left to right. -/
def visitAll (current : Option Nat) : List (Node Tag) → Walk Unit
  | [] => pure ()
  | node :: rest => do
    visit current node
    visitAll current rest

end

attribute [simp] visit visitAll

@[simp] theorem visitAll_append (current : Option Nat) (first second : List (Node Tag)) :
    visitAll current (first ++ second) =
      (do visitAll current first; visitAll current second) := by
  induction first with
  | nil => simp
  | cons node rest ih => simp [ih]

/-- The identities of all functions of a tree. -/
def functions (root : Node Tag) : List Nat :=
  root.preorder.filterMap fun node =>
    match node with
    | .define tag _ _ _ _ => some tag.id
    | _ => none

/-- Refers a use that was put off to a function. -/
def settle (functions : List Nat) (use : Pending) : Walk Unit := do
  match (← get).scopes.lookup use.scope use.name use.use.span with
  | .error e => throw (.name e)
  | .ok declaration =>
    if functions.contains declaration then note use.use.id (.binding declaration)
    else throw (.name (.unresolved use.name use.use.span))

/-- The whole walk: the tree, then the uses that were put off, in the order they were met. -/
def resolveAll (root : Node Tag) : Walk Unit := do
  visit none root
  (← get).pending.reverse.forM (settle (functions root))

end Names

/-- Notes the scope of every node and the declaration of every use. -/
def Document.resolveNames (document : Document) : Except PassError Document := do
  let (_, state) ← (Names.resolveAll document.root).run ⟨document.scopes, document.annotations, []⟩
  return { document with scopes := state.scopes, annotations := state.annotations }

end ScriptVM
