import ScriptVM.Document.Error

/-!
Giving every parameter and variable a slot in the frame of its function.

A program and each function own a frame. Parameters come first, so that slot `i` is the `i`-th
argument; variables follow in source order, those of nested blocks included. A function inside a
function starts a frame of its own.
-/
namespace ScriptVM

namespace Frames

/-- A finished frame: its owner's kind and name, and its slots. -/
structure Frame where
  kind : String
  owner : String
  locals : Locals
deriving DecidableEq, Repr

/-- What the walk has found so far. -/
structure State where
  annotations : Annotations
  /-- The frame being filled. -/
  current : Option Locals
  /-- Finished frames, the latest first. -/
  finished : List Frame

/-- A step of the walk. -/
abbrev Walk (α : Type) : Type := StateT State (Except PassError) α

/-- Writes a note. -/
def note (id : Nat) (value : Note) : Walk Unit := do
  let state ← get
  let annotations ← state.annotations.write id value
  set { state with annotations }

/-- Gives a declaration the next slot. -/
def bind (node : Node Tag) (name : String) : Walk Unit := do
  let state ← get
  match (state.annotations.get node.id).scope with
  | none => throw (.missing .scope node.kindName node.span)
  | some scope =>
    match state.current with
    | none => throw (.shape (.outsideFunction name) node.span)
    | some locals =>
      set { state with current := some (locals.insert (qualify scope name) node.id) }
      note node.id (.index locals.size)

/-- Starts an empty frame and gives back the one it interrupts. -/
def start : Walk (Option Locals) := do
  let state ← get
  set { state with current := some {} }
  return state.current

/-- Finishes the current frame for its owner and resumes the one it interrupted. -/
def finish (node : Node Tag) (name : String) (outer : Option Locals) : Walk Unit := do
  let state ← get
  let locals := state.current.getD {}
  set { state with current := outer, finished := ⟨node.kindName, name, locals⟩ :: state.finished }
  note node.id (.locals locals)

mutual

/-- Walks a tree. -/
def visit : Node Tag → Walk Unit
  | .leaf _ _ => pure ()
  | node@(.param _ name _) => bind node name
  | node@(.program _ name body) => do
    let outer ← start
    visitAll body
    finish node name outer
  | .block _ body => visitAll body
  | node@(.define _ name params body _) => do
    let outer ← start
    visitAll params
    visit body
    finish node name outer
  | node@(.declare _ _ name _ value) => do
    bind node name
    visit value
  | .assign _ _ value => visit value
  | .branch _ pred yes no => do
    visit pred
    visit yes
    visit no
  | .orElse _ body => visit body
  | .loop _ pred body => do
    visit pred
    visit body
  | .binary _ _ left right => do
    visit left
    visit right
  | .call _ callee args none => do
    visit callee
    visitAll args
  | .call _ callee args (some trailing) => do
    visit callee
    visitAll args
    visit trailing
  | .aggregate _ _ elements => visitAll elements

/-- Walks several trees, from left to right. -/
def visitAll : List (Node Tag) → Walk Unit
  | [] => pure ()
  | node :: rest => do
    visit node
    visitAll rest

end

attribute [simp] visit visitAll

@[simp] theorem visitAll_append (first second : List (Node Tag)) :
    visitAll (first ++ second) = (do visitAll first; visitAll second) := by
  induction first with
  | nil => simp
  | cons node rest ih => simp [ih]

end Frames

/-- Notes the slot of every declaration and the frame of every owner, and lists the frames in the
order they were finished. -/
def Document.assignFrames (document : Document) :
    Except PassError (Document × List Frames.Frame) := do
  let (_, state) ← (Frames.visit document.root).run ⟨document.annotations, none, []⟩
  return ({ document with annotations := state.annotations }, state.finished.reverse)

/-- Notes the slot of every declaration and the frame of every owner. -/
def Document.assignSlots (document : Document) : Except PassError Document :=
  document.assignFrames.map Prod.fst

end ScriptVM
