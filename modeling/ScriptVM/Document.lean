import Std.Data.TreeMap
import ScriptVM.Node.Parser
import ScriptVM.Notes

/-!
Documents: a syntax tree whose nodes have identities, the notes written about them, and the scopes
opened over them.
-/
namespace ScriptVM

namespace Node

mutual

/-- The tree with its nodes numbered from `next` in preorder. -/
def number (next : Nat) : Node Span → Node Tag
  | leaf span kind => leaf ⟨next, span⟩ kind
  | param span name type => param ⟨next, span⟩ name type
  | program span name body => program ⟨next, span⟩ name (numberAll (next + 1) body)
  | block span body => block ⟨next, span⟩ (numberAll (next + 1) body)
  | define span name params body result =>
    define ⟨next, span⟩ name (numberAll (next + 1) params)
      (body.number (next + 1 + sizeAll params)) result
  | declare span mutability name type value =>
    declare ⟨next, span⟩ mutability name type (value.number (next + 1))
  | assign span name value => assign ⟨next, span⟩ name (value.number (next + 1))
  | branch span pred yes no =>
    branch ⟨next, span⟩ (pred.number (next + 1)) (yes.number (next + 1 + pred.size))
      (no.number (next + 1 + pred.size + yes.size))
  | orElse span body => orElse ⟨next, span⟩ (body.number (next + 1))
  | loop span pred body =>
    loop ⟨next, span⟩ (pred.number (next + 1)) (body.number (next + 1 + pred.size))
  | binary span op left right =>
    binary ⟨next, span⟩ op (left.number (next + 1)) (right.number (next + 1 + left.size))
  | call span callee args none =>
    call ⟨next, span⟩ (callee.number (next + 1)) (numberAll (next + 1 + callee.size) args) none
  | call span callee args (some trailing) =>
    call ⟨next, span⟩ (callee.number (next + 1)) (numberAll (next + 1 + callee.size) args)
      (some (trailing.number (next + 1 + callee.size + sizeAll args)))
  | aggregate span kind elements =>
    aggregate ⟨next, span⟩ kind (numberAll (next + 1) elements)

/-- The trees with their nodes numbered from `next`, one tree after the other. -/
def numberAll (next : Nat) : List (Node Span) → List (Node Tag)
  | [] => []
  | node :: rest => node.number next :: numberAll (next + node.size) rest

end

/-- The identity of a node. -/
def id (node : Node Tag) : Nat :=
  node.tag.id

/-- The span of a node. -/
def span (node : Node Tag) : Span :=
  node.tag.span

end Node

/-- The notes of every node. -/
structure Annotations where
  entries : Std.TreeMap Nat Notes := {}

namespace Annotations

instance : Inhabited Annotations := ⟨{}⟩

/-- The notes of a node. -/
def get (annotations : Annotations) (node : Nat) : Notes :=
  annotations.entries.getD node {}

/-- Replaces the notes of a node. -/
def replace (annotations : Annotations) (node : Nat) (notes : Notes) : Annotations :=
  ⟨annotations.entries.insert node notes⟩

/-- Writes a note of a kind that the node does not have yet. -/
def set (annotations : Annotations) (node : Nat) (note : Note) : Except NoteError Annotations :=
  match (annotations.get node).set note with
  | .ok notes => .ok (annotations.replace node notes)
  | .error e => .error e

theorem get_replace (annotations : Annotations) (node other : Nat) (notes : Notes) :
    (annotations.replace node notes).get other =
      if node = other then notes else annotations.get other := by
  simp [get, replace, Std.TreeMap.getD_insert]

end Annotations

/-- A syntax tree with everything known about it. -/
structure Document where
  root : Node Tag
  /-- More than every identity in use. -/
  next : Nat
  scopes : Scopes
  annotations : Annotations

namespace Document

/-- The document of a source text. A module that does not say its name takes `anonymous`. -/
def parse (anonymous source : String) : Except ParseError Document :=
  (Node.parseNumbered anonymous source).map fun (root, next) =>
    { root, next, scopes := {}, annotations := {} }

/-- The document of a tree that was made by hand, with its nodes numbered in preorder. -/
def ofTree (tree : Node Span) : Document where
  root := tree.number 0
  next := tree.size
  scopes := {}
  annotations := {}

/-- The notes of a node. -/
def notes (document : Document) (node : Node Tag) : Notes :=
  document.annotations.get node.id

end Document

end ScriptVM
