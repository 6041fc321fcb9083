import ScriptVM.Document.Error

/-!
The passes that change the tree of a document: joining alternatives, and making a function of a
program.

An alternative that was written as a statement of its own is the other half of a branch. It belongs
to the nearest statement before it that is not the rest of a merged one, if that is a branch whose
chain of alternatives is still open. Its body then closes the chain and a `noop` keeps its place, so
statement lists keep their length. With nothing to attach to it stays.

The statements of a program are made a function, so that they are lowered like any function body.
-/
namespace ScriptVM

namespace Alternatives

/-- Closes an open chain of alternatives with a last one. -/
def close (body : Node Tag) : Node Tag → Option (Node Tag)
  | .branch tag pred yes (.leaf _ .unit) => some (.branch tag pred yes body)
  | .branch tag pred yes (.branch tag' pred' yes' no') =>
    (close body (.branch tag' pred' yes' no')).map (.branch tag pred yes ·)
  | _ => none

/-- Closes the chain of the nearest statement that is not a `noop`. The statements stand latest
first. -/
def closeNearest (body : Node Tag) : List (Node Tag) → Option (List (Node Tag))
  | [] => none
  | node :: before =>
    if node.isNoop then (closeNearest body before).map (node :: ·)
    else (close body node).map (· :: before)

/-- Attaches what can be attached, from left to right, after statements that stand latest first. -/
def joinAfter (before : List (Node Tag)) : List (Node Tag) → StateM Nat (List (Node Tag))
  | [] => return before.reverse
  | .orElse tag body :: rest =>
    match closeNearest body before with
    | some closed => do
      let id ← get
      set (id + 1)
      joinAfter (.leaf ⟨id, tag.span⟩ .noop :: closed) rest
    | none => joinAfter (.orElse tag body :: before) rest
  | node :: rest => joinAfter (node :: before) rest

mutual

/-- Attaches what can be attached in every statement list of a tree. -/
def join : Node Tag → StateM Nat (Node Tag)
  | .leaf tag kind => return .leaf tag kind
  | .param tag name type => return .param tag name type
  | .program tag name body => return .program tag name (← joinAfter [] (← joinAll body))
  | .block tag body => return .block tag (← joinAfter [] (← joinAll body))
  | .define tag name params body result =>
    return .define tag name (← joinAll params) (← join body) result
  | .declare tag mutability name type value =>
    return .declare tag mutability name type (← join value)
  | .assign tag name value => return .assign tag name (← join value)
  | .branch tag pred yes no => return .branch tag (← join pred) (← join yes) (← join no)
  | .orElse tag body => return .orElse tag (← join body)
  | .loop tag pred body => return .loop tag (← join pred) (← join body)
  | .binary tag op left right => return .binary tag op (← join left) (← join right)
  | .call tag callee args none => return .call tag (← join callee) (← joinAll args) none
  | .call tag callee args (some trailing) =>
    return .call tag (← join callee) (← joinAll args) (some (← join trailing))
  | .aggregate tag kind elements => return .aggregate tag kind (← joinAll elements)

/-- The same for several trees. -/
def joinAll : List (Node Tag) → StateM Nat (List (Node Tag))
  | [] => return []
  | node :: rest => return (← join node) :: (← joinAll rest)

end

end Alternatives

/-- Attaches every alternative that stands as a statement of its own and has a branch to go to. -/
def Document.joinAlternatives (document : Document) : Document :=
  let (root, next) := (Alternatives.join document.root).run document.next
  { document with root, next }

/-- Moves the statements of a program into a function of its name without parameters, and leaves
that function and one call of it as the program. -/
def Document.wrapProgram (document : Document) : Except PassError Document :=
  match document.root with
  | .program tag name body =>
    let fresh (offset : Nat) : Tag := ⟨document.next + offset, tag.span⟩
    let function := Node.define (fresh 1) name [] (.block (fresh 0) body) none
    let start := Node.call (fresh 3) (.leaf (fresh 2) (.valueId name)) [] none
    .ok { document with root := .program tag name [function, start], next := document.next + 4 }
  | root => .error (.shape (.rootNotModule root.kindName) root.span)

end ScriptVM
