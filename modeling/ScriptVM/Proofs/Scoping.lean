import ScriptVM.Proofs.Trees

/-!
Which declarations a function has, and which of them have been reached at a node.

A function owns the parameters and variables in it that stand in no function inside it. Statements
are executed in order, so a variable is known from the statement after its declaration to the end of
the statement list. `InScope` says of a node that whichever variables of its function it uses are
known where they are used.
-/
namespace ScriptVM

/-- The declarations that have slots, in slot order. -/
def Locals.ids (locals : Locals) : List Nat :=
  locals.slots.map Prod.snd

theorem Locals.length_ids (locals : Locals) : locals.ids.length = locals.size := by
  simp [ids, size]

theorem Locals.containsNode_iff {locals : Locals} {id : Nat} :
    locals.containsNode id = true ↔ id ∈ locals.ids := by
  simp [containsNode, ids]

namespace Scoping

mutual

/-- The parameters and variables that a node declares in the function it stands in, in the order
they are met. -/
def declared : Node Tag → List Nat
  | .leaf .. | .define .. => []
  | .param tag _ _ => [tag.id]
  | .program _ _ body | .block _ body => declaredAll body
  | .declare tag _ _ _ value => tag.id :: declared value
  | .assign _ _ value => declared value
  | .branch _ pred yes no => declared pred ++ declared yes ++ declared no
  | .orElse _ body => declared body
  | .loop _ pred body => declared pred ++ declared body
  | .binary _ _ left right => declared left ++ declared right
  | .call _ callee args none => declared callee ++ declaredAll args
  | .call _ callee args (some trailing) =>
    declared callee ++ declaredAll args ++ declared trailing
  | .aggregate _ _ elements => declaredAll elements

/-- The same for several nodes. -/
def declaredAll : List (Node Tag) → List Nat
  | [] => []
  | node :: rest => declared node ++ declaredAll rest

end

/-- The variable that is known after a statement. -/
def introduced : Node Tag → List Nat
  | .declare tag _ _ _ _ => [tag.id]
  | _ => []

section

variable (binding : Nat → Option Nat) (own : List Nat)

/-- If a use refers to a variable of its own function, that variable is known. -/
def Bound (known : List Nat) (use : Nat) : Prop :=
  ∀ declaration, binding use = some declaration → declaration ∈ own → declaration ∈ known

mutual

/-- Every use of a variable of the function itself comes after its declaration. -/
def InScope (known : List Nat) : Node Tag → Prop
  | .leaf tag (.valueId _) => Bound binding own known tag.id
  | .leaf .. | .param .. | .define .. => True
  | .program _ _ body | .block _ body => InScopeStatements known body
  | .declare _ _ _ _ value => InScope known value
  | .assign tag _ value => Bound binding own known tag.id ∧ InScope known value
  | .branch _ pred yes no => InScope known pred ∧ InScope known yes ∧ InScope known no
  | .orElse _ body => InScope known body
  | .loop _ pred body => InScope known pred ∧ InScope known body
  | .binary _ _ left right => InScope known left ∧ InScope known right
  | .call _ callee args none => InScope known callee ∧ InScopeAll known args
  | .call _ callee args (some trailing) =>
    InScope known callee ∧ InScopeAll known args ∧ InScope known trailing
  | .aggregate _ _ elements => InScopeAll known elements

/-- The same for several nodes, none of which makes a variable known to the others. -/
def InScopeAll (known : List Nat) : List (Node Tag) → Prop
  | [] => True
  | node :: rest => InScope known node ∧ InScopeAll known rest

/-- The same for statements, each of which makes its variable known to those after it. -/
def InScopeStatements (known : List Nat) : List (Node Tag) → Prop
  | [] => True
  | node :: rest => InScope known node ∧ InScopeStatements (introduced node ++ known) rest

end

end

theorem mem_declaredAll {id : Nat} {nodes : List (Node Tag)} :
    id ∈ declaredAll nodes ↔ ∃ node ∈ nodes, id ∈ declared node := by
  induction nodes with
  | nil => simp [declaredAll]
  | cons node rest ih => simp [declaredAll, ih]

theorem declaredAll_append (first second : List (Node Tag)) :
    declaredAll (first ++ second) = declaredAll first ++ declaredAll second := by
  induction first with
  | nil => rfl
  | cons node rest ih => simp only [List.cons_append, declaredAll, ih, List.append_assoc]

/-- Whether a node is a function. -/
def isFunction : Node Tag → Bool
  | .define .. => true
  | _ => false

/-- The variable that a node itself is. -/
def itself : Node Tag → List Nat
  | .param tag _ _ | .declare tag _ _ _ _ => [tag.id]
  | _ => []

/-- A node declares itself and what its children declare, unless it is a function. -/
theorem declared_eq {node : Node Tag} (plain : isFunction node = false) :
    declared node = itself node ++ declaredAll node.children := by
  cases node with
  | define => cases plain
  | call tag callee args trailing =>
    cases trailing <;>
      simp [declared, itself, Node.children, declaredAll, declaredAll_append, List.append_assoc]
  | _ => simp [declared, itself, Node.children, declaredAll]

/-- A child declares in the function of its parent, unless the parent is a function itself. -/
theorem declared_subset_of_child {node child : Node Tag} (member : child ∈ node.children)
    (plain : isFunction node = false) : declared child ⊆ declared node := by
  intro id inside
  rw [declared_eq plain, List.mem_append]
  exact .inr (mem_declaredAll.mpr ⟨child, member, inside⟩)

/-- What a node declares are variables among its nodes. -/
theorem mem_declared {id : Nat} {node : Node Tag} (member : id ∈ declared node) :
    ∃ inner ∈ node.preorder, id ∈ itself inner := by
  induction node using Node.childInduction with
  | step node ih =>
    cases plain : isFunction node with
    | true =>
      cases node with
      | define => cases member
      | _ => cases plain
    | false =>
      rw [declared_eq plain, List.mem_append] at member
      rcases member with isItself | below
      · exact ⟨node, Node.self_mem_preorder node, isItself⟩
      · obtain ⟨child, isChild, inChild⟩ := mem_declaredAll.mp below
        obtain ⟨inner, inside, isItself⟩ := ih child isChild inChild
        exact ⟨inner, Node.preorder_subset_of_child isChild inside, isItself⟩

theorem id_of_itself {id : Nat} {node : Node Tag} (isItself : id ∈ itself node) :
    node.id = id ∧ isFunction node = false := by
  cases node with
  | param | declare => exact ⟨(List.mem_singleton.mp isItself).symm, rfl⟩
  | _ => cases isItself

theorem inScopeAll_iff {binding : Nat → Option Nat} {own known : List Nat}
    {nodes : List (Node Tag)} :
    InScopeAll binding own known nodes ↔ ∀ node ∈ nodes, InScope binding own known node := by
  induction nodes with
  | nil => simp [InScopeAll]
  | cons node rest ih => simp [InScopeAll, ih]

end Scoping

end ScriptVM
