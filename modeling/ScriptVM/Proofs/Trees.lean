import ScriptVM.Document

/-!
Trees by their children: the preorder of a node is the node and then those of its children, children
are smaller, and what holds of a node whenever it holds of its children holds of every node. How often
an identity occurs in a tree is counted, and so are the numbers that a counter gives out.
-/
namespace ScriptVM.Node

variable {α : Type}

theorem preorderAll_append (first second : List (Node α)) :
    preorderAll (first ++ second) = preorderAll first ++ preorderAll second := by
  induction first with
  | nil => rfl
  | cons node rest ih => simp only [List.cons_append, preorderAll, ih, List.append_assoc]

theorem sizeAll_append (first second : List (Node α)) :
    sizeAll (first ++ second) = sizeAll first + sizeAll second := by
  induction first with
  | nil => simp [sizeAll]
  | cons node rest ih =>
    simp only [List.cons_append, sizeAll, ih]
    omega

theorem preorder_eq (node : Node α) : node.preorder = node :: preorderAll node.children := by
  cases node with
  | call tag callee args trailing =>
    cases trailing <;>
      simp [preorder, children, preorderAll, preorderAll_append, List.append_assoc]
  | _ => simp [preorder, children, preorderAll, preorderAll_append, List.append_assoc]

theorem size_eq (node : Node α) : node.size = 1 + sizeAll node.children := by
  cases node with
  | call tag callee args trailing =>
    cases trailing <;> simp [size, children, sizeAll, sizeAll_append] <;> omega
  | _ =>
    simp [size, children, sizeAll, sizeAll_append]
    try omega

theorem size_le_sizeAll {node : Node α} {nodes : List (Node α)} (member : node ∈ nodes) :
    node.size ≤ sizeAll nodes := by
  induction nodes with
  | nil => cases member
  | cons first rest ih =>
    simp only [sizeAll]
    rcases List.mem_cons.mp member with rfl | inRest
    · omega
    · have := ih inRest
      omega

/-- What passes from the children of a node to the node holds of every node. -/
theorem childInduction {motive : Node α → Prop}
    (step : ∀ node, (∀ child ∈ node.children, motive child) → motive node) :
    ∀ node, motive node := by
  intro node
  induction bound : node.size using Nat.strongRecOn generalizing node with
  | ind size ih =>
    apply step
    intro child member
    have smaller : child.size < size := by
      have := size_le_sizeAll member
      have := size_eq node
      omega
    exact ih child.size smaller child rfl

theorem mem_preorderAll {node : Node α} {nodes : List (Node α)} :
    node ∈ preorderAll nodes ↔ ∃ top ∈ nodes, node ∈ top.preorder := by
  induction nodes with
  | nil => simp [preorderAll]
  | cons first rest ih => simp [preorderAll, ih]

theorem self_mem_preorder (node : Node α) : node ∈ node.preorder := by
  simp [preorder_eq]

theorem mem_preorder {inner node : Node α} :
    inner ∈ node.preorder ↔ inner = node ∨ ∃ child ∈ node.children, inner ∈ child.preorder := by
  rw [preorder_eq, List.mem_cons, mem_preorderAll]

theorem preorder_subset_of_child {child node : Node α} (member : child ∈ node.children) :
    child.preorder ⊆ node.preorder :=
  fun _ inside => mem_preorder.mpr (.inr ⟨child, member, inside⟩)

theorem preorder_subset {inner node : Node α} (inside : inner ∈ node.preorder) :
    inner.preorder ⊆ node.preorder := by
  induction node using childInduction with
  | step node ih =>
    rcases mem_preorder.mp inside with rfl | ⟨child, member, inChild⟩
    · exact fun _ h => h
    · exact fun _ h => preorder_subset_of_child member (ih child member inChild h)

/-- The rest of a merged statement is a leaf. -/
theorem eq_leaf_of_isNoop {node : Node α} (noop : node.isNoop = true) :
    ∃ tag, node = .leaf tag .noop := by
  cases node with
  | leaf tag kind =>
    cases kind with
    | noop => exact ⟨tag, rfl⟩
    | _ => cases noop
  | _ => cases noop

/-- Where identities are all different, a node is known by its identity. -/
theorem eq_of_id {nodes : List (Node Tag)} (distinct : (nodes.map id).Nodup) {one two : Node Tag}
    (isOne : one ∈ nodes) (isTwo : two ∈ nodes) (same : one.id = two.id) : one = two := by
  induction nodes with
  | nil => cases isOne
  | cons node rest ih =>
    simp only [List.map_cons, List.nodup_cons] at distinct
    rcases List.mem_cons.mp isOne with rfl | oneInRest
    · rcases List.mem_cons.mp isTwo with rfl | twoInRest
      · rfl
      · exact absurd (same ▸ List.mem_map_of_mem twoInRest) distinct.1
    · rcases List.mem_cons.mp isTwo with rfl | twoInRest
      · exact absurd (same ▸ List.mem_map_of_mem oneInRest) distinct.1
      · exact ih distinct.2 oneInRest twoInRest

/-- A node that is found by an identity has it. -/
theorem of_find?_id {nodes : List (Node Tag)} {node : Node Tag} {id : Nat}
    (found : (nodes.find? fun node => node.id == id) = some node) :
    node ∈ nodes ∧ node.id = id := by
  have same := List.find?_some found
  rw [beq_iff_eq] at same
  exact ⟨List.mem_of_find?_eq_some found, same⟩

end ScriptVM.Node

namespace ScriptVM

open Node (preorderAll)

section Counting

/-- How often a number was given out between two states of the counter. -/
def taken (first last n : Nat) : Nat :=
  if first ≤ n ∧ n < last then 1 else 0

theorem taken_add {first middle last : Nat} (le : first ≤ middle) (le' : middle ≤ last) (n : Nat) :
    taken first last n = taken first middle n + taken middle last n := by
  unfold taken
  split <;> split <;> split <;> omega

theorem taken_le_one (first last n : Nat) : taken first last n ≤ 1 := by
  unfold taken
  split <;> omega

theorem taken_one (first n : Nat) : taken first (first + 1) n = if first = n then 1 else 0 := by
  unfold taken
  split <;> split <;> omega

/-- How often an identity occurs below some nodes. -/
def idCount (id : Nat) (nodes : List (Node Tag)) : Nat :=
  ((preorderAll nodes).map Node.id).count id

@[simp] theorem idCount_nil (id : Nat) : idCount id [] = 0 := rfl

theorem idCount_append (id : Nat) (first second : List (Node Tag)) :
    idCount id (first ++ second) = idCount id first + idCount id second := by
  simp [idCount, Node.preorderAll_append]

theorem idCount_cons (id : Nat) (node : Node Tag) (rest : List (Node Tag)) :
    idCount id (node :: rest) = idCount id [node] + idCount id rest := by
  rw [← List.singleton_append, idCount_append]

/-- How often an identity is that of a node itself. -/
def idCountHere (id : Nat) (node : Node Tag) : Nat :=
  [node.id].count id

/-- A node is itself and what is below its children. -/
theorem idCount_node (id : Nat) (node : Node Tag) :
    idCount id [node] = idCountHere id node + idCount id node.children := by
  rw [idCount, preorderAll, preorderAll, List.append_nil, Node.preorder_eq, List.map_cons,
    ← List.singleton_append, List.count_append]
  rfl

theorem idCount_branch (id : Nat) (tag : Tag) (pred yes no : Node Tag) :
    idCount id [.branch tag pred yes no] =
      [tag.id].count id + idCount id [pred] + idCount id [yes] + idCount id [no] := by
  rw [idCount_node, Node.children, idCount_cons id pred, idCount_cons id yes]
  simp only [idCountHere, Node.id, Node.tag]
  omega

theorem idCount_reverse (id : Nat) (nodes : List (Node Tag)) :
    idCount id nodes.reverse = idCount id nodes := by
  induction nodes with
  | nil => rfl
  | cons node rest ih =>
    rw [List.reverse_cons, idCount_append, ih, idCount_cons id node rest, Nat.add_comm]

end Counting

end ScriptVM
