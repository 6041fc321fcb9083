import ScriptVM.Proofs.Framed
import ScriptVM.Proofs.Labels

/-!
The grammar of lowered code.

A fragment is a piece of the code of one function, its owner: plain instructions, accesses to slots
of the owner, calls, and the four things that have labels of their own, which are the two halves of a
branch, a loop and a function inside. Whatever lowering makes of a node is a fragment of the function
that the node stands in, so a property of lowered code is proved by induction on fragments.
-/
namespace ScriptVM.Lowering

open Assembly (labelKey)
open Scoping (declared declaredAll)

/-- A declaration has this slot in the frame of an owner. -/
def HasSlot (annotations : Annotations) (owner declaration slot : Nat) : Prop :=
  ∃ locals, (annotations.get owner).locals = some locals ∧ declaration ∈ locals.ids ∧
    (annotations.get declaration).index = some slot

/-- An instruction that neither touches frames nor goes anywhere but to the next one. -/
def isPlain : Instruction → Bool
  | .loadConst .. | .loadPool .. | .loadAddress .. | .copy .. | .unset _ | .phi .. | .arith ..
  | .compare .. | .newChunk .. | .storeHeapAt .. => true
  | _ => false

/-- A label inside a function: it ends in more than a number. -/
def IsInner (label : String) : Prop :=
  (labelKey label).2 ≠ []

/-- The two halves of a branch, of which one is executed. -/
def halvesCode (test : Nat) (otherwise past : String) (first second : List Instruction) :
    List Instruction :=
  [.branchZero test (.label otherwise)] ++ first ++ [.jump (.label past), .label otherwise] ++
    second ++ [.label past]

/-- A loop, which goes on while the test does not fail. -/
def loopCode (test : Nat) (again past : String) (first second : List Instruction) :
    List Instruction :=
  [.label again] ++ first ++ [.branchZero test (.label past)] ++ second ++
    [.jump (.label again), .label past]

section Grammar

variable (nodes : List (Node Tag)) (annotations : Annotations)

/-- A piece of the code of a function. Beside the owner stand the variables whose declarations are
executed in it, each with the function it belongs to. -/
inductive Fragment : Nat → List (Nat × Nat) → List Instruction → Prop
  | nil (owner : Nat) : Fragment owner [] []
  | append {owner : Nat} {made made' : List (Nat × Nat)} {first second : List Instruction}
      (one : Fragment owner made first) (two : Fragment owner made' second) :
      Fragment owner (made ++ made') (first ++ second)
  | plain {instruction : Instruction} (owner : Nat) (isPlain : isPlain instruction = true) :
      Fragment owner [] [instruction]
  | load {owner declaration slot : Nat} (dst : Nat)
      (has : HasSlot annotations owner declaration slot) : Fragment owner [] [.loadSlot dst slot]
  | declare {owner : Nat} {tag : Tag} {mutability : Mutability} {name : String}
      {type : Option String} {value : Node Tag} {slot : Nat} (src : Nat)
      (isNode : .declare tag mutability name type value ∈ nodes)
      (has : HasSlot annotations owner tag.id slot) :
      Fragment owner [(owner, tag.id)] [.storeSlot src slot]
  | assign {owner : Nat} {tag : Tag} {name : String} {type : Option String} {value : Node Tag}
      {slot : Nat} (src : Nat) (isNode : .declare tag .var name type value ∈ nodes)
      (has : HasSlot annotations owner tag.id slot) : Fragment owner [] [.storeSlot src slot]
  | assignOnce {owner : Nat} {tag : Tag} {name : String} {type : Option String} {value : Node Tag}
      {slot : Nat} (src : Nat) (isNode : .declare tag .val name type value ∈ nodes)
      (isUnit : value.isUnit = true) (has : HasSlot annotations owner tag.id slot) :
      Fragment owner [] [.storeOnce src slot]
  | call {tag : Tag} {name : String} {params : List (Node Tag)} {body : Node Tag}
      {type : Option String} {entry : String} {regs : List Nat} (owner : Nat)
      (isNode : .define tag name params body type ∈ nodes)
      (address : (annotations.get tag.id).address = some entry)
      (count : params.length = regs.length) : Fragment owner [] [.call (.label entry) regs]
  | halves {owner : Nat} {made made' : List (Nat × Nat)} {first second : List Instruction}
      {otherwise past : String} (test : Nat) (isOtherwise : IsInner otherwise)
      (isPast : IsInner past) (one : Fragment owner made first)
      (two : Fragment owner made' second) :
      Fragment owner (made ++ made') (halvesCode test otherwise past first second)
  | loop {owner : Nat} {made made' : List (Nat × Nat)} {first second : List Instruction}
      {again past : String} (test : Nat) (isAgain : IsInner again) (isPast : IsInner past)
      (one : Fragment owner made first) (two : Fragment owner made' second) :
      Fragment owner (made ++ made') (loopCode test again past first second)
  | function {tag : Tag} {name : String} {params : List (Node Tag)} {body : Node Tag}
      {type : Option String} {made : List (Nat × Nat)} {entry : String} {locals : Locals}
      {inner : List Instruction} (owner reg : Nat) (given : List Nat) (last : Nat)
      (isNode : .define tag name params body type ∈ nodes)
      (address : (annotations.get tag.id).address = some entry)
      (noted : (annotations.get tag.id).locals = some locals)
      (isBody : Fragment tag.id made inner) :
      Fragment owner made (functionCode reg entry locals.size given inner last)

end Grammar

section Lowered

variable {env : Env} {s s' : Supply} {code : List Instruction} {locals : Locals}

theorem isInner_label (env : Env) (n : Nat) (suffix : String)
    (plain : ∀ c ∈ suffix.toList, c.isDigit = false) : IsInner (env.label n suffix) := by
  simp [IsInner, labelKey_label env n suffix plain]

/-- Code of some nodes as a fragment: a variable is declared in it no more often than there is a node
for it. -/
def Fragmented (env : Env) (nodes : List (Node Tag)) (code : List Instruction) : Prop :=
  ∃ made, Fragment env.nodes env.annotations env.owner made code ∧
    ∀ id, (made.map Prod.snd).count id ≤ (nodes.map Node.id).count id

namespace Fragmented

variable {nodes nodes' : List (Node Tag)} {code' : List Instruction}

private theorem counted_append {made made' : List (Nat × Nat)}
    (counted : ∀ id, (made.map Prod.snd).count id ≤ (nodes.map Node.id).count id)
    (counted' : ∀ id, (made'.map Prod.snd).count id ≤ (nodes'.map Node.id).count id) (id : Nat) :
    ((made ++ made').map Prod.snd).count id ≤ ((nodes ++ nodes').map Node.id).count id := by
  rw [List.map_append, List.map_append, List.count_append, List.count_append]
  exact Nat.add_le_add (counted id) (counted' id)

theorem append (one : Fragmented env nodes code) (two : Fragmented env nodes' code') :
    Fragmented env (nodes ++ nodes') (code ++ code') := by
  obtain ⟨made, isOne, counted⟩ := one
  obtain ⟨made', isTwo, counted'⟩ := two
  exact ⟨made ++ made', isOne.append isTwo, counted_append counted counted'⟩

theorem halves {otherwise past : String} (one : Fragmented env nodes code)
    (two : Fragmented env nodes' code') (test : Nat) (isOtherwise : IsInner otherwise)
    (isPast : IsInner past) :
    Fragmented env (nodes ++ nodes') (halvesCode test otherwise past code code') := by
  obtain ⟨made, isOne, counted⟩ := one
  obtain ⟨made', isTwo, counted'⟩ := two
  exact ⟨made ++ made', .halves test isOtherwise isPast isOne isTwo,
    counted_append counted counted'⟩

theorem loop {again past : String} (one : Fragmented env nodes code)
    (two : Fragmented env nodes' code') (test : Nat) (isAgain : IsInner again)
    (isPast : IsInner past) :
    Fragmented env (nodes ++ nodes') (loopCode test again past code code') := by
  obtain ⟨made, isOne, counted⟩ := one
  obtain ⟨made', isTwo, counted'⟩ := two
  exact ⟨made ++ made', .loop test isAgain isPast isOne isTwo, counted_append counted counted'⟩

theorem widen (fragmented : Fragmented env nodes code) (sub : nodes.Sublist nodes') :
    Fragmented env nodes' code := by
  obtain ⟨made, isFragment, counted⟩ := fragmented
  exact ⟨made, isFragment, fun id => Nat.le_trans (counted id) ((sub.map Node.id).count_le id)⟩

/-- Code in which no declaration is executed. -/
theorem of_silent (nodes : List (Node Tag))
    (isFragment : Fragment env.nodes env.annotations env.owner [] code) :
    Fragmented env nodes code :=
  ⟨[], isFragment, fun _ => Nat.zero_le _⟩

/-- Code of a node after that of its parts. -/
theorem followed (parts : Fragmented env nodes code) (sub : nodes.Sublist nodes')
    (isFragment : Fragment env.nodes env.annotations env.owner [] code') :
    Fragmented env nodes' (code ++ code') := by
  have both := parts.append (of_silent [] isFragment)
  rw [List.append_nil] at both
  exact both.widen sub

end Fragmented

theorem fragment_cellStores (nodes : List (Node Tag)) (annotations : Annotations)
    (owner ptr offset : Nat) (regs : List Nat) :
    Fragment nodes annotations owner [] (cellStores ptr offset regs) := by
  induction regs generalizing offset with
  | nil => exact .nil owner
  | cons reg rest ih =>
    have first : Fragment nodes annotations owner [] [.storeHeapAt ptr offset reg] :=
      .plain owner rfl
    exact first.append (ih (offset + 1))

/-- A variable of the function being lowered has its slot there. -/
theorem hasSlot_of_owns {declaration slot : Nat} (owned : env.owns declaration)
    (index : (env.annotations.get declaration).index = some slot) :
    HasSlot env.annotations env.owner declaration slot := by
  obtain ⟨locals, noted, contains⟩ := owned
  exact ⟨locals, noted, Locals.containsNode_iff.mp contains, index⟩

theorem mem_of_declaration? {use declaration : Node Tag}
    (found : env.declaration? use = some declaration) : declaration ∈ env.nodes := by
  obtain ⟨id, _, isDeclaration⟩ := Option.bind_eq_some_iff.mp found
  exact List.mem_of_find?_eq_some isDeclaration

/-- The parameters and variables that a task declares in the function around. -/
def Task.declares : Task → List Nat
  | .value node _ => declared node
  | .values nodes _ | .statements _ nodes _ => declaredAll nodes

/-- What lowering makes of a task is a fragment of the function that its nodes stand in. The slots
used in it are those of the function around, until the body of another one begins. -/
theorem Lowers.fragmented {task : Task} (lowers : Lowers env s task code s')
    (framed : Frames.Framed env.annotations env.nodes)
    (noted : (env.annotations.get env.owner).locals = some locals)
    (sub : task.nodes ⊆ env.nodes) (own : task.declares ⊆ locals.ids) :
    Fragmented env task.nodes code := by
  induction lowers generalizing locals with
  | literal | nothing | readEntry => exact .of_silent _ (.plain _ rfl)
  | readSlot _ _ owned index => exact .of_silent _ (.load _ (hasSlot_of_owns owned index))
  | program _ ih | block _ ih =>
    simp only [Task.nodes, Node.preorder, List.cons_subset] at sub
    exact (ih framed noted sub.2 own).widen (List.sublist_cons_self _ _)
  | @define _ _ _ tag name params body type _ locals' _ _ address noted' _ ih =>
    simp only [Task.nodes, Node.preorder, List.cons_subset, List.append_subset] at sub
    obtain ⟨table, notedTable, ids, _⟩ := framed _ _ _ _ _ sub.1
    have same : locals' = table :=
      Option.some.inj (noted'.symm.trans (Notes.locals_of_get? notedTable))
    subst same
    have ownBody : declared body ⊆ locals'.ids := by
      rw [ids]
      exact List.subset_append_right _ _
    obtain ⟨made, isBody, counted⟩ := ih framed noted' sub.2.2 ownBody
    have isPart : body.preorder.Sublist (Node.define tag name params body type).preorder :=
      (List.sublist_append_right _ _).cons _
    exact ⟨made, .function _ _ _ _ sub.1 address noted' isBody, fun id =>
      Nat.le_trans (counted id) ((isPart.map Node.id).count_le id)⟩
  | declare _ index ih =>
    simp only [Task.nodes, Node.preorder, List.cons_subset] at sub
    simp only [Task.declares, declared, List.cons_subset] at own
    obtain ⟨made, isValue, counted⟩ := ih framed noted sub.2 own.2
    refine ⟨_, isValue.append (.declare _ sub.1 ⟨locals, noted, own.1, index⟩), fun id => ?_⟩
    have := counted id
    simp only [List.map_append, List.map_cons, List.map_nil, List.count_append, Task.nodes,
      Node.preorder, List.count_cons, List.count_nil, Node.id, Node.tag] at this ⊢
    omega
  | assign found isStore owned index _ ih =>
    simp only [Task.nodes, Node.preorder, List.cons_subset] at sub
    have parts := ih framed noted sub.2 own
    have isNode := mem_of_declaration? found
    have has := hasSlot_of_owns owned index
    cases isStore with
    | again => exact parts.followed (List.sublist_cons_self _ _) (.assign _ isNode has)
    | once isUnit =>
      exact parts.followed (List.sublist_cons_self _ _) (.assignOnce _ isNode isUnit has)
  | @branch env _ s₁ _ s₃ _ _ _ _ test left right _ _ _ _ _ _ ihPred ihYes ihNo =>
    simp only [Task.nodes, Node.preorder, List.cons_subset, List.append_subset] at sub
    simp only [Task.declares, declared, List.append_subset] at own
    obtain ⟨_, ⟨subPred, subYes⟩, subNo⟩ := sub
    obtain ⟨⟨ownPred, ownYes⟩, ownNo⟩ := own
    have unset : Fragment env.nodes env.annotations env.owner [] [.unset [left, right]] :=
      .plain _ rfl
    have join : Fragment env.nodes env.annotations env.owner []
        [.phi s₃.register left right] := .plain _ rfl
    have before := (ihPred framed noted subPred ownPred).followed (List.Sublist.refl _) unset
    have halves := (ihYes framed noted subYes ownYes).halves (ihNo framed noted subNo ownNo) test
      (isInner_label env s₁.number "else" (by simp))
      (isInner_label env (s₁.number + 1) "end" (by simp))
    have whole := (before.append halves).followed (List.Sublist.refl _) join
    simp only [Task.nodes, ← List.append_assoc] at whole
    exact Fragmented.widen (by simpa [halvesCode] using whole) (List.sublist_cons_self _ _)
  | @loop env s _ s₂ _ _ _ test _ _ _ _ _ ihPred ihBody =>
    simp only [Task.nodes, Node.preorder, List.cons_subset, List.append_subset] at sub
    simp only [Task.declares, declared, List.append_subset] at own
    have nothing : Fragment env.nodes env.annotations env.owner []
        [.loadConst s₂.register .null] := .plain _ rfl
    have loop := (ihPred framed noted sub.2.1 own.1).loop (ihBody framed noted sub.2.2 own.2) test
      (isInner_label env s.number "begin" (by simp))
      (isInner_label env (s.number + 1) "end" (by simp))
    have whole := loop.followed (List.Sublist.refl _) nothing
    exact Fragmented.widen (by simpa [loopCode, Task.nodes] using whole) (List.sublist_cons_self _ _)
  | binary isOp _ _ ihLeft ihRight =>
    simp only [Task.nodes, Node.preorder, List.cons_subset, List.append_subset] at sub
    simp only [Task.declares, declared, List.append_subset] at own
    have parts := (ihLeft framed noted sub.2.1 own.1).append (ihRight framed noted sub.2.2 own.2)
    rcases operation_cases isOp with ⟨arith, rfl⟩ | ⟨compare, rfl⟩
    · exact parts.followed (List.sublist_cons_self _ _) (.plain _ rfl)
    · exact parts.followed (List.sublist_cons_self _ _) (.plain _ rfl)
  | @call env _ s₁ _ _ _ _ _ _ _ _ _ entry regs _ found count address lowered ih =>
    simp only [Task.nodes, Node.preorder, List.cons_subset, List.append_subset] at sub
    simp only [Task.declares, declared, List.append_subset] at own
    have one : Fragment env.nodes env.annotations env.owner [] [.call (.label entry) regs] :=
      .call _ (mem_of_declaration? found) address (count.trans lowered.length_values.symm)
    have result : Fragment env.nodes env.annotations env.owner []
        [.copy s₁.register resultReg] := .plain _ rfl
    exact (ih framed noted sub.2.2 own.2).followed ((List.sublist_append_right _ _).cons _)
      (one.append result)
  | @aggregate env _ s₁ _ _ _ regs _ _ ih =>
    simp only [Task.nodes, Node.preorder, List.cons_subset] at sub
    have chunk : Fragment env.nodes env.annotations env.owner []
      [.newChunk s₁.register regs.length] := .plain _ rfl
    exact (ih framed noted sub.2 own).followed (List.sublist_cons_self _ _)
      (chunk.append (fragment_cellStores _ _ _ _ _ _))
  | noValues | noStatements => exact .of_silent _ (.nil _)
  | moreValues _ _ ih ihOthers | moreStatements _ _ _ ih ihOthers =>
    simp only [Task.nodes, Node.preorderAll, List.append_subset] at sub
    simp only [Task.declares, declaredAll, List.append_subset] at own
    exact (ih framed noted sub.1 own.1).append (ihOthers framed noted sub.2 own.2)
  | merged _ _ ih =>
    simp only [Task.nodes, Node.preorderAll, List.append_subset] at sub
    simp only [Task.declares, declaredAll, List.append_subset] at own
    exact (ih framed noted sub.2 own.2).widen (List.sublist_append_right _ _)

end Lowered

end ScriptVM.Lowering
