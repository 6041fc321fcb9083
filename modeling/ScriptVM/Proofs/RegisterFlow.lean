import ScriptVM.Proofs.Fragments

/-!
How values flow through the registers of lowered code.

Lowering numbers registers in the order in which its instructions write them. A stretch of code of
one function writes the registers from one number up to another, and what it reads are registers that
the function itself wrote before; a function inside has a stretch of its own, of which nothing is
known outside. Whatever a node is lowered to is such a stretch, and the value of the node is in a
register known after it.
-/
namespace ScriptVM

namespace Instruction

/-- The register that an instruction writes. Lists of registers that are unset, saved or restored do
not count. -/
def written? : Instruction → Option Nat
  | loadConst dst _ | loadPool dst _ | loadAddress dst _ | copy dst _ | phi dst _ _ | arith _ dst _ _
  | arithConst _ dst _ _ | compare _ dst _ _ | loadSlot dst _ | pop dst | peek dst _ | newChunk dst _
  | newSymbol dst _ | loadHeap dst _ | loadHeapAt dst _ _ => some dst
  | _ => none

/-- The registers that an instruction reads. Lists of registers that are unset, saved or restored do
not count. -/
def read : Instruction → List Nat
  | copy _ src | push src | storeSlot src _ | storeOnce src _ => [src]
  | phi _ left right | arith _ _ left right | compare _ _ left right | branch _ left right _ =>
    [left, right]
  | arithConst _ _ left _ => [left]
  | branchZero pred _ | branchNonzero pred _ => [pred]
  | call _ args => args
  | loadHeap _ ptr | loadHeapAt _ ptr _ => [ptr]
  | storeHeap ptr src | storeHeapAt ptr _ src => [ptr, src]
  | printReg reg | printSymbol reg => [reg]
  | _ => []

/-- An instruction that lowering puts anywhere, whatever stands before and after it. -/
def isOrdinary : Instruction → Bool
  | loadConst .. | loadPool .. | loadAddress .. | arith .. | compare .. | reserve _ | loadSlot ..
  | storeSlot .. | storeOnce .. | newChunk .. | storeHeapAt .. | halt => true
  | _ => false

/-- An instruction that has to do with results or with the values of branches, and so expects some
other one near it. -/
def isPaired : Instruction → Bool
  | restore _ | call .. | unset _ | phi .. => true
  | _ => false

end Instruction

namespace Lowering

section Grammar

variable (nodes : List (Node Tag)) (annotations : Annotations)

/-- Code of one function, its owner, between two numbers for the next register. Beside them stand the
registers that the owner itself writes in it. -/
inductive Stretch : Nat → Nat → List Instruction → Nat → List Nat → Prop
  | nil (owner next : Nat) : Stretch owner next [] next []
  | append {owner next next₁ next₂ : Nat} {one two : List Instruction} {known known' : List Nat}
      (first : Stretch owner next one next₁ known) (second : Stretch owner next₁ two next₂ known') :
      Stretch owner next (one ++ two) next₂ (known ++ known')
  | write {owner next next' : Nat} {code : List Instruction} {known : List Nat}
      (before : Stretch owner next code next' known) (instruction : Instruction)
      (ordinary : instruction.isOrdinary = true) (reads : instruction.read ⊆ known)
      (writes : instruction.written? = some next') :
      Stretch owner next (code ++ [instruction]) (next' + 1) (next' :: known)
  | use {owner next next' : Nat} {code : List Instruction} {known : List Nat}
      (before : Stretch owner next code next' known) (instruction : Instruction)
      (ordinary : instruction.isOrdinary = true) (reads : instruction.read ⊆ known)
      (writes : instruction.written? = none) :
      Stretch owner next (code ++ [instruction]) next' known
  | call {owner next next' : Nat} {code : List Instruction} {known : List Nat} {target : Target}
      {args : List Nat} (before : Stretch owner next code next' known) (reads : args ⊆ known) :
      Stretch owner next (code ++ [.call target args, .copy next' resultReg]) (next' + 1)
        (next' :: known)
  | branch {owner next next₁ next₂ next₃ test left right : Nat}
      {code first second : List Instruction} {known known₁ known₂ : List Nat}
      {otherwise past : String} (before : Stretch owner next code next₁ known)
      (isTest : test ∈ known) (isOtherwise : IsInner otherwise) (isPast : IsInner past)
      (one : Stretch owner next₁ first next₂ known₁) (isLeft : left ∈ known₁)
      (two : Stretch owner next₂ second next₃ known₂) (isRight : right ∈ known₂) :
      Stretch owner next (code ++ ([.unset [left, right]] ++
        halvesCode test otherwise past first second ++ [.phi next₃ left right])) (next₃ + 1)
        (next₃ :: (known ++ (known₁ ++ known₂)))
  | loop {owner next next₁ next₂ test : Nat} {first second : List Instruction}
      {known₁ known₂ : List Nat} {again past : String}
      (isAgain : IsInner again) (isPast : IsInner past)
      (one : Stretch owner next first next₁ known₁) (isTest : test ∈ known₁)
      (two : Stretch owner next₁ second next₂ known₂) :
      Stretch owner next (loopCode test again past first second) next₂ (known₁ ++ known₂)
  | function {next' last slots : Nat} {inner : List Instruction} {known : List Nat} {tag : Tag}
      {name : String} {params : List (Node Tag)} {body : Node Tag} {type : Option String}
      {entry : String} (owner next : Nat)
      (isNode : .define tag name params body type ∈ nodes)
      (address : (annotations.get tag.id).address = some entry)
      (isBody : Stretch tag.id (next + 1) inner next' known) (isLast : last ∈ known) :
      Stretch owner next (functionCode next entry slots
        (List.range' (next + 1) (next' - (next + 1))) inner last) next' [next]

end Grammar

section Lowered

variable {env : Env} {s s' : Supply} {code : List Instruction}

/-- Code that leaves values in registers which the function being lowered has written. -/
def Holds (env : Env) (s : Supply) (code : List Instruction) (s' : Supply) (regs : List Nat) :
    Prop :=
  ∃ known, Stretch env.nodes env.annotations env.owner s.register code s'.register known ∧
    regs ⊆ known

private theorem singleton_subset {reg : Nat} {regs : List Nat} (member : reg ∈ regs) :
    [reg] ⊆ regs :=
  List.cons_subset.mpr ⟨member, List.nil_subset _⟩

/-- Storing elements changes nothing about registers. -/
theorem Stretch.cellStores {nodes : List (Node Tag)} {annotations : Annotations}
    {owner next next' ptr : Nat} {known regs : List Nat}
    (before : Stretch nodes annotations owner next code next' known) (isPtr : ptr ∈ known)
    (known_regs : regs ⊆ known) (offset : Nat) :
    Stretch nodes annotations owner next (code ++ cellStores ptr offset regs) next' known := by
  induction regs generalizing code offset with
  | nil =>
    rw [Lowering.cellStores, List.append_nil]
    exact before
  | cons reg rest ih =>
    rw [List.cons_subset] at known_regs
    have stored : Stretch nodes annotations owner next (code ++ [.storeHeapAt ptr offset reg]) next'
        known := before.use _ rfl (by simp [Instruction.read, isPtr, known_regs.1]) rfl
    have all := ih stored known_regs.2 (offset + 1)
    rwa [List.append_assoc] at all

/-- What lowering makes of a task is a stretch, and the values are in registers known after it. -/
theorem Lowers.stretch {task : Task} (lowers : Lowers env s task code s')
    (sub : task.nodes ⊆ env.nodes) :
    ∃ known, Stretch env.nodes env.annotations env.owner s.register code s'.register known ∧
      task.Results (· ∈ known) := by
  induction lowers with
  | literal | nothing | readSlot | readEntry =>
    exact ⟨_, (Stretch.nil _ _).write _ rfl (List.nil_subset _) rfl, List.mem_cons_self⟩
  | program _ ih | block _ ih =>
    simp only [Task.nodes, Node.preorder, List.cons_subset] at sub
    obtain ⟨known, isStretch, results⟩ := ih sub.2
    exact ⟨known, isStretch, results.last⟩
  | define address _ _ ih =>
    simp only [Task.nodes, Node.preorder, List.cons_subset, List.append_subset] at sub
    obtain ⟨known, isBody, isLast⟩ := ih sub.2.2
    exact ⟨_, .function _ _ sub.1 address isBody isLast, List.mem_cons_self⟩
  | declare _ _ ih =>
    simp only [Task.nodes, Node.preorder, List.cons_subset] at sub
    obtain ⟨known, isValue, isReg⟩ := ih sub.2
    exact ⟨known, isValue.use _ rfl (singleton_subset isReg) rfl, isReg⟩
  | assign _ isStore _ _ _ ih =>
    simp only [Task.nodes, Node.preorder, List.cons_subset] at sub
    obtain ⟨known, isValue, isReg⟩ := ih sub.2
    cases isStore with
    | again | once =>
      exact ⟨known, isValue.use _ rfl (singleton_subset isReg) rfl, isReg⟩
  | @branch env _ s₁ _ _ _ _ _ _ _ _ _ _ _ _ _ _ _ ihPred ihYes ihNo =>
    simp only [Task.nodes, Node.preorder, List.cons_subset, List.append_subset] at sub
    obtain ⟨_, ⟨subPred, subYes⟩, subNo⟩ := sub
    obtain ⟨known, isPred, isTest⟩ := ihPred subPred
    obtain ⟨known₁, isYes, isLeft⟩ := ihYes subYes
    obtain ⟨known₂, isNo, isRight⟩ := ihNo subNo
    have whole := isPred.branch isTest (isInner_label env s₁.number "else" (by simp))
      (isInner_label env (s₁.number + 1) "end" (by simp)) isYes isLeft isNo isRight
    exact ⟨_, by simpa [halvesCode] using whole, List.mem_cons_self⟩
  | @loop env s _ _ _ _ _ _ _ _ _ _ _ ihPred ihBody =>
    simp only [Task.nodes, Node.preorder, List.cons_subset, List.append_subset] at sub
    obtain ⟨known₁, isPred, isTest⟩ := ihPred sub.2.1
    obtain ⟨known₂, isBody, _⟩ := ihBody sub.2.2
    have loop := Stretch.loop (isInner_label env s.number "begin" (by simp))
      (isInner_label env (s.number + 1) "end" (by simp)) isPred isTest isBody
    have whole := loop.write (.loadConst _ .null) rfl (List.nil_subset _) rfl
    exact ⟨_, by simpa [loopCode] using whole, List.mem_cons_self⟩
  | @binary _ _ _ _ _ _ _ _ _ a b _ _ isOp _ _ ihLeft ihRight =>
    simp only [Task.nodes, Node.preorder, List.cons_subset, List.append_subset] at sub
    obtain ⟨known, isOne, isLeft⟩ := ihLeft sub.2.1
    obtain ⟨known', isTwo, isRight⟩ := ihRight sub.2.2
    have both : [a, b] ⊆ known ++ known' := List.cons_subset.mpr
      ⟨List.mem_append_left _ isLeft, singleton_subset (List.mem_append_right _ isRight)⟩
    rcases operation_cases isOp with ⟨arith, rfl⟩ | ⟨compare, rfl⟩
    · exact ⟨_, (isOne.append isTwo).write _ rfl both rfl, List.mem_cons_self⟩
    · exact ⟨_, (isOne.append isTwo).write _ rfl both rfl, List.mem_cons_self⟩
  | call _ _ _ _ ih =>
    simp only [Task.nodes, Node.preorder, List.cons_subset, List.append_subset] at sub
    obtain ⟨known, areArgs, areRegs⟩ := ih sub.2.2
    exact ⟨_, areArgs.call areRegs, List.mem_cons_self⟩
  | @aggregate _ _ s₁ _ _ _ regs _ _ ih =>
    simp only [Task.nodes, Node.preorder, List.cons_subset] at sub
    obtain ⟨known, areElements, areRegs⟩ := ih sub.2
    have chunk := areElements.write (.newChunk s₁.register regs.length) rfl (List.nil_subset _) rfl
    have stores := chunk.cellStores List.mem_cons_self (List.subset_cons_of_subset _ areRegs) 0
    exact ⟨_, by simpa using stores, List.mem_cons_self⟩
  | noValues => exact ⟨[], .nil _ _, List.forall_mem_nil _⟩
  | moreValues _ _ ih ihOthers =>
    simp only [Task.nodes, Node.preorderAll, List.append_subset] at sub
    obtain ⟨known, isOne, isFirst⟩ := ih sub.1
    obtain ⟨known', isTwo, areOthers⟩ := ihOthers sub.2
    exact ⟨_, isOne.append isTwo, List.forall_mem_cons.mpr ⟨List.mem_append_left _ isFirst,
      fun reg member => List.mem_append_right _ (areOthers reg member)⟩⟩
  | noStatements => exact ⟨[], .nil _ _, fun _ same => .inl same⟩
  | merged _ _ ih =>
    simp only [Task.nodes, Node.preorderAll, List.append_subset] at sub
    exact ih sub.2
  | moreStatements _ _ _ ih ihOthers =>
    simp only [Task.nodes, Node.preorderAll, List.append_subset] at sub
    obtain ⟨known, isOne, isHere⟩ := ih sub.1
    obtain ⟨known', isTwo, isLast⟩ := ihOthers sub.2
    exact ⟨_, isOne.append isTwo, .after (List.mem_append_left _ isHere)
      (isLast.mono fun _ => List.mem_append_right _)⟩

/-- What lowering makes of a node holds its value in the end. -/
theorem holds_visit {node : Node Tag} {reg : Nat} (inside : node.preorder ⊆ env.nodes)
    (success : visit env node s = .ok reg code s') : Holds env s code s' [reg] := by
  obtain ⟨known, isStretch, isReg⟩ := (lowers_visit success).stretch inside
  exact ⟨known, isStretch, singleton_subset isReg⟩

end Lowered

end Lowering

/-- How many registers lowering gives out. The one that carries results is not given out. -/
def Document.registerCount? (document : Document) : Option Nat :=
  match document.root, document.assignAddresses with
  | .program tag name _, .ok (annotations, names) =>
    match Lowering.visit ⟨document.root.preorder, annotations, tag.id, name⟩ document.root
        ⟨{}, names⟩ with
    | .ok _ _ supply => some (supply.register - (resultReg + 1))
    | .error .. => none
  | _, _ => none

/-- The code of a document is a stretch of the program, which writes the registers from the first one
on. -/
theorem Document.stretch_of_compile {document document' : Document} {compiled : Compiled}
    (success : document.compile = .ok (document', compiled)) :
    ∃ n known, document.registerCount? = some n ∧
      Lowering.Stretch document'.root.preorder document'.annotations document'.root.id
        (resultReg + 1) compiled.code (resultReg + 1 + n) known := by
  obtain ⟨tag, name, statements, annotations, names, locals, code, s', root, given, _, lowered,
    isCode, rfl⟩ := Document.compile_ok success
  have isRoot : document.root.id = tag.id := by
    rw [root]
    rfl
  have opened : Lowering.Stretch document.root.preorder annotations tag.id (resultReg + 1)
      (if 0 < locals.size then [.reserve locals.size] else []) (resultReg + 1) [] := by
    split
    · exact (Lowering.Stretch.nil _ _).use _ rfl (List.nil_subset _) rfl
    · exact .nil _ _
  obtain ⟨known, stretch, _⟩ := Lowering.holds_visit (List.Subset.refl _) lowered
  have whole := (opened.append stretch).use .halt rfl (List.nil_subset _) rfl
  have some : resultReg + 1 ≤ s'.register := (Lowering.given_visit lowered).shrinks.registers
  refine ⟨s'.register - (resultReg + 1), known, ?_, ?_⟩
  · rw [root] at given lowered
    simp only [registerCount?, assignAddresses, root, given, lowered]
  · rw [isCode, isRoot, Nat.add_sub_cancel' some]
    exact whole

end ScriptVM
