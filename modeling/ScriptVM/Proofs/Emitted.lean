import ScriptVM.Proofs.Given
import ScriptVM.Proofs.Lockstep
import ScriptVM.Proofs.Placement

/-!
Which instructions lowering makes, and what assembly makes of them.

Lowered code goes to labels only, and leaves the heap alone where there are no tuples and lists.
Assembly takes the labels out, puts addresses in their place and changes nothing else, so an
assembled instruction is one of the lowered ones with its target resolved.
-/
namespace ScriptVM

namespace Lowering

/-- An instruction that goes to a label, if anywhere, and uses the heap only where that is
allowed. -/
def Emitted (heap : Prop) : Instruction → Prop
  | .loadAddress _ target | .jump target | .branchZero _ target | .branchNonzero _ target
  | .branch _ _ _ target | .call target _ => ∃ label, target = .label label
  | .newChunk .. | .storeHeapAt .. => heap
  | _ => True

variable {heap : Prop} {env : Env} {s s' : Supply} {code : List Instruction}

theorem emitted_cellStores (allowed : heap) (ptr offset : Nat) (regs : List Nat) :
    ∀ instruction ∈ cellStores ptr offset regs, Emitted heap instruction := by
  induction regs generalizing offset with
  | nil => nofun
  | cons reg rest ih =>
    rw [cellStores, List.forall_mem_cons]
    exact ⟨allowed, ih _⟩

/-- The instructions of a task go to labels, and leave the heap alone unless there are tuples or
lists among its nodes. -/
theorem Lowers.emitted {task : Task} {all : List (Node Tag)}
    (allowed : ∀ node ∈ all, node.isAggregate = true → heap)
    (lowers : Lowers env s task code s') (sub : task.nodes ⊆ all) :
    ∀ instruction ∈ code, Emitted heap instruction := by
  induction lowers with
  | literal | nothing | readSlot | readEntry => simp [Emitted]
  | program _ ih | block _ ih =>
    simp only [Task.nodes, Node.preorder, List.cons_subset] at sub
    exact ih sub.2
  | define _ _ _ ih =>
    simp only [Task.nodes, Node.preorder, List.cons_subset, List.append_subset] at sub
    simpa [functionCode, Emitted, List.forall_mem_append, or_imp, forall_and] using ih sub.2.2
  | declare _ _ ih =>
    simp only [Task.nodes, Node.preorder, List.cons_subset] at sub
    simpa [Emitted, List.forall_mem_append, or_imp, forall_and] using ih sub.2
  | assign _ isStore _ _ _ ih =>
    simp only [Task.nodes, Node.preorder, List.cons_subset] at sub
    cases isStore <;> simpa [Emitted, List.forall_mem_append, or_imp, forall_and] using ih sub.2
  | branch _ _ _ ihPred ihYes ihNo =>
    simp only [Task.nodes, Node.preorder, List.cons_subset, List.append_subset] at sub
    obtain ⟨_, ⟨subPred, subYes⟩, subNo⟩ := sub
    simp only [List.forall_mem_append, List.forall_mem_cons, Emitted]
    exact ⟨⟨⟨⟨⟨ihPred subPred, trivial, ⟨_, rfl⟩, List.forall_mem_nil _⟩, ihYes subYes⟩, ⟨_, rfl⟩,
      trivial, List.forall_mem_nil _⟩, ihNo subNo⟩, trivial, trivial, List.forall_mem_nil _⟩
  | loop _ _ ihPred ihBody =>
    simp only [Task.nodes, Node.preorder, List.cons_subset, List.append_subset] at sub
    simp only [List.forall_mem_append, List.forall_mem_cons, Emitted]
    exact ⟨⟨⟨⟨⟨trivial, List.forall_mem_nil _⟩, ihPred sub.2.1⟩, ⟨_, rfl⟩, List.forall_mem_nil _⟩,
      ihBody sub.2.2⟩, ⟨_, rfl⟩, trivial, trivial, List.forall_mem_nil _⟩
  | binary isOp _ _ ihLeft ihRight =>
    simp only [Task.nodes, Node.preorder, List.cons_subset, List.append_subset] at sub
    simp only [List.forall_mem_append, List.forall_mem_cons]
    refine ⟨⟨ihLeft sub.2.1, ihRight sub.2.2⟩, ?_, List.forall_mem_nil _⟩
    rcases operation_cases isOp with ⟨_, rfl⟩ | ⟨_, rfl⟩
    · exact trivial
    · exact trivial
  | call _ _ _ _ ih =>
    simp only [Task.nodes, Node.preorder, List.cons_subset, List.append_subset] at sub
    simp only [List.forall_mem_append, List.forall_mem_cons]
    exact ⟨ih sub.2.2, ⟨_, rfl⟩, trivial, List.forall_mem_nil _⟩
  | aggregate _ ih =>
    simp only [Task.nodes, Node.preorder, List.cons_subset] at sub
    have isAllowed : heap := allowed _ sub.1 rfl
    simp only [List.forall_mem_append, List.forall_mem_cons]
    exact ⟨ih sub.2, isAllowed, emitted_cellStores isAllowed _ _ _⟩
  | noValues | noStatements => exact List.forall_mem_nil _
  | moreValues _ _ ih ihOthers | moreStatements _ _ _ ih ihOthers =>
    simp only [Task.nodes, Node.preorderAll, List.append_subset] at sub
    exact List.forall_mem_append.mpr ⟨ih sub.1, ihOthers sub.2⟩
  | merged _ _ ih =>
    simp only [Task.nodes, Node.preorderAll, List.append_subset] at sub
    exact ih sub.2

/-- The instructions of a node go to labels, and without tuples and lists below it they leave the
heap alone. -/
theorem emitted_visit {node : Node Tag} {reg : Nat} (allowed : node.AggregateFree ∨ heap)
    (success : visit env node s = .ok reg code s') :
    ∀ instruction ∈ code, Emitted heap instruction := by
  refine (lowers_visit success).emitted (fun inner member isAggregate => ?_) (List.Subset.refl _)
  refine allowed.resolve_left fun free => ?_
  rw [free inner member] at isAggregate
  cases isAggregate

end Lowering

/-- The code of a document goes to labels, and without tuples and lists it leaves the heap alone. -/
theorem Document.emitted_of_compile {heap : Prop} {document document' : Document}
    {compiled : Compiled} (allowed : document.root.AggregateFree ∨ heap)
    (success : document.compile = .ok (document', compiled)) :
    ∀ instruction ∈ compiled.code, Lowering.Emitted heap instruction := by
  obtain ⟨_, _, _, _, _, locals, code, _, _, _, _, lowered, isCode, _⟩ :=
    Document.compile_ok success
  rw [isCode, List.forall_mem_append, List.forall_mem_append]
  refine ⟨⟨?_, Lowering.emitted_visit allowed lowered⟩, by simp [Lowering.Emitted]⟩
  split <;> simp [Lowering.Emitted]

namespace Assembly

variable {table : List (String × Nat)} {code resolved : List Instruction}

/-- An assembled instruction is one of those before assembly, with its target resolved. -/
theorem mem_of_resolveAll (success : resolveAll table code = .ok resolved) {instruction : Instruction}
    (member : instruction ∈ resolved) :
    ∃ original ∈ code, original.labelName? = none ∧ resolve table original = .ok instruction := by
  induction code generalizing resolved with
  | nil =>
    cases success
    cases member
  | cons first rest ih =>
    cases plain : first.labelName? with
    | some name =>
      cases first with
      | label name =>
        obtain ⟨original, inRest, found⟩ := ih success member
        exact ⟨original, List.mem_cons_of_mem _ inRest, found⟩
      | _ => cases plain
    | none =>
      rw [resolveAll_cons rest plain] at success
      obtain ⟨here, resolvedHere, success⟩ := Walks.except_bind_ok.mp success
      obtain ⟨others, resolvedRest, success⟩ := Walks.except_bind_ok.mp success
      cases success
      rcases List.mem_cons.mp member with rfl | inRest
      · exact ⟨first, List.mem_cons_self, plain, resolvedHere⟩
      · obtain ⟨original, isOriginal, found⟩ := ih resolvedRest inRest
        exact ⟨original, List.mem_cons_of_mem _ isOriginal, found⟩

/-- Assembly keeps all instructions but the labels. -/
theorem length_of_resolveAll (success : resolveAll table code = .ok resolved) :
    resolved.length = width code := by
  induction code generalizing resolved with
  | nil =>
    cases success
    rfl
  | cons first rest ih =>
    cases plain : first.labelName? with
    | some name =>
      cases first with
      | label name => exact (ih success).trans (width_label name rest).symm
      | _ => cases plain
    | none =>
      rw [resolveAll_cons rest plain] at success
      obtain ⟨here, _, success⟩ := Walks.except_bind_ok.mp success
      obtain ⟨others, resolvedRest, success⟩ := Walks.except_bind_ok.mp success
      cases success
      rw [width_cons rest plain, List.length_cons, ih resolvedRest]

theorem resolveAll_of_assemble (success : assemble code = .ok resolved) :
    resolveAll (labels 0 code) code = .ok resolved := by
  unfold assemble at success
  dsimp only at success
  split at success
  · cases success
  · exact success

/-- A resolved instruction goes to an address, if it went to a label before, and is otherwise the
same. -/
theorem resolve_ok {original instruction : Instruction}
    (found : resolve table original = .ok instruction) :
    (∃ label address, original.target? = some (.label label) ∧
      table.lookup label = some address ∧ instruction = original.withTarget (.address address)) ∨
    (∀ label, original.target? ≠ some (.label label)) ∧ instruction = original := by
  unfold resolve at found
  split at found
  next label isLabel =>
    split at found
    next address known =>
      cases found
      exact .inl ⟨label, address, isLabel, known, rfl⟩
    next => cases found
  next noLabel =>
    cases found
    exact .inr ⟨noLabel, rfl⟩

theorem sparesHeap_of_resolve {original instruction : Instruction}
    (found : resolve table original = .ok instruction) :
    Machine.sparesHeap instruction = Machine.sparesHeap original := by
  rcases resolve_ok found with ⟨_, _, _, _, rfl⟩ | ⟨_, rfl⟩
  · cases original <;> rfl
  · rfl

end Assembly

end ScriptVM
