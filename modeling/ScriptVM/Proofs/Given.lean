import ScriptVM.Proofs.LoweringRules
import ScriptVM.Proofs.Shape

/-!
The registers that lowering gives out, and the functions it lowers on the way.

The value of a node stands in a register given out while the node was lowered, so a node never
touches the registers given out before it. Every function inside a lowered node has its instructions
among those of the node.
-/
namespace ScriptVM.Lowering

variable {env : Env} {s s' : Supply} {code : List Instruction}

/-- Lowering gives out registers and numbers in order, and the value's register is one of them. -/
structure Given (s : Supply) (reg : Nat) (s' : Supply) : Prop where
  lower : s.register ≤ reg
  upper : reg < s'.register
  numbers : s.number ≤ s'.number

theorem Given.of_register (s : Supply) : Given s s.register s.withoutRegister :=
  ⟨Nat.le_refl _, Nat.lt_succ_self _, Nat.le_refl _⟩

/-- Supplies only shrink. -/
structure Shrinks (s s' : Supply) : Prop where
  registers : s.register ≤ s'.register
  numbers : s.number ≤ s'.number

theorem Shrinks.refl (s : Supply) : Shrinks s s := ⟨Nat.le_refl _, Nat.le_refl _⟩

theorem Shrinks.trans {s₁ s₂ s₃ : Supply} (first : Shrinks s₁ s₂) (second : Shrinks s₂ s₃) :
    Shrinks s₁ s₃ :=
  ⟨Nat.le_trans first.registers second.registers, Nat.le_trans first.numbers second.numbers⟩

theorem Given.shrinks {reg : Nat} (given : Given s reg s') : Shrinks s s' :=
  ⟨Nat.le_of_lt (Nat.lt_of_le_of_lt given.lower given.upper), given.numbers⟩

theorem Given.of_last {s₁ : Supply} (before : Shrinks s s₁) :
    Given s s₁.register s₁.withoutRegister :=
  ⟨before.registers, Nat.lt_succ_self _, before.numbers⟩

theorem Shrinks.withoutNumbers (s : Supply) : Shrinks s s.withoutNumber.withoutNumber :=
  ⟨Nat.le_refl _, Nat.le_add_right _ 2⟩

/-- The registers given out between two states of the supply. -/
def GivenBetween (s s' : Supply) (reg : Nat) : Prop :=
  s.register ≤ reg ∧ reg < s'.register

theorem GivenBetween.widen {s₁ s₂ : Supply} {reg : Nat} (between : GivenBetween s₁ s₂ reg)
    (before : Shrinks s s₁) (after : Shrinks s₂ s') : GivenBetween s s' reg :=
  ⟨Nat.le_trans before.registers between.1, Nat.lt_of_lt_of_le between.2 after.registers⟩

theorem Given.between {reg : Nat} (given : Given s reg s') :
    Shrinks s s' ∧ GivenBetween s s' reg :=
  ⟨given.shrinks, given.lower, given.upper⟩

/-- Lowering goes through the supply in order, and leaves values in registers that it gave out on
the way. A function itself is in the register taken before its body was lowered. -/
theorem Lowers.given {task : Task} (lowers : Lowers env s task code s') :
    Shrinks s s' ∧ task.Results (GivenBetween s s') := by
  induction lowers with
  | literal | nothing | readSlot | readEntry => exact (Given.of_register _).between
  | program _ ih | block _ ih => exact ⟨ih.1, ih.2.last⟩
  | define _ _ _ ih =>
    exact ⟨(Given.of_register _).shrinks.trans ih.1, Nat.le_refl _, ih.1.registers⟩
  | declare _ _ ih | assign _ _ _ _ _ ih => exact ih
  | branch _ _ _ ihPred ihYes ihNo =>
    have toNo := ((ihPred.1.trans (Shrinks.withoutNumbers _)).trans ihYes.1).trans ihNo.1
    exact (Given.of_last toNo).between
  | loop _ _ ihPred ihBody =>
    have toBody := ((Shrinks.withoutNumbers _).trans ihPred.1).trans ihBody.1
    exact (Given.of_last toBody).between
  | binary _ _ _ ihLeft ihRight => exact (Given.of_last (ihLeft.1.trans ihRight.1)).between
  | call _ _ _ _ ih | aggregate _ ih => exact (Given.of_last ih.1).between
  | noValues => exact ⟨Shrinks.refl _, List.forall_mem_nil _⟩
  | moreValues _ _ ih ihOthers =>
    refine ⟨ih.1.trans ihOthers.1, List.forall_mem_cons.mpr ⟨?_, fun reg member => ?_⟩⟩
    · exact GivenBetween.widen ih.2 (Shrinks.refl _) ihOthers.1
    · exact (ihOthers.2 reg member).widen ih.1 (Shrinks.refl _)
  | noStatements => exact ⟨Shrinks.refl _, fun _ same => .inl same⟩
  | merged _ _ ih => exact ih
  | moreStatements _ _ _ ih ihOthers =>
    have here := GivenBetween.widen ih.2 (Shrinks.refl _) ihOthers.1
    exact ⟨ih.1.trans ihOthers.1,
      .after here (ihOthers.2.mono fun _ between => between.widen ih.1 (Shrinks.refl _))⟩

theorem given_visit {node : Node Tag} {reg : Nat} (success : visit env node s = .ok reg code s') :
    Given s reg s' := by
  obtain ⟨shrinks, lower, upper⟩ := (lowers_visit success).given
  exact ⟨lower, upper, shrinks.numbers⟩

/-- A node was lowered on the way, and its instructions are among these. -/
def Contains (env : Env) (s : Supply) (code : List Instruction) (node : Node Tag) : Prop :=
  ∃ env' s₁ reg part s₂ before after, env'.nodes = env.nodes ∧
    env'.annotations = env.annotations ∧ Shrinks s s₁ ∧
    visit env' node s₁ = .ok reg part s₂ ∧ code = before ++ part ++ after

theorem Contains.widen {env' : Env} {s₁ : Supply} {inner : List Instruction} {node : Node Tag}
    (inside : Contains env' s₁ inner node) (nodes : env'.nodes = env.nodes)
    (annotations : env'.annotations = env.annotations) (shrinks : Shrinks s s₁)
    (before after : List Instruction) : Contains env s (before ++ inner ++ after) node := by
  obtain ⟨env₂, s₂, reg, part, s₃, before', after', nodes', annotations', shrinks', lowered,
    rfl⟩ := inside
  exact ⟨env₂, s₂, reg, part, s₃, before ++ before', after' ++ after, nodes'.trans nodes,
    annotations'.trans annotations, shrinks.trans shrinks', lowered, by simp⟩

theorem Contains.append {node : Node Tag} (inside : Contains env s code node)
    (after : List Instruction) : Contains env s (code ++ after) node :=
  inside.widen rfl rfl (Shrinks.refl s) [] after

/-- Parameters are the only children of functions besides their bodies. -/
def PlainParams (node : Node Tag) : Prop :=
  ∀ tag name params body type, Node.define tag name params body type ∈ node.preorder →
    ∀ param ∈ params, ∃ tag' name' type', param = .param tag' name' type'

theorem plainParams_of_shaped {ok : Node.Allowed} {node : Node Tag}
    (shaped : Node.Shaped ok true node) : PlainParams node := by
  intro tag name params body type member param isParam
  rcases shaped.inner member with shapedInner | ⟨_, _, _, impossible, _⟩
  · obtain ⟨tag', name', type', same, _⟩ := shapedInner.2.2.1 param isParam
    exact ⟨tag', name', type', same⟩
  · cases impossible

theorem PlainParams.inner {node inner : Node Tag} (plain : PlainParams node)
    (inside : inner ∈ node.preorder) : PlainParams inner :=
  fun tag name params body type member =>
    plain tag name params body type (Node.preorder_subset inside member)

/-- Every function inside a task is lowered with it. The rest of a merged statement is not lowered,
but it has no functions inside either. -/
theorem Lowers.contains {task : Task} {all : List (Node Tag)} {tag : Tag} {name : String}
    {params : List (Node Tag)} {body : Node Tag} {type : Option String}
    (plain : ∀ node ∈ all, PlainParams node) (lowers : Lowers env s task code s')
    (sub : task.nodes ⊆ all) (inside : .define tag name params body type ∈ task.nodes) :
    Contains env s code (.define tag name params body type) := by
  induction lowers with
  | literal | nothing | readSlot | readEntry => simp [Task.nodes, Node.preorder] at inside
  | program _ ih | block _ ih =>
    simp only [Task.nodes, Node.preorder, List.cons_subset, List.mem_cons, reduceCtorEq, false_or]
      at sub inside
    exact ih sub.2 inside
  | define address noted lowered ih =>
    simp only [Task.nodes, Node.preorder, List.cons_subset, List.append_subset, List.mem_cons,
      List.mem_append] at sub inside
    rcases inside with same | inParams | inBody
    · cases same
      exact ⟨_, _, _, _, _, [], [], rfl, rfl, Shrinks.refl _,
        (Lowers.define address noted lowered).done, by simp⟩
    · obtain ⟨param, isParam, inParam⟩ := Node.mem_preorderAll.mp inParams
      obtain ⟨_, _, _, rfl⟩ := plain _ sub.1 _ _ _ _ _ (Node.self_mem_preorder _) param isParam
      simp [Node.preorder] at inParam
    · exact (ih sub.2.2 inBody).widen rfl rfl (Given.of_register _).shrinks _ _
  | declare _ _ ih | assign _ _ _ _ _ ih =>
    simp only [Task.nodes, Node.preorder, List.cons_subset, List.mem_cons, reduceCtorEq, false_or]
      at sub inside
    exact (ih sub.2 inside).append _
  | branch loweredPred loweredYes _ ihPred ihYes ihNo =>
    simp only [Task.nodes, Node.preorder, List.cons_subset, List.append_subset, List.mem_cons,
      List.mem_append, reduceCtorEq, false_or] at sub inside
    obtain ⟨_, ⟨subPred, subYes⟩, subNo⟩ := sub
    have toYes := loweredPred.given.1.trans (Shrinks.withoutNumbers _)
    rcases inside with (inPred | inYes) | inNo
    · exact (((((ihPred subPred inPred).append _).append _).append _).append _).append _
    · exact (((ihYes subYes inYes).widen rfl rfl toYes _ _).append _).append _
    · exact (ihNo subNo inNo).widen rfl rfl (toYes.trans loweredYes.given.1) _ _
  | loop loweredPred _ ihPred ihBody =>
    simp only [Task.nodes, Node.preorder, List.cons_subset, List.append_subset, List.mem_cons,
      List.mem_append, reduceCtorEq, false_or] at sub inside
    rcases inside with inPred | inBody
    · exact (((ihPred sub.2.1 inPred).widen rfl rfl (Shrinks.withoutNumbers _) _ _).append _).append _
    · exact (ihBody sub.2.2 inBody).widen rfl rfl
        ((Shrinks.withoutNumbers _).trans loweredPred.given.1) _ _
  | binary _ loweredLeft _ ihLeft ihRight =>
    simp only [Task.nodes, Node.preorder, List.cons_subset, List.append_subset, List.mem_cons,
      List.mem_append, reduceCtorEq, false_or] at sub inside
    rcases inside with inLeft | inRight
    · exact ((ihLeft sub.2.1 inLeft).append _).append _
    · exact (ihRight sub.2.2 inRight).widen rfl rfl loweredLeft.given.1 _ _
  | call _ _ _ _ ih =>
    simp only [Task.nodes, Node.preorder, List.cons_subset, List.append_subset, List.mem_cons,
      List.mem_append, List.not_mem_nil, reduceCtorEq, or_self, false_or] at sub inside
    exact (ih sub.2.2 inside).append _
  | aggregate _ ih =>
    simp only [Task.nodes, Node.preorder, List.cons_subset, List.mem_cons, reduceCtorEq, false_or]
      at sub inside
    exact (ih sub.2 inside).append _
  | noValues | noStatements => cases inside
  | moreValues lowered _ ih ihOthers | moreStatements _ lowered _ ih ihOthers =>
    simp only [Task.nodes, Node.preorderAll, List.append_subset, List.mem_append] at sub inside
    rcases inside with inFirst | inRest
    · exact (ih sub.1 inFirst).append _
    · simpa using (ihOthers sub.2 inRest).widen rfl rfl lowered.given.1 _ []
  | merged noop _ ih =>
    obtain ⟨_, rfl⟩ := Node.eq_leaf_of_isNoop noop
    simp only [Task.nodes, Node.preorderAll, Node.preorder, List.append_subset, List.mem_append,
      List.mem_singleton, reduceCtorEq, false_or] at sub inside
    exact ih sub.2 inside

/-- Every function inside a lowered node is lowered with it. -/
theorem contains_function {node : Node Tag} {reg : Nat} {tag : Tag} {name : String}
    {params : List (Node Tag)} {body : Node Tag} {type : Option String}
    (success : visit env node s = .ok reg code s') (plain : PlainParams node)
    (inside : .define tag name params body type ∈ node.preorder) :
    Contains env s code (.define tag name params body type) :=
  (lowers_visit success).contains (fun _ member => plain.inner member) (List.Subset.refl _) inside

end ScriptVM.Lowering
