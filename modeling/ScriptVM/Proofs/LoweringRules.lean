import ScriptVM.Proofs.Evaluation
import ScriptVM.Proofs.Lowered
import ScriptVM.Proofs.Trees

/-!
Lowering as a system of rules, one for each kind of node.

Lowering is three functions that call each other: on a node, on nodes that each have a value, and on
statements. The rules are about all three at once, so that a property of lowered code is proved by
one induction with a case for each rule. They are no more and no less than what lowering does: what is
lowered is lowered by the rules, and what the rules allow is done by lowering.
-/
namespace ScriptVM.Lowering

/-- What is to be lowered, with the registers in which values are left. -/
inductive Task where
  | value (node : Node Tag) (reg : Nat)
  | values (nodes : List (Node Tag)) (regs : List Nat)
  /-- Statements after one whose value is in the first register. Only the last value is of use. -/
  | statements (last : Option Nat) (nodes : List (Node Tag)) (last' : Option Nat)

namespace Task

/-- What holds of each of the nodes that a task itself is about. -/
def Each (holds : Node Tag → Prop) : Task → Prop
  | value node _ => holds node
  | values nodes _ | statements _ nodes _ => ∀ node ∈ nodes, holds node

/-- All nodes of a task, inner ones as well. -/
def nodes : Task → List (Node Tag)
  | value node _ => node.preorder
  | values nodes _ | statements _ nodes _ => Node.preorderAll nodes

/-- What holds of the registers in which a task itself leaves values. -/
def Results (holds : Nat → Prop) : Task → Prop
  | value _ reg => holds reg
  | values _ regs => ∀ reg ∈ regs, holds reg
  | statements last _ last' => ∀ reg, last' = some reg → last = some reg ∨ holds reg

variable {holds holds' : Nat → Prop}

theorem Results.mono {task : Task} (results : task.Results holds)
    (implies : ∀ reg, holds reg → holds' reg) : task.Results holds' := by
  cases task with
  | value node reg => exact implies reg results
  | values nodes regs => exact fun reg member => implies reg (results reg member)
  | statements last nodes last' => exact fun reg same => (results reg same).imp_right (implies reg)

/-- The last value is that of one of the statements, if there was none before. -/
theorem Results.last {nodes : List (Node Tag)} {reg : Nat}
    (results : (statements none nodes (some reg)).Results holds) : holds reg :=
  (results reg rfl).resolve_left nofun

/-- Statements after one that has a value. -/
theorem Results.after {here : Nat} {rest : List (Node Tag)} {last last' : Option Nat}
    {node : Node Tag} (first : holds here)
    (others : (statements (some here) rest last').Results holds) :
    (statements last (node :: rest) last').Results holds := by
  intro reg same
  rcases others reg same with found | found
  · cases found
    exact .inr first
  · exact .inr found

/-- Whether lowering does a task, with these instructions. -/
def Done (env : Env) (s : Supply) (code : List Instruction) (s' : Supply) : Task → Prop
  | value node reg => visit env node s = .ok reg code s'
  | values nodes regs => visitAll env nodes s = .ok regs code s'
  | statements last nodes last' => visitStatements env last nodes s = .ok last' code s'

end Task

/-- How an assignment stores: a variable may be given a value again, or once if it was declared
without one. -/
inductive StoreRule : Node Tag → (Nat → Nat → Instruction) → Prop
  | again {tag : Tag} {name : String} {type : Option String} {value : Node Tag} :
      StoreRule (.declare tag .var name type value) .storeSlot
  | once {tag : Tag} {name : String} {type : Option String} {value : Node Tag}
      (isUnit : value.isUnit = true) : StoreRule (.declare tag .val name type value) .storeOnce

/-- The rules of lowering: a task in an environment takes a supply to another one and makes these
instructions. -/
inductive Lowers : Env → Supply → Task → List Instruction → Supply → Prop
  | literal {env : Env} {s : Supply} {tag : Tag} {kind : Leaf} {index : Nat}
      (isLiteral : kind.isLiteral = true)
      (noted : (env.annotations.get tag.id).constant = some index) :
      Lowers env s (.value (.leaf tag kind) s.register) [.loadPool s.register index]
        s.withoutRegister
  | nothing {env : Env} {s : Supply} {tag : Tag} {kind : Leaf}
      (isNothing : kind = .unit ∨ kind = .noop) :
      Lowers env s (.value (.leaf tag kind) s.register) [.loadConst s.register .null]
        s.withoutRegister
  | readSlot {env : Env} {s : Supply} {tag : Tag} {name : String} {declaration : Node Tag}
      {slot : Nat} (found : env.declaration? (.leaf tag (.valueId name)) = some declaration)
      (isVariable : (∃ tag mutability name type value,
          declaration = .declare tag mutability name type value) ∨
        ∃ tag name type, declaration = .param tag name type)
      (owned : env.owns declaration.id) (index : (env.notes declaration).index = some slot) :
      Lowers env s (.value (.leaf tag (.valueId name)) s.register) [.loadSlot s.register slot]
        s.withoutRegister
  | readEntry {env : Env} {s : Supply} {tag tag' : Tag} {name name' : String}
      {params : List (Node Tag)} {body : Node Tag} {type : Option String} {entry : String}
      (found : env.declaration? (.leaf tag (.valueId name)) =
        some (.define tag' name' params body type))
      (address : (env.annotations.get tag'.id).address = some entry) :
      Lowers env s (.value (.leaf tag (.valueId name)) s.register)
        [.loadAddress s.register (.label entry)] s.withoutRegister
  | program {env : Env} {s s' : Supply} {tag : Tag} {name : String} {body : List (Node Tag)}
      {reg : Nat} {code : List Instruction}
      (lowered : Lowers env s (.statements none body (some reg)) code s') :
      Lowers env s (.value (.program tag name body) reg) code s'
  | block {env : Env} {s s' : Supply} {tag : Tag} {body : List (Node Tag)} {reg : Nat}
      {code : List Instruction}
      (lowered : Lowers env s (.statements none body (some reg)) code s') :
      Lowers env s (.value (.block tag body) reg) code s'
  | define {env : Env} {s s' : Supply} {tag : Tag} {name : String} {params : List (Node Tag)}
      {body : Node Tag} {type : Option String} {entry : String} {locals : Locals} {last : Nat}
      {inner : List Instruction} (address : (env.annotations.get tag.id).address = some entry)
      (noted : (env.annotations.get tag.id).locals = some locals)
      (lowered : Lowers { env with owner := tag.id, stem := entry } s.withoutRegister
        (.value body last) inner s') :
      Lowers env s (.value (.define tag name params body type) s.register)
        (functionCode s.register entry locals.size
          (List.range' (s.register + 1) (s'.register - (s.register + 1))) inner last) s'
  | declare {env : Env} {s s' : Supply} {tag : Tag} {mutability : Mutability} {name : String}
      {type : Option String} {value : Node Tag} {reg slot : Nat} {inner : List Instruction}
      (lowered : Lowers env s (.value value reg) inner s')
      (index : (env.annotations.get tag.id).index = some slot) :
      Lowers env s (.value (.declare tag mutability name type value) reg)
        (inner ++ [.storeSlot reg slot]) s'
  | assign {env : Env} {s s' : Supply} {tag : Tag} {name : String} {value declaration : Node Tag}
      {store : Nat → Nat → Instruction} {reg slot : Nat} {inner : List Instruction}
      (found : env.declaration? (.assign tag name value) = some declaration)
      (isStore : StoreRule declaration store) (owned : env.owns declaration.id)
      (index : (env.notes declaration).index = some slot)
      (lowered : Lowers env s (.value value reg) inner s') :
      Lowers env s (.value (.assign tag name value) reg) (inner ++ [store reg slot]) s'
  | branch {env : Env} {s s₁ s₂ s₃ : Supply} {tag : Tag} {pred yes no : Node Tag}
      {test left right : Nat} {before first second : List Instruction}
      (loweredPred : Lowers env s (.value pred test) before s₁)
      (loweredYes : Lowers env s₁.withoutNumber.withoutNumber (.value yes left) first s₂)
      (loweredNo : Lowers env s₂ (.value no right) second s₃) :
      Lowers env s (.value (.branch tag pred yes no) s₃.register)
        (before ++
          [.unset [left, right], .branchZero test (.label (env.label s₁.number "else"))] ++ first ++
          [.jump (.label (env.label (s₁.number + 1) "end")),
            .label (env.label s₁.number "else")] ++ second ++
          [.label (env.label (s₁.number + 1) "end"), .phi s₃.register left right])
        s₃.withoutRegister
  | loop {env : Env} {s s₁ s₂ : Supply} {tag : Tag} {pred body : Node Tag} {test last : Nat}
      {first second : List Instruction}
      (loweredPred : Lowers env s.withoutNumber.withoutNumber (.value pred test) first s₁)
      (loweredBody : Lowers env s₁ (.value body last) second s₂) :
      Lowers env s (.value (.loop tag pred body) s₂.register)
        ([.label (env.label s.number "begin")] ++ first ++
          [.branchZero test (.label (env.label (s.number + 1) "end"))] ++ second ++
          [.jump (.label (env.label s.number "begin")), .label (env.label (s.number + 1) "end"),
            .loadConst s₂.register .null])
        s₂.withoutRegister
  | binary {env : Env} {s s₁ s₂ : Supply} {tag : Tag} {op : String} {left right : Node Tag}
      {instruction : Nat → Nat → Nat → Instruction} {a b : Nat} {first second : List Instruction}
      (isOp : operation? op = some instruction)
      (loweredLeft : Lowers env s (.value left a) first s₁)
      (loweredRight : Lowers env s₁ (.value right b) second s₂) :
      Lowers env s (.value (.binary tag op left right) s₂.register)
        (first ++ second ++ [instruction s₂.register a b]) s₂.withoutRegister
  | call {env : Env} {s s₁ : Supply} {tag tag' tag'' : Tag} {name name' : String}
      {args params : List (Node Tag)} {body : Node Tag} {type : Option String} {entry : String}
      {regs : List Nat} {inner : List Instruction}
      (found : env.declaration? (.leaf tag' (.valueId name)) =
        some (.define tag'' name' params body type))
      (count : params.length = args.length)
      (address : (env.annotations.get tag''.id).address = some entry)
      (lowered : Lowers env s (.values args regs) inner s₁) :
      Lowers env s (.value (.call tag (.leaf tag' (.valueId name)) args none) s₁.register)
        (inner ++ [.call (.label entry) regs, .copy s₁.register resultReg]) s₁.withoutRegister
  | aggregate {env : Env} {s s₁ : Supply} {tag : Tag} {kind : Aggregate}
      {elements : List (Node Tag)} {regs : List Nat} {inner : List Instruction}
      (lowered : Lowers env s (.values elements regs) inner s₁) :
      Lowers env s (.value (.aggregate tag kind elements) s₁.register)
        (inner ++ .newChunk s₁.register regs.length :: cellStores s₁.register 0 regs)
        s₁.withoutRegister
  | noValues {env : Env} {s : Supply} : Lowers env s (.values [] []) [] s
  | moreValues {env : Env} {s s₁ s' : Supply} {node : Node Tag} {rest : List (Node Tag)}
      {reg : Nat} {regs : List Nat} {before after : List Instruction}
      (lowered : Lowers env s (.value node reg) before s₁)
      (others : Lowers env s₁ (.values rest regs) after s') :
      Lowers env s (.values (node :: rest) (reg :: regs)) (before ++ after) s'
  | noStatements {env : Env} {s : Supply} {last : Option Nat} :
      Lowers env s (.statements last [] last) [] s
  | merged {env : Env} {s s' : Supply} {node : Node Tag} {rest : List (Node Tag)}
      {last last' : Option Nat} {code : List Instruction} (noop : node.isNoop = true)
      (others : Lowers env s (.statements last rest last') code s') :
      Lowers env s (.statements last (node :: rest) last') code s'
  | moreStatements {env : Env} {s s₁ s' : Supply} {node : Node Tag} {rest : List (Node Tag)}
      {last last' : Option Nat} {here : Nat} {before after : List Instruction}
      (real : node.isNoop = false) (lowered : Lowers env s (.value node here) before s₁)
      (others : Lowers env s₁ (.statements (some here) rest last') after s') :
      Lowers env s (.statements last (node :: rest) last') (before ++ after) s'

variable {env : Env} {s s' : Supply} {code : List Instruction}

section FromLowering

section Lists

variable {nodes : List (Node Tag)}
  (each : ∀ node ∈ nodes, ∀ {s s' : Supply} {reg : Nat} {code : List Instruction},
    visit env node s = .ok reg code s' → Lowers env s (.value node reg) code s')

include each

private theorem lowers_values {regs : List Nat} (success : visitAll env nodes s = .ok regs code s') :
    Lowers env s (.values nodes regs) code s' := by
  induction nodes generalizing s code regs with
  | nil =>
    obtain ⟨rfl, rfl, rfl⟩ := visitAll_nil_ok success
    exact .noValues
  | cons node rest ih =>
    obtain ⟨_, _, _, _, _, lowered, loweredRest, rfl, rfl⟩ := visitAll_cons_ok success
    exact .moreValues (each node (by simp) lowered)
      (ih (fun other member => each other (by simp [member])) loweredRest)

private theorem lowers_statements {last last' : Option Nat}
    (success : visitStatements env last nodes s = .ok last' code s') :
    Lowers env s (.statements last nodes last') code s' := by
  induction nodes generalizing s code last with
  | nil =>
    obtain ⟨rfl, rfl, rfl⟩ := visitStatements_nil_ok success
    exact .noStatements
  | cons node rest ih =>
    have eachRest := fun other (member : other ∈ rest) => @each other (by simp [member])
    rcases visitStatements_cons_ok success with
      ⟨noop, loweredRest⟩ | ⟨real, _, _, _, _, lowered, loweredRest, rfl⟩
    · exact .merged noop (ih eachRest loweredRest)
    · exact .moreStatements real (each node (by simp) lowered) (ih eachRest loweredRest)

end Lists

/-- Lowering goes by the rules. -/
theorem lowers_visit {node : Node Tag} {reg : Nat} (success : visit env node s = .ok reg code s') :
    Lowers env s (.value node reg) code s' := by
  induction node using Node.childInduction generalizing env s s' reg code with
  | step node ih =>
    cases node with
    | leaf tag kind =>
      cases kind with
      | int text | real text | bool text =>
        rw [visit] at success
        obtain ⟨index, noted, rfl, rfl, rfl⟩ := literal_ok success
        exact .literal rfl noted
      | valueId name =>
        rw [visit] at success
        obtain ⟨declaration, found, rfl, rfl, isSlot | isFunction⟩ := reference_ok success
        · obtain ⟨isVariable, owned, slot, index, rfl⟩ := isSlot
          exact .readSlot found isVariable owned index
        · obtain ⟨⟨_, _, _, _, _, rfl⟩, entry, address, rfl⟩ := isFunction
          exact .readEntry found address
      | unit =>
        rw [visit] at success
        obtain ⟨rfl, rfl, rfl⟩ := nothing_ok success
        exact .nothing (.inl rfl)
      | noop =>
        rw [visit] at success
        obtain ⟨rfl, rfl, rfl⟩ := nothing_ok success
        exact .nothing (.inr rfl)
      | typeId name | symbolId name =>
        rw [visit] at success
        exact absurd success fail_ok
    | param tag name type | orElse tag body =>
      rw [visit] at success
      exact absurd success fail_ok
    | program tag name body =>
      exact .program (lowers_statements (fun child member => ih child member)
        (visit_program_ok success))
    | block tag body =>
      exact .block (lowers_statements (fun child member => ih child member)
        (visit_block_ok success))
    | define tag name params body type =>
      obtain ⟨_, _, _, _, address, noted, rfl, lowered, rfl⟩ := visit_define_ok success
      exact .define address noted (ih body (by simp [Node.children]) lowered)
    | declare tag mutability name type value =>
      obtain ⟨_, _, lowered, index, rfl⟩ := visit_declare_ok success
      exact .declare (ih value (by simp [Node.children]) lowered) index
    | assign tag name value =>
      obtain ⟨_, _, _, _, found, ⟨_, _, _, _, isStore⟩, owned, index, lowered, rfl⟩ :=
        visit_assign_ok success
      have inValue := ih value (by simp [Node.children]) lowered
      rcases isStore with ⟨rfl, rfl⟩ | ⟨rfl, isUnit, rfl⟩
      · exact .assign found .again owned index inValue
      · exact .assign found (.once isUnit) owned index inValue
    | branch tag pred yes no =>
      obtain ⟨_, _, _, _, _, _, _, _, _, loweredPred, loweredYes, loweredNo, rfl, rfl, rfl⟩ :=
        visit_branch_ok success
      exact .branch (ih pred (by simp [Node.children]) loweredPred)
        (ih yes (by simp [Node.children]) loweredYes) (ih no (by simp [Node.children]) loweredNo)
    | loop tag pred body =>
      obtain ⟨_, _, _, _, _, _, loweredPred, loweredBody, rfl, rfl, rfl⟩ := visit_loop_ok success
      exact .loop (ih pred (by simp [Node.children]) loweredPred)
        (ih body (by simp [Node.children]) loweredBody)
    | binary tag op left right =>
      obtain ⟨_, _, _, _, _, _, _, isOp, loweredLeft, loweredRight, rfl, rfl, rfl⟩ :=
        visit_binary_ok success
      exact .binary isOp (ih left (by simp [Node.children]) loweredLeft)
        (ih right (by simp [Node.children]) loweredRight)
    | call tag callee args trailing =>
      obtain ⟨rfl, ⟨_, _, rfl⟩, _, _, _, _, ⟨_, _, _, _, _, found, count, address⟩, lowered, rfl,
        rfl, rfl⟩ := visit_call_ok success
      exact .call found count address (lowers_values
        (fun child member => ih child (by simp [Node.children, member])) lowered)
    | aggregate tag kind elements =>
      obtain ⟨_, _, _, lowered, rfl, rfl, rfl⟩ := visit_aggregate_ok success
      exact .aggregate (lowers_values (fun child member => ih child member) lowered)

theorem lowers_visitAll {nodes : List (Node Tag)} {regs : List Nat}
    (success : visitAll env nodes s = .ok regs code s') :
    Lowers env s (.values nodes regs) code s' :=
  lowers_values (fun _ _ => lowers_visit) success

theorem lowers_visitStatements {nodes : List (Node Tag)} {last last' : Option Nat}
    (success : visitStatements env last nodes s = .ok last' code s') :
    Lowers env s (.statements last nodes last') code s' :=
  lowers_statements (fun _ _ => lowers_visit) success

end FromLowering

section ToLowering

theorem StoreRule.storeOf {declaration : Node Tag} {store : Nat → Nat → Instruction}
    (rule : StoreRule declaration store) (name : String) (span : Span) :
    storeOf declaration name span s = .ok store [] s := by
  cases rule with
  | again => rfl
  | once isUnit => simp [Lowering.storeOf, isUnit, result]

theorem calleeOf_define {tag tag' : Tag} {name name' : String} {params : List (Node Tag)}
    {body : Node Tag} {type : Option String} {entry : String}
    (found : env.declaration? (.leaf tag (.valueId name)) =
      some (.define tag' name' params body type))
    (address : (env.annotations.get tag'.id).address = some entry) (span : Span) :
    calleeOf env (.leaf tag (.valueId name)) params.length false span s = .ok entry [] s := by
  refine require_bind_ok.mpr ⟨_, found, ?_⟩
  show (if params.length = params.length then entryOf env _ else _) s = _
  rw [if_pos rfl]
  exact require_ok.mpr ⟨address, rfl, rfl⟩

/-- What the rules allow is done by lowering. -/
theorem Lowers.done {task : Task} (lowers : Lowers env s task code s') :
    task.Done env s code s' := by
  induction lowers with
  | @literal _ _ _ kind _ isLiteral noted =>
    cases kind with
    | int | real | bool =>
      exact require_bind_ok.mpr ⟨_, noted, (fresh_bind _).trans (emit_bind_ok.mpr ⟨[], rfl, rfl⟩)⟩
    | _ => cases isLiteral
  | nothing isNothing =>
    rcases isNothing with rfl | rfl
    · rfl
    · rfl
  | readSlot found isVariable owned index =>
    refine require_bind_ok.mpr ⟨_, found, ?_⟩
    rcases isVariable with ⟨_, _, _, _, _, rfl⟩ | ⟨_, _, _, rfl⟩
    · exact slotOf_bind_ok.mpr ⟨owned, _, index,
        (fresh_bind _).trans (emit_bind_ok.mpr ⟨[], rfl, rfl⟩)⟩
    · exact slotOf_bind_ok.mpr ⟨owned, _, index,
        (fresh_bind _).trans (emit_bind_ok.mpr ⟨[], rfl, rfl⟩)⟩
  | readEntry found address =>
    refine require_bind_ok.mpr ⟨_, found, ?_⟩
    exact require_bind_ok.mpr ⟨_, address,
      (fresh_bind _).trans (emit_bind_ok.mpr ⟨[], rfl, rfl⟩)⟩
  | program _ ih | block _ ih =>
    rw [Task.Done, visit]
    exact bind_ok.mpr ⟨_, _, _, [], ih, rfl, (List.append_nil _).symm⟩
  | define address noted _ ih =>
    rw [Task.Done, visit]
    refine require_bind_ok.mpr ⟨_, address, require_bind_ok.mpr ⟨_, noted, ?_⟩⟩
    rw [fresh_bind]
    refine emit_bind_ok.mpr ⟨_, (mark_bind _).trans (bind_ok.mpr ?_), rfl⟩
    exact ⟨(_, _), _, _, _, precededBy_ok.mpr ⟨_, bind_ok.mpr ⟨_, _, _, [], ih, rfl, rfl⟩, rfl⟩,
      emit_bind_ok.mpr ⟨[], rfl, rfl⟩, by simp [RegisterSupply.since]⟩
  | declare _ index ih =>
    rw [Task.Done, visit]
    exact bind_ok.mpr ⟨_, _, _, _, ih,
      require_bind_ok.mpr ⟨_, index, emit_bind_ok.mpr ⟨[], rfl, rfl⟩⟩, rfl⟩
  | @assign _ _ _ tag name _ _ _ _ _ _ found isStore owned index _ ih =>
    rw [Task.Done, visit]
    refine require_bind_ok.mpr ⟨_, found, ?_⟩
    rw [bind_of_silent (isStore.storeOf name tag.span)]
    refine slotOf_bind_ok.mpr ⟨owned, _, index, ?_⟩
    exact bind_ok.mpr ⟨_, _, _, _, ih, emit_bind_ok.mpr ⟨[], rfl, rfl⟩, rfl⟩
  | branch _ _ _ ihPred ihYes ihNo =>
    rw [Task.Done, visit]
    exact bind_ok.mpr ⟨_, _, _, _, ihPred,
      (freshLabel_bind _ _).trans ((freshLabel_bind _ _).trans (bind_ok.mpr ⟨(_, _), _, _, _,
        precededBy_ok.mpr ⟨_, emit_bind_ok.mpr ⟨_, bind_ok.mpr ⟨_, _, _, _, ihYes,
          emit_bind_ok.mpr ⟨_, bind_ok.mpr ⟨_, _, _, _, ihNo, rfl, rfl⟩, rfl⟩, rfl⟩, rfl⟩, rfl⟩,
        rfl, rfl⟩)), by simp⟩
  | loop _ _ ihPred ihBody =>
    rw [Task.Done, visit, freshLabel_bind, freshLabel_bind]
    exact emit_bind_ok.mpr ⟨_, bind_ok.mpr ⟨_, _, _, _, ihPred, emit_bind_ok.mpr ⟨_,
      bind_ok.mpr ⟨_, _, _, _, ihBody, rfl, rfl⟩, rfl⟩, rfl⟩, by simp⟩
  | binary isOp _ _ ihLeft ihRight =>
    rw [Task.Done, visit, isOp]
    exact bind_ok.mpr ⟨_, _, _, _, ihLeft, bind_ok.mpr ⟨_, _, _, _, ihRight, rfl, rfl⟩, by simp⟩
  | @call _ _ _ tag _ _ _ _ _ _ _ _ _ _ _ found count address _ ih =>
    rw [Task.Done, visit, ← count, Option.isSome_none,
      bind_of_silent (calleeOf_define found address tag.span)]
    exact bind_ok.mpr ⟨_, _, _, _, ih, emit_bind_ok.mpr ⟨_, rfl, rfl⟩, rfl⟩
  | aggregate _ ih =>
    rw [Task.Done, visit]
    exact bind_ok.mpr ⟨_, _, _, _, ih,
      (fresh_bind _).trans (emit_bind_ok.mpr ⟨[], rfl, rfl⟩), by simp⟩
  | noValues => rfl
  | moreValues _ _ ih ihOthers =>
    rw [Task.Done, visitAll]
    exact bind_ok.mpr ⟨_, _, _, _, ih, bind_ok.mpr ⟨_, _, _, [], ihOthers, rfl, rfl⟩, by simp⟩
  | noStatements => rfl
  | merged noop _ ih =>
    rw [Task.Done, visitStatements, if_pos noop]
    exact ih
  | moreStatements real _ _ ih ihOthers =>
    rw [Task.Done, visitStatements, if_neg (by simp [real])]
    exact bind_ok.mpr ⟨_, _, _, _, ih, ihOthers, rfl⟩

end ToLowering

/-- Every node has a value of its own. -/
theorem Lowers.length_values {nodes : List (Node Tag)} {regs : List Nat}
    (lowers : Lowers env s (.values nodes regs) code s') : regs.length = nodes.length := by
  induction nodes generalizing s code regs with
  | nil =>
    cases lowers
    rfl
  | cons node rest ih =>
    cases lowers with
    | moreValues _ others => simp [ih others]

end ScriptVM.Lowering
