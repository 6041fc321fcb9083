import ScriptVM.Proofs.Progress

/-!
The instructions of a node do what the node evaluates to.

One theorem for each kind of node says so given that it holds of the node's children, and given that
calls do what `invoke` does. The registers given to a node keep apart what its children leave; an
`if` unsets the registers of both its halves first, so that afterwards exactly one of them is
written; a loop goes round once for each repetition of the evaluation.
-/
namespace ScriptVM

open Assembly (Placed placed_append placed_tail width width_append width_nil width_snoc width_step)
open Evaluation (State Eval eval evalAll evalStatements expect settle readVar writeVar writeOnce
  repeatWhile)
open Lowering (visit visitAll visitStatements given_visit)
open Scoping (InScope InScopeAll InScopeStatements)

/-- The machine is back after a call: nothing changed but the heap and the register of results. -/
def Returned (m : Machine) (before : State) (value : Value) (after : State) (m' : Machine) : Prop :=
  after.vars = before.vars ∧ ∃ registers,
    m' = { m with pc := m.pc + 1, registers, heap := after.heap } ∧
    registers.read resultReg = some value ∧
    ∀ reg, reg ≠ resultReg → registers.read reg = m.registers.read reg

/-- The functions of a program do what `invoke` says. -/
def Invokes (image : Image) (fuel : Nat)
    (invoke : List (Node Tag) → Node Tag → List Value → Eval Value) : Prop :=
  ∀ {locals : Locals} {tag : Tag} {name : String} {params : List (Node Tag)} {body : Node Tag}
    {type : Option String} {values : List Value} {regs : List Nat} {state : State} {m : Machine},
    .define tag name params body type ∈ image.nodes → params.length = values.length →
    Mirrors image locals state m →
    m.code[m.pc]? =
      some (.call (.address (image.annotations.entry image.table tag.id)) regs) →
    regs.map m.registers.read = values.map some →
    Agrees fuel (Returned m state) m (invoke params body values state)

/-- The value of every literal stands in the pool, at the place noted with the literal. -/
def Image.HoldsLiterals (image : Image) : Prop :=
  ∀ tag kind, .leaf tag kind ∈ image.nodes → kind.isLiteral = true →
    ∃ index value, (image.annotations.get tag.id).constant = some index ∧
      kind.literal? = some value ∧ image.pool[index]? = some value

/-- Lowering goes on in a function whose frame is known. -/
structure Setting (image : Image) (locals : Locals) (env : Lowering.Env) : Prop where
  nodes : env.nodes = image.nodes
  annotations : env.annotations = image.annotations
  frame : image.Frame env.owner locals

/-- A node stands in a function with this frame, where these variables have values. -/
structure Stands (image : Image) (locals : Locals) (known : List Nat) (node : Node Tag) :
    Prop where
  inside : node.preorder ⊆ image.nodes
  declared : Scoping.declared node ⊆ locals.ids
  inScope : InScope image.binding locals.ids known node

theorem Stands.child {image : Image} {locals : Locals} {known : List Nat} {node child : Node Tag}
    (stands : Stands image locals known node) (member : child ∈ node.children)
    (plain : Scoping.isFunction node = false)
    (inScope : InScope image.binding locals.ids known child) :
    Stands image locals known child where
  inside _ below := stands.inside (Node.preorder_subset_of_child member below)
  declared _ below := stands.declared (Scoping.declared_subset_of_child member plain below)
  inScope := inScope

section

variable {image : Image} {locals : Locals} {env : Lowering.Env} {fuel : Nat}
  {invoke : List (Node Tag) → Node Tag → List Value → Eval Value}

/-- The instructions of a node do what it evaluates to, wherever it is lowered in this function. -/
def Simulates (image : Image) (locals : Locals) (env : Lowering.Env) (fuel : Nat)
    (invoke : List (Node Tag) → Node Tag → List Value → Eval Value) (node : Node Tag) : Prop :=
  ∀ {known : List Nat} {s s' : Lowering.Supply} {reg : Nat} {code : List Instruction}
    {state : State} {m : Machine},
    Stands image locals known node → visit env node s = .ok reg code s' → 1 ≤ s.register →
    Placed image.table image.code m.pc code → (∀ id ∈ known, (state.vars id).isSome) →
    Mirrors image locals state m →
    Agrees fuel
      (Done image locals node s.register s'.register reg (m.pc + width code) state m) m
      (eval image.env fuel invoke node state)

section Names

/-- The declaration that lowering finds is the one that evaluation finds. -/
theorem declaration?_eq (setting : Setting image locals env) (use : Node Tag) :
    image.env.declaration? use.id = env.declaration? use := by
  have find : env.find? = fun id => image.nodes.find? fun node => node.id == id := by
    funext id
    rw [Lowering.Env.find?, setting.nodes]
  rw [Evaluation.Env.declaration?, Lowering.Env.declaration?, Lowering.Env.notes, find,
    setting.annotations]
  rfl

/-- A declaration that is found is a node of the program, and the use is noted with it. -/
theorem declaration?_spec (setting : Setting image locals env) {use declaration : Node Tag}
    (found : env.declaration? use = some declaration) :
    image.binding use.id = some declaration.id ∧ declaration ∈ image.nodes := by
  simp only [Lowering.Env.declaration?, Option.bind_eq_some_iff] at found
  obtain ⟨id, bound, found⟩ := found
  obtain ⟨member, same⟩ := Node.of_find?_id found
  rw [setting.nodes] at member
  simp only [Lowering.Env.notes, setting.annotations] at bound
  exact ⟨by rw [Image.binding, bound, same], member⟩

theorem owns_iff (setting : Setting image locals env) {id : Nat} :
    env.owns id ↔ id ∈ locals.ids := by
  simp only [Lowering.Env.owns, setting.annotations, setting.frame.noted, Option.some.injEq,
    exists_eq_left', Locals.containsNode_iff]

end Names

/-- An instruction that writes a value to the next register ends a node with this value. -/
theorem agrees_write {node : Node Tag} {lo hi pc past : Nat} {before state : State} {m₀ m : Machine}
    {value : Value} {instruction : Instruction} (plain : Scoping.introduced node = [])
    (progress : Progress image locals lo (hi + 1) pc before m₀ state m) (lower : lo ≤ hi)
    (fetch : m.code[m.pc]? = some instruction) (planned : Machine.isPlanned instruction = true)
    (steady : m.Steady instruction) (plan : m.plan instruction = .ok (.write hi (some value)))
    (ends : m.pc + 1 = past) :
    Agrees fuel (Done image locals node lo (hi + 1) hi past before m₀) m (.ok value state) := by
  refine Agrees.execute progress.mirrors.running fetch planned plan steady
    fun _ => Agrees.of_goal ?_
  have written := progress.trans
    (Progress.write progress.mirrors (some value) lower (Nat.lt_succ_self hi))
  exact (written.done (by simp) plain).at_pc ends

section Leaves

variable {tag : Tag}

theorem simulates_literal (setting : Setting image locals env) (literals : image.HoldsLiterals)
    {kind : Leaf} (isLiteral : kind.isLiteral = true)
    (lowered : visit env (.leaf tag kind) = Lowering.literal env (.leaf tag kind))
    (meaning : eval image.env fuel invoke (.leaf tag kind) = expect kind.literal?) :
    Simulates image locals env fuel invoke (.leaf tag kind) := by
  intro known s s' reg code state m stands success positive placed assigned mirrors
  rw [lowered] at success
  obtain ⟨index, noted, rfl, rfl, rfl⟩ := Lowering.literal_ok success
  have member : Node.leaf tag kind ∈ image.nodes := stands.inside (by simp [Node.preorder])
  simp only [Lowering.Env.notes, setting.annotations] at noted
  obtain ⟨index', value, noted', literal, held⟩ := literals tag kind member isLiteral
  have same : index = index' := Option.some.inj (noted.symm.trans noted')
  subst same
  rw [meaning, literal]
  have fetch := fetch_of_placed mirrors.code placed rfl rfl
  have plan : m.plan (.loadPool s.register index) = .ok (.write s.register (some value)) := by
    simp [Machine.plan, mirrors.pool, held]
  exact agrees_write rfl (Progress.refl _ _ mirrors) (Nat.le_refl _) fetch rfl trivial plan
    rfl

theorem simulates_nothing {kind : Leaf} (lowered : visit env (.leaf tag kind) = Lowering.nothing)
    (meaning : eval image.env fuel invoke (.leaf tag kind) = pure .null) :
    Simulates image locals env fuel invoke (.leaf tag kind) := by
  intro known s s' reg code state m stands success positive placed assigned mirrors
  rw [lowered] at success
  obtain ⟨rfl, rfl, rfl⟩ := Lowering.nothing_ok success
  rw [meaning]
  have fetch := fetch_of_placed mirrors.code placed rfl rfl
  exact agrees_write rfl (Progress.refl _ _ mirrors) (Nat.le_refl _) fetch rfl trivial rfl rfl

/-- The slot that a variable of the function is lowered to holds its value. -/
theorem slot_holds (setting : Setting image locals env) {id slot : Nat} {state : State}
    {m : Machine} (mirrors : Mirrors image locals state m) (owned : env.owns id)
    (index : (env.annotations.get id).index = some slot) :
    locals.ids[slot]? = some id ∧ m.stack[m.framePtr + slot + 1]? = some (state.vars id) := by
  rw [setting.annotations] at index
  have found := setting.frame.slot_of_index ((owns_iff setting).mp owned) index
  exact ⟨found, mirrors.slots slot id found⟩

theorem simulates_name (setting : Setting image locals env) {name : String} :
    Simulates image locals env fuel invoke (.leaf tag (.valueId name)) := by
  intro known s s' reg code state m stands success positive placed assigned mirrors
  rw [visit] at success
  obtain ⟨declaration, found, rfl, rfl, kinds⟩ := Lowering.reference_ok success
  obtain ⟨bound, member⟩ := declaration?_spec setting found
  have meaning := declaration?_eq setting (.leaf tag (.valueId name))
  rw [found] at meaning
  rcases kinds with ⟨variableKind, owned, slot, index, rfl⟩ | ⟨functionKind, entry, noted, rfl⟩
  · obtain ⟨_, cell⟩ := slot_holds setting mirrors owned index
    have inKnown : declaration.id ∈ known :=
      stands.inScope declaration.id bound ((owns_iff setting).mp owned)
    obtain ⟨value, holds⟩ := Option.isSome_iff_exists.mp (assigned _ inKnown)
    have evaluated : eval image.env fuel invoke (.leaf tag (.valueId name)) state =
        .ok value state := by
      rcases variableKind with ⟨tag', mutability, name', type, initial, rfl⟩ | ⟨tag', name', type, rfl⟩
      all_goals
        simp only [eval]
        simp only [Node.id, Node.tag] at meaning holds
        simp only [meaning, readVar]
        show (expect (state.vars tag'.id)) state = _
        rw [holds]
        rfl
    rw [evaluated]
    have fetch := fetch_of_placed mirrors.code placed rfl rfl
    rw [holds] at cell
    refine Agrees.of_addressable mirrors.running fetch fun addressable => ?_
    exact agrees_write rfl (Progress.refl _ _ mirrors) (Nat.le_refl _) fetch rfl trivial
      (Machine.plan_loadSlot (Machine.isAddressable_iff.mp addressable).2.1 cell) rfl
  · obtain ⟨tag', name', params, body, type, rfl⟩ := functionKind
    simp only [Lowering.Env.notes, setting.annotations] at noted
    obtain ⟨address, label, fetch⟩ := fetch_of_placed_target mirrors.code placed rfl rfl
    have evaluated : eval image.env fuel invoke (.leaf tag (.valueId name)) state =
        .ok (Machine.ofAddress address) state := by
      rw [← Image.entry_of_label noted label]
      simp only [eval]
      simp only [Node.id, Node.tag] at meaning
      simp only [meaning]
      rfl
    rw [evaluated]
    exact agrees_write rfl (Progress.refl _ _ mirrors) (Nat.le_refl _) fetch rfl trivial rfl rfl

end Leaves

section Variables

variable {tag : Tag}

/-- A function is skipped where it stands; its value is where its code starts. Only one register is
written. -/
theorem agrees_define (setting : Setting image locals env) {name : String}
    {params : List (Node Tag)} {body : Node Tag} {type : Option String} {s s' : Lowering.Supply}
    {reg : Nat} {code : List Instruction} {state : State} {m : Machine}
    (success : visit env (.define tag name params body type) s = .ok reg code s')
    (placed : Placed image.table image.code m.pc code) (mirrors : Mirrors image locals state m) :
    Agrees fuel
      (Done image locals (.define tag name params body type) s.register (s.register + 1) reg
        (m.pc + width code) state m) m
      (eval image.env fuel invoke (.define tag name params body type) state) := by
  obtain ⟨entry, locals', last, inner, noted, _, rfl, lowered, rfl⟩ :=
    Lowering.visit_define_ok success
  rw [setting.annotations] at noted
  have whole := placed
  simp only [Lowering.functionCode, List.cons_append, List.nil_append] at placed
  obtain ⟨address, label, fetch⟩ := fetch_of_placed_target mirrors.code placed rfl rfl
  rw [eval, Image.entry_of_label noted label]
  refine Agrees.execute mirrors.running fetch rfl rfl trivial fun _ => ?_
  have progress := Progress.write mirrors (some (Machine.ofAddress address)) (Nat.le_refl s.register)
    (Nat.lt_succ_self _)
  have placedJump := placed_tail placed rfl
  rw [← progress.pc] at placedJump
  obtain ⟨past, labelPast, fetchJump⟩ :=
    fetch_of_placed_target progress.mirrors.code placedJump rfl rfl
  refine Agrees.execute progress.mirrors.running fetchJump rfl rfl trivial
    fun _ => Agrees.of_goal ?_
  have labelled := (placed_append.mp whole).2
  have samePast : past = m.pc + width (Lowering.functionCode s.register entry locals'.size
      (List.range' (s.register + 1) (s'.register - (s.register + 1))) inner last) := by
    have known := (placed_tail (placed_tail (placed_tail labelled rfl) rfl) rfl).1
    rw [labelPast] at known
    cases known
    simp [Lowering.functionCode, width, Instruction.labelName?]
    omega
  subst samePast
  exact (progress.trans (Progress.goto _ _ _ progress.mirrors)).done (by simp) rfl

theorem simulates_define (setting : Setting image locals env) {name : String}
    {params : List (Node Tag)} {body : Node Tag} {type : Option String} :
    Simulates image locals env fuel invoke (.define tag name params body type) := by
  intro known s s' reg code state m stands success positive placed assigned mirrors
  refine (agrees_define setting success placed mirrors).followed ?_
  intro value state' m' done
  have upper : s.register + 1 ≤ s'.register :=
    Nat.lt_of_le_of_lt (given_visit success).lower (given_visit success).upper
  exact Agrees.of_goal ((done.toProgress.widen (Nat.le_refl _) upper).done done.holds rfl)

/-- Storing what a node left to the slot of a variable, with either instruction that stores. -/
theorem agrees_store (setting : Setting image locals env) {value node : Node Tag}
    {id slot lo hi reg pc : Nat} {inner : List Instruction} {instruction : Instruction} {v : Value}
    {before state : State} {m₀ m : Machine}
    (done : Done image locals value lo hi reg (pc + width inner) before m₀ v state m)
    (found : locals.ids[slot]? = some id)
    (placed : Placed image.table image.code (pc + width inner) [instruction])
    (noLabel : instruction.labelName? = none) (noTarget : instruction.target? = none)
    (planned : Machine.isPlanned instruction = true) (steady : m.Steady instruction)
    (plan : m.stack.size < Machine.addressLimit →
      m.plan instruction = .ok (.store (m.framePtr + slot + 1) v))
    (introduced : ∀ other ∈ Scoping.introduced node, other = id) :
    Agrees fuel
      (Done image locals node lo hi reg (pc + width (inner ++ [instruction])) before m₀) m
      (.ok v { state with vars := fun other => if other = id then some v else state.vars other }) := by
  have fetch := fetch_of_placed done.mirrors.code (placed.at_pc done.pc.symm) noLabel noTarget
  refine Agrees.of_addressable done.mirrors.running fetch fun addressable => ?_
  have plan := plan (Machine.isAddressable_iff.mp addressable).2.1
  refine Agrees.execute done.mirrors.running fetch planned plan steady fun _ => Agrees.of_goal ?_
  refine (done.store setting.frame found introduced).at_pc ?_
  rw [width_snoc inner noLabel, Nat.add_assoc]

theorem simulates_declare (setting : Setting image locals env) {mutability : Mutability}
    {name : String} {type : Option String} {value : Node Tag}
    (ofValue : Simulates image locals env fuel invoke value) :
    Simulates image locals env fuel invoke (.declare tag mutability name type value) := by
  intro known s s' reg code state m stands success positive placed assigned mirrors
  obtain ⟨slot, inner, lowered, index, rfl⟩ := Lowering.visit_declare_ok success
  have standsValue : Stands image locals known value :=
    stands.child (by simp [Node.children]) rfl stands.inScope
  rw [placed_append] at placed
  rw [eval]
  refine (ofValue standsValue lowered positive placed.1 assigned mirrors).bind ?_
  intro v state' m' done
  have member : tag.id ∈ locals.ids := stands.declared (by simp [Scoping.declared])
  obtain ⟨slotFound, cell⟩ :=
    slot_holds setting done.mirrors ((owns_iff setting).mpr member) index
  exact agrees_store setting done slotFound placed.2 rfl rfl rfl trivial
    (Machine.plan_storeSlot · cell done.holds) (by simp [Scoping.introduced])

/-- What assigning once does to a variable that has a value. -/
theorem writeOnce_eq {state : State} {id : Nat} {present : Value} (v : Value)
    (holds : state.vars id = some present) :
    (do writeOnce id v; return v : Eval Value) state =
      if present = .null then
        .ok v { state with vars := fun other => if other = id then some v else state.vars other }
      else .error .alreadyAssigned state := by
  show EStateM.bind (EStateM.bind (expect (state.vars id)) _) _ state = _
  rw [holds]
  cases present <;> rfl

/-- An assignment stores to a slot, and once only if the variable was declared without a value. -/
theorem simulates_assign (setting : Setting image locals env) {name : String} {value : Node Tag}
    (ofValue : Simulates image locals env fuel invoke value) :
    Simulates image locals env fuel invoke (.assign tag name value) := by
  intro known s s' reg code state m stands success positive placed assigned mirrors
  obtain ⟨declaration, store, slot, inner, found, kinds, owned, index, lowered, rfl⟩ :=
    Lowering.visit_assign_ok success
  obtain ⟨bound, _⟩ := declaration?_spec setting found
  have meaning := declaration?_eq setting (.assign tag name value)
  rw [found] at meaning
  simp only [Node.id, Node.tag] at meaning
  have standsValue : Stands image locals known value :=
    stands.child (by simp [Node.children]) rfl stands.inScope.2
  have inKnown : declaration.id ∈ known :=
    stands.inScope.1 declaration.id bound ((owns_iff setting).mp owned)
  have introduced : ∀ other ∈ Scoping.introduced (.assign tag name value), other = declaration.id := by
    simp [Scoping.introduced]
  rw [placed_append] at placed
  have ofValue := ofValue standsValue lowered positive placed.1 assigned mirrors
  obtain ⟨tag', name', type, initial, ⟨rfl, rfl⟩ | ⟨rfl, unit, rfl⟩⟩ := kinds
  · simp only [eval, meaning]
    refine ofValue.bind ?_
    intro v state' m' done
    obtain ⟨slotFound, cell⟩ := slot_holds setting done.mirrors owned index
    exact agrees_store setting done slotFound placed.2 rfl rfl rfl trivial
      (Machine.plan_storeSlot · cell done.holds) introduced
  · simp only [eval, meaning, unit, if_true]
    refine ofValue.bind ?_
    intro v state' m' done
    obtain ⟨slotFound, cell⟩ := slot_holds setting done.mirrors owned index
    obtain ⟨present, holds⟩ :=
      Option.isSome_iff_exists.mp (done.assigned _ (assigned _ inKnown))
    rw [holds] at cell
    simp only [Node.id, Node.tag] at holds
    rw [writeOnce_eq v holds]
    split
    next nothing =>
      refine agrees_store setting done slotFound placed.2 rfl rfl rfl ⟨present, cell⟩ ?_ introduced
      intro fits
      rw [Machine.plan_storeOnce fits cell done.holds, if_pos nothing]
    next something =>
      have fetch := fetch_of_placed done.mirrors.code (placed.2.at_pc done.pc.symm) rfl rfl
      refine Agrees.of_addressable done.mirrors.running fetch fun addressable => ?_
      have fits := (Machine.isAddressable_iff.mp addressable).2.1
      have plan := Machine.plan_storeOnce fits cell done.holds
      rw [if_neg something] at plan
      exact Agrees.execute_fault done.mirrors.running fetch rfl plan ⟨present, cell⟩ ⟨_, rfl⟩
        done.mirrors.heap

end Variables

section Operators

variable {tag : Tag}

/-- The instruction of an operator computes what the operator means. -/
theorem operation_spec {op : String} {instruction : Nat → Nat → Nat → Instruction}
    (supported : Lowering.operation? op = some instruction) :
    ∃ apply, Evaluation.operator? op = some apply ∧
      ((∃ arith, instruction = .arith arith ∧ apply = Arith.apply arith) ∨
        ∃ compare, instruction = .compare compare ∧ apply = Compare.apply compare) := by
  unfold Lowering.operation? at supported
  iterate 5
    rcases ite_eq_iff.mp supported with ⟨rfl, ⟨⟩⟩ | ⟨-, supported⟩
    · exact ⟨_, rfl, .inl ⟨_, rfl, rfl⟩⟩
  iterate 6
    rcases ite_eq_iff.mp supported with ⟨rfl, ⟨⟩⟩ | ⟨-, supported⟩
    · exact ⟨_, rfl, .inr ⟨_, rfl, rfl⟩⟩
  cases supported

theorem operation_plan {op : String} {instruction : Nat → Nat → Nat → Instruction}
    (supported : Lowering.operation? op = some instruction) (dst left right : Nat) :
    (instruction dst left right).labelName? = none ∧ (instruction dst left right).target? = none ∧
      Machine.isPlanned (instruction dst left right) = true ∧
      (∀ m : Machine, m.Steady (instruction dst left right)) ∧
      ∃ apply, Evaluation.operator? op = some apply ∧
        ∀ (m : Machine) (a b : Value), m.registers.read left = some a →
          m.registers.read right = some b →
          m.plan (instruction dst left right) =
            (Machine.valueFault (apply a b)).map fun value => .write dst (some value) := by
  obtain ⟨apply, meaning, ⟨arith, rfl, rfl⟩ | ⟨compare, rfl, rfl⟩⟩ := operation_spec supported
  all_goals
    refine ⟨rfl, rfl, rfl, fun _ => trivial, _, meaning, ?_⟩
    intro m a b readLeft readRight
    simp only [Machine.plan, Machine.read, readLeft, readRight, bind, Except.bind, pure, Except.pure,
      Except.map]

theorem simulates_binary {op : String} {left right : Node Tag}
    (ofLeft : Simulates image locals env fuel invoke left)
    (ofRight : Simulates image locals env fuel invoke right) :
    Simulates image locals env fuel invoke (.binary tag op left right) := by
  intro known s s' reg code state m stands success positive placed assigned mirrors
  obtain ⟨instruction, a, b, first, second, s₁, s₂, supported, loweredLeft, loweredRight, rfl, rfl,
    rfl⟩ := Lowering.visit_binary_ok success
  obtain ⟨noLabel, noTarget, planned, steady, apply, meaning, plan⟩ :=
    operation_plan supported s₂.register a b
  have givenLeft := given_visit loweredLeft
  have givenRight := given_visit loweredRight
  have standsLeft : Stands image locals known left :=
    stands.child (by simp [Node.children]) rfl stands.inScope.1
  have standsRight : Stands image locals known right :=
    stands.child (by simp [Node.children]) rfl stands.inScope.2
  rw [placed_append, placed_append] at placed
  obtain ⟨⟨placedLeft, placedRight⟩, placedOp⟩ := placed
  simp only [eval, meaning]
  refine (ofLeft standsLeft loweredLeft positive placedLeft assigned mirrors).bind ?_
  intro x state₁ m₁ doneLeft
  rw [← doneLeft.pc] at placedRight
  have positive₁ : 1 ≤ s₁.register := Nat.le_trans positive givenLeft.shrinks.registers
  refine (ofRight standsRight loweredRight positive₁ placedRight
    (fun id member => doneLeft.assigned id (assigned id member)) doneLeft.mirrors).bind ?_
  intro y state₂ m₂ doneRight
  have keptLeft : m₂.registers.read a = some x := by
    rw [doneRight.toProgress.read (Nat.le_trans positive givenLeft.lower) (.inl givenLeft.upper),
      doneLeft.holds]
  have planned₂ := plan m₂ x y keptLeft doneRight.holds
  have lower : s.register ≤ s₁.register := givenLeft.shrinks.registers
  have upper : s₁.register ≤ s₂.register := givenRight.shrinks.registers
  have progress := (doneLeft.toProgress.widen (Nat.le_refl _) (Nat.le_succ_of_le upper)).trans
    (doneRight.toProgress.widen lower (Nat.le_succ _))
  have placedHere : Placed image.table image.code m₂.pc [instruction s₂.register a b] := by
    rw [doneRight.pc, doneLeft.pc, Nat.add_assoc, ← width_append]
    exact placedOp
  have fetch := fetch_of_placed doneRight.mirrors.code placedHere noLabel noTarget
  cases outcome : apply x y with
  | error e =>
    rw [outcome] at planned₂
    exact Agrees.execute_fault doneRight.mirrors.running fetch planned planned₂ (steady m₂) rfl
      doneRight.mirrors.heap
  | ok value =>
    rw [outcome] at planned₂
    refine agrees_write rfl progress (Nat.le_trans lower upper) fetch planned (steady m₂) planned₂ ?_
    rw [doneRight.pc, doneLeft.pc, width_snoc _ noLabel, width_append]
    omega

end Operators

section Control

variable {tag : Tag}

/-- A test that goes to a label if the value is zero, and else on. -/
theorem agrees_branchZero {α : Type} {count lo hi test pc address : Nat} {before state : State}
    {m₀ m : Machine} {v : Value} {label : String} {rest : List Instruction}
    {goal : α → State → Machine → Prop} {result : EStateM.Result Stop State α}
    (progress : Progress image locals lo hi pc before m₀ state m)
    (placed : Placed image.table image.code m.pc (.branchZero test (.label label) :: rest))
    (known : image.table.lookup label = some address) (holds : m.registers.read test = some v)
    (next : ∀ pc', pc' = (if v.isZero then address else m.pc + 1) →
      Progress image locals lo hi pc' before m₀ state { m with pc := pc' } →
      Agrees count goal { m with pc := pc' } result) :
    Agrees (count + 1) goal m result := by
  obtain ⟨address', known', fetch⟩ := fetch_of_placed_target progress.mirrors.code placed rfl rfl
  rw [known] at known'
  cases known'
  have forward := fun pc' => progress.trans (Progress.goto lo hi pc' progress.mirrors)
  cases zero : v.isZero with
  | true =>
    have plan : m.plan (.branchZero test (.address address)) = .ok (.goto address) := by
      simp [Machine.plan, Machine.read, holds, Machine.gotoIf, zero, Machine.destination, bind,
        Except.bind, Except.map]
    refine Agrees.execute_counted progress.mirrors.running fetch rfl plan trivial fun _ => ?_
    exact next address (by simp [zero]) (forward address)
  | false =>
    have plan : m.plan (.branchZero test (.address address)) = .ok .skip := by
      simp [Machine.plan, Machine.read, holds, Machine.gotoIf, zero, bind, Except.bind]
    refine Agrees.execute_counted progress.mirrors.running fetch rfl plan trivial fun _ => ?_
    exact next (m.pc + 1) (by simp [zero]) (forward (m.pc + 1))

/-- A jump to a label. -/
theorem agrees_jump {α : Type} {count lo hi pc address : Nat} {before state : State}
    {m₀ m : Machine} {label : String} {rest : List Instruction}
    {goal : α → State → Machine → Prop} {result : EStateM.Result Stop State α}
    (progress : Progress image locals lo hi pc before m₀ state m)
    (placed : Placed image.table image.code m.pc (.jump (.label label) :: rest))
    (known : image.table.lookup label = some address)
    (next : Progress image locals lo hi address before m₀ state { m with pc := address } →
      Agrees count goal { m with pc := address } result) :
    Agrees count goal m result := by
  obtain ⟨address', known', fetch⟩ := fetch_of_placed_target progress.mirrors.code placed rfl rfl
  rw [known] at known'
  cases known'
  refine Agrees.execute progress.mirrors.running fetch rfl rfl trivial
    fun _ => ?_
  exact next (progress.trans (Progress.goto lo hi address progress.mirrors))

/-- Both halves of a branch are joined by the register that is written. -/
theorem agrees_phi {node : Node Tag} {lo hi left right pc past : Nat} {before state : State}
    {m₀ m : Machine} {value : Value} {rest : List Instruction}
    (plain : Scoping.introduced node = [])
    (progress : Progress image locals lo hi pc before m₀ state m) (lower : lo ≤ hi)
    (placed : Placed image.table image.code m.pc (.phi hi left right :: rest))
    (written : m.registers.read left = some value ∧ m.registers.read right = none ∨
      m.registers.read left = none ∧ m.registers.read right = some value)
    (ends : m.pc + 1 = past) :
    Agrees fuel (Done image locals node lo (hi + 1) hi past before m₀) m (.ok value state) := by
  have fetch := fetch_of_placed progress.mirrors.code placed rfl rfl
  have plan : m.plan (.phi hi left right) = .ok (.write hi (some value)) := by
    rcases written with ⟨readLeft, readRight⟩ | ⟨readLeft, readRight⟩ <;>
      simp [Machine.plan, readLeft, readRight]
  exact agrees_write plain (progress.widen (Nat.le_refl _) (Nat.le_succ hi)) lower fetch rfl trivial
    plan ends

/-- Both registers of the halves are unset first, so a value left by an earlier round is not taken
for one. -/
theorem simulates_branch {pred yes no : Node Tag}
    (ofPred : Simulates image locals env fuel invoke pred)
    (ofYes : Simulates image locals env fuel invoke yes)
    (ofNo : Simulates image locals env fuel invoke no) :
    Simulates image locals env fuel invoke (.branch tag pred yes no) := by
  intro known s s' reg code state m stands success positive placed assigned mirrors
  obtain ⟨test, left, right, before, first, second, s₁, s₂, s₃, loweredPred, loweredYes, loweredNo,
    rfl, rfl, rfl⟩ := Lowering.visit_branch_ok success
  have givenPred := given_visit loweredPred
  have givenYes := given_visit loweredYes
  have givenNo := given_visit loweredNo
  have toPred : s.register ≤ s₁.register := givenPred.shrinks.registers
  have toYes : s₁.register ≤ s₂.register := givenYes.shrinks.registers
  have toNo : s₂.register ≤ s₃.register := givenNo.shrinks.registers
  have testLower : s.register ≤ test := givenPred.lower
  have testUpper : test < s₁.register := givenPred.upper
  have leftLower : s₁.register ≤ left := givenYes.lower
  have leftUpper : left < s₂.register := givenYes.upper
  have rightLower : s₂.register ≤ right := givenNo.lower
  have rightUpper : right < s₃.register := givenNo.upper
  have standsPred : Stands image locals known pred :=
    stands.child (by simp [Node.children]) rfl stands.inScope.1
  have standsYes : Stands image locals known yes :=
    stands.child (by simp [Node.children]) rfl stands.inScope.2.1
  have standsNo : Stands image locals known no :=
    stands.child (by simp [Node.children]) rfl stands.inScope.2.2
  simp only [placed_append, width_append, width_step, Instruction.labelName?, Option.isNone_none,
    Option.isNone_some, Bool.toNat_true, Bool.toNat_false, width_nil] at placed ⊢
  obtain ⟨⟨⟨⟨⟨placedPred, placedTest⟩, placedYes⟩, placedJump⟩, placedNo⟩, placedEnd⟩ := placed
  have labelElse := (placed_tail placedJump rfl).1
  have labelEnd := placedEnd.1
  rw [eval]
  refine (ofPred standsPred loweredPred positive placedPred assigned mirrors).bind ?_
  intro v state₁ m₁ donePred
  have known₁ : ∀ id ∈ known, (state₁.vars id).isSome :=
    fun id member => donePred.assigned id (assigned id member)
  have fetchUnset :=
    fetch_of_placed donePred.mirrors.code (placedTest.at_pc donePred.pc.symm) rfl rfl
  refine Agrees.execute donePred.mirrors.running fetchUnset rfl rfl trivial fun _ => ?_
  have toEnd : s.register ≤ s₃.register := by omega
  have within : ∀ reg ∈ [left, right], s.register ≤ reg ∧ reg < s₃.register := by
    simp
    omega
  have unset := (donePred.toProgress.widen (Nat.le_refl _) (by omega)).trans
    (Progress.unset donePred.mirrors within)
  have readTest : (m₁.registers.unset [left, right]).read test = some v := by
    rw [Machine.read_unset, if_neg, donePred.holds]
    simp
    omega
  have readLeft : (m₁.registers.unset [left, right]).read left = none := by
    simp [Machine.read_unset]
  have readRight : (m₁.registers.unset [left, right]).read right = none := by
    simp [Machine.read_unset]
  have placedZero := (placed_tail placedTest rfl).at_pc (by rw [← donePred.pc])
  refine Agrees.fewer (agrees_branchZero unset placedZero labelElse readTest ?_) (Nat.le_succ fuel)
  intro pc' chosen forward
  cases zero : v.isZero with
  | true =>
    simp only [zero, if_true] at chosen
    have pcNo : pc' = m.pc + (width before + (0 + 1 + 1) + width first + (0 + 0 + 1)) := by
      rw [chosen]
      omega
    refine (ofNo standsNo loweredNo (by omega) (placedNo.at_pc pcNo.symm) known₁
      forward.mirrors).followed ?_
    intro value state₂ m₂ doneNo
    have progress := forward.trans (doneNo.toProgress.widen (by omega) (Nat.le_refl _))
    have leftUnset : m₂.registers.read left = none :=
      (doneNo.toProgress.read (by omega) (.inl leftUpper)).trans readLeft
    have pcEnd : m₂.pc = m.pc + (width before + (0 + 1 + 1) + width first + (0 + 0 + 1) +
        width second) := by
      rw [doneNo.pc]
      show pc' + width second = _
      omega
    exact agrees_phi rfl progress toEnd (placedEnd.2.at_pc pcEnd.symm)
      (.inr ⟨leftUnset, doneNo.holds⟩) (by rw [pcEnd]; omega)
  | false =>
    simp only [zero, Bool.false_eq_true, if_false] at chosen
    have pcYes : pc' = m.pc + (width before + (0 + 1 + 1)) := by
      rw [chosen]
      show m₁.pc + 1 + 1 = _
      rw [donePred.pc]
      omega
    refine (ofYes standsYes loweredYes (Nat.le_trans positive toPred) (placedYes.at_pc pcYes.symm)
      known₁ forward.mirrors).followed ?_
    intro value state₂ m₂ doneYes
    have progress := forward.trans (doneYes.toProgress.widen toPred toNo)
    have rightUnset : m₂.registers.read right = none :=
      (doneYes.toProgress.read (by omega) (.inr rightLower)).trans readRight
    have pcJump : m₂.pc = m.pc + (width before + (0 + 1 + 1) + width first) := by
      rw [doneYes.pc]
      show pc' + width first = _
      omega
    refine agrees_jump progress (placedJump.at_pc pcJump.symm) labelEnd ?_
    intro atEnd
    refine agrees_phi rfl atEnd toEnd placedEnd.2 (.inl ⟨doneYes.holds, rightUnset⟩) ?_
    dsimp only
    omega

/-- Each repetition starts at the first label, whatever the repetitions before it changed. -/
theorem simulates_loop {pred body : Node Tag}
    (ofPred : Simulates image locals env fuel invoke pred)
    (ofBody : Simulates image locals env fuel invoke body) :
    Simulates image locals env fuel invoke (.loop tag pred body) := by
  intro known s s' reg code state m stands success positive placed assigned mirrors
  obtain ⟨test, last, first, second, s₁, s₂, loweredPred, loweredBody, rfl, rfl, rfl⟩ :=
    Lowering.visit_loop_ok success
  have givenPred := given_visit loweredPred
  have givenBody := given_visit loweredBody
  have toPred : s.register ≤ s₁.register := givenPred.shrinks.registers
  have toBody : s₁.register ≤ s₂.register := givenBody.shrinks.registers
  have standsPred : Stands image locals known pred :=
    stands.child (by simp [Node.children]) rfl stands.inScope.1
  have standsBody : Stands image locals known body :=
    stands.child (by simp [Node.children]) rfl stands.inScope.2
  simp only [placed_append, width_append, width_step, Instruction.labelName?, Option.isNone_none,
    Option.isNone_some, Bool.toNat_true, Bool.toNat_false, width_nil] at placed ⊢
  obtain ⟨⟨⟨⟨⟨labelBegin, _⟩, placedPred⟩, placedTest⟩, placedBody⟩, placedJump⟩ := placed
  have placedEnd := placed_tail placedJump rfl
  have labelEnd := placedEnd.1
  have start := Progress.refl s.register s₂.withoutRegister.register mirrors
  rw [eval]
  suffices rounds : ∀ count, count ≤ fuel → ∀ state' m',
      Progress image locals s.register s₂.withoutRegister.register m.pc state m state' m' →
      Agrees count (Done image locals (.loop tag pred body) s.register s₂.withoutRegister.register
          s₂.register (m.pc + _) state m) m'
        (repeatWhile (eval image.env fuel invoke pred) (eval image.env fuel invoke body) count
          state') from
    rounds fuel (Nat.le_refl _) state m start
  intro count
  induction count with
  | zero =>
    intro _ state' m' _
    refine ⟨?_, ?_, fun _ _ => .zero m'⟩
    · rintro _ _ ⟨⟩
    · rintro _ _ ⟨⟩ other
      exact absurd rfl other
  | succ count ih =>
    intro enough state' m' progress
    rw [repeatWhile]
    have knownHere : ∀ id ∈ known, (state'.vars id).isSome :=
      fun id member => progress.assigned id (assigned id member)
    have predHere := ofPred standsPred loweredPred positive
      (placedPred.at_pc (by rw [progress.pc]; rfl)) knownHere progress.mirrors
    refine (predHere.fewer enough).bind ?_
    intro v state₁ m₁ donePred
    have sofar := progress.trans (donePred.toProgress.widen (Nat.le_refl _) (by
      show s₁.register ≤ s₂.register + 1
      omega))
    have pcTest : m₁.pc = m.pc + (0 + 0 + width first) := by
      rw [donePred.pc, progress.pc]
      omega
    refine agrees_branchZero sofar (placedTest.at_pc pcTest.symm) labelEnd donePred.holds ?_
    intro pc' chosen forward
    cases zero : v.isZero with
    | true =>
      simp only [zero, if_true] at chosen ⊢
      have fetch := fetch_of_placed forward.mirrors.code (placedEnd.2.at_pc chosen.symm) rfl rfl
      refine agrees_write rfl forward (Nat.le_trans toPred toBody) fetch rfl trivial rfl ?_
      dsimp only
      omega
    | false =>
      simp only [zero, Bool.false_eq_true, if_false] at chosen ⊢
      have pcBody : pc' = m.pc + (0 + 0 + width first + (0 + 1)) := by omega
      have bodyHere := ofBody standsBody loweredBody (Nat.le_trans positive toPred)
        (placedBody.at_pc pcBody.symm)
        (fun id member => donePred.assigned id (knownHere id member)) forward.mirrors
      refine (bodyHere.fewer (Nat.le_of_succ_le enough)).bind ?_
      intro _ state₂ m₂ doneBody
      have further := forward.trans (doneBody.toProgress.widen toPred (Nat.le_succ _))
      have pcJump : m₂.pc = m.pc + (0 + 0 + width first + (0 + 1) + width second) := by
        rw [doneBody.pc]
        show pc' + width second = _
        omega
      refine agrees_jump further (placedJump.at_pc pcJump.symm) labelBegin ?_
      intro again
      exact ih (Nat.le_of_succ_le enough) state₂ _ again

end Control

section Lists

variable {tag : Tag} {known : List Nat} {nodes : List (Node Tag)} {s s' : Lowering.Supply}
  {code : List Instruction} {m : Machine} {state : State}

/-- Several nodes in a row leave each its value. -/
theorem simulates_all {regs : List Nat}
    (each : ∀ node ∈ nodes, Simulates image locals env fuel invoke node)
    (stands : ∀ node ∈ nodes, Stands image locals known node)
    (success : visitAll env nodes s = .ok regs code s') (positive : 1 ≤ s.register)
    (placed : Placed image.table image.code m.pc code)
    (assigned : ∀ id ∈ known, (state.vars id).isSome) (mirrors : Mirrors image locals state m) :
    Agrees fuel (fun values after m' =>
        Progress image locals s.register s'.register (m.pc + width code) state m after m' ∧
        regs.map m'.registers.read = values.map some) m
      (evalAll image.env fuel invoke nodes state) := by
  induction nodes generalizing s code regs m state with
  | nil =>
    obtain ⟨rfl, rfl, rfl⟩ := Lowering.visitAll_nil_ok success
    rw [evalAll]
    exact Agrees.of_goal ⟨Progress.refl _ _ mirrors, rfl⟩
  | cons node rest ih =>
    obtain ⟨first, others, before, after, s₁, lowered, loweredRest, rfl, rfl⟩ :=
      Lowering.visitAll_cons_ok success
    have given := given_visit lowered
    have toRest := (Lowering.lowers_visitAll loweredRest).given.1.registers
    have toFirst := given.shrinks.registers
    rw [placed_append] at placed
    rw [evalAll]
    refine (each node (by simp) (stands node (by simp)) lowered positive placed.1 assigned
      mirrors).bind ?_
    intro v state₁ m₁ done
    refine (ih (fun other member => each other (by simp [member]))
      (fun other member => stands other (by simp [member])) loweredRest (by omega)
      (placed.2.at_pc done.pc.symm) (fun id member => done.assigned id (assigned id member))
      done.mirrors).bind ?_
    rintro values state₂ m₂ ⟨progress, holds⟩
    refine Agrees.of_goal ⟨?_, ?_⟩
    · have whole := (done.toProgress.widen (Nat.le_refl _) toRest).trans
        (progress.widen toFirst (Nat.le_refl _))
      rw [done.pc, Nat.add_assoc, ← width_append] at whole
      exact whole
    · have kept : m₂.registers.read first = some v := by
        rw [progress.read (Nat.le_trans positive given.lower) (.inl given.upper), done.holds]
      simp [kept, holds]

/-- Statements in a row; the register given in the end carries the value of the last one. -/
theorem simulates_statements {last last' : Option Nat} {value : Option Value}
    (each : ∀ node ∈ nodes, Simulates image locals env fuel invoke node)
    (inside : ∀ node ∈ nodes, node.preorder ⊆ image.nodes ∧ Scoping.declared node ⊆ locals.ids)
    (inScope : InScopeStatements image.binding locals.ids known nodes)
    (success : visitStatements env last nodes s = .ok last' code s') (positive : 1 ≤ s.register)
    (placed : Placed image.table image.code m.pc code)
    (assigned : ∀ id ∈ known, (state.vars id).isSome) (mirrors : Mirrors image locals state m)
    (carried : last.map m.registers.read = value.map some)
    (before : ∀ reg, last = some reg → 1 ≤ reg ∧ reg < s.register) :
    Agrees fuel (fun value' after m' =>
        Progress image locals s.register s'.register (m.pc + width code) state m after m' ∧
        last'.map m'.registers.read = value'.map some) m
      (evalStatements image.env fuel invoke value nodes state) := by
  induction nodes generalizing s code last m state value known with
  | nil =>
    obtain ⟨rfl, rfl, rfl⟩ := Lowering.visitStatements_nil_ok success
    rw [evalStatements]
    exact Agrees.of_goal ⟨Progress.refl _ _ mirrors, carried⟩
  | cons node rest ih =>
    have eachRest := fun other (member : other ∈ rest) => @each other (by simp [member])
    have insideRest := fun other (member : other ∈ rest) => inside other (by simp [member])
    rw [evalStatements]
    rcases Lowering.visitStatements_cons_ok success with
      ⟨noop, loweredRest⟩ | ⟨real, here, first, after, s₁, lowered, loweredRest, rfl⟩
    · have nothing : Scoping.introduced node = [] := by
        obtain ⟨_, rfl⟩ := Node.eq_leaf_of_isNoop noop
        rfl
      rw [if_pos noop]
      have inRest := inScope.2
      rw [nothing, List.nil_append] at inRest
      exact ih eachRest insideRest inRest loweredRest positive placed assigned mirrors carried before
    · rw [if_neg (by simp [real])]
      have given := given_visit lowered
      have toRest := (Lowering.lowers_visitStatements loweredRest).given.1.registers
      have toFirst := given.shrinks.registers
      rw [placed_append] at placed
      have stands : Stands image locals known node :=
        ⟨(inside node (by simp)).1, (inside node (by simp)).2, inScope.1⟩
      refine (each node (by simp) stands lowered positive placed.1 assigned mirrors).bind ?_
      intro v state₁ m₁ done
      have assigned₁ : ∀ id ∈ Scoping.introduced node ++ known, (state₁.vars id).isSome := by
        intro id member
        rcases List.mem_append.mp member with declaredHere | knownBefore
        · exact done.introduced id declaredHere
        · exact done.assigned id (assigned id knownBefore)
      have before₁ : ∀ reg, some here = some reg → 1 ≤ reg ∧ reg < s₁.register := by
        rintro _ ⟨⟩
        exact ⟨Nat.le_trans positive given.lower, given.upper⟩
      refine (ih eachRest insideRest inScope.2 loweredRest (by omega)
        (placed.2.at_pc done.pc.symm) assigned₁ done.mirrors (by simp [done.holds])
        before₁).followed ?_
      rintro value' state₂ m₂ ⟨progress, holds⟩
      refine Agrees.of_goal ⟨?_, holds⟩
      have whole := (done.toProgress.widen (Nat.le_refl _) toRest).trans
        (progress.widen toFirst (Nat.le_refl _))
      rw [done.pc, Nat.add_assoc, ← width_append] at whole
      exact whole

/-- A node that is a list of statements has the value of the last one. -/
theorem simulates_body {node : Node Tag} {reg : Nat}
    (each : ∀ child ∈ nodes, Simulates image locals env fuel invoke child)
    (inside : ∀ child ∈ nodes, child.preorder ⊆ image.nodes ∧ Scoping.declared child ⊆ locals.ids)
    (inScope : InScopeStatements image.binding locals.ids known nodes)
    (success : visitStatements env none nodes s = .ok (some reg) code s')
    (positive : 1 ≤ s.register) (placed : Placed image.table image.code m.pc code)
    (assigned : ∀ id ∈ known, (state.vars id).isSome) (mirrors : Mirrors image locals state m)
    (plain : Scoping.introduced node = []) :
    Agrees fuel
      (Done image locals node s.register s'.register reg (m.pc + width code) state m) m
      ((do expect (← evalStatements image.env fuel invoke none nodes) : Eval Value) state) := by
  refine (simulates_statements each inside inScope success positive placed assigned mirrors rfl
    (by simp)).bind ?_
  rintro value state' m' ⟨progress, holds⟩
  cases value with
  | none => cases holds
  | some v =>
    simp only [Option.map_some, Option.some.injEq] at holds
    exact Agrees.of_goal (progress.done holds plain)

theorem simulates_block {body : List (Node Tag)}
    (each : ∀ child ∈ body, Simulates image locals env fuel invoke child) :
    Simulates image locals env fuel invoke (.block tag body) := by
  intro known s s' reg code state m stands success positive placed assigned mirrors
  rw [eval]
  refine simulates_body each ?_ stands.inScope (Lowering.visit_block_ok success) positive placed
    assigned mirrors rfl
  intro child member
  exact ⟨fun _ below => stands.inside (Node.preorder_subset_of_child member below),
    fun _ below => stands.declared (Scoping.declared_subset_of_child member rfl below)⟩

theorem simulates_program {name : String} {body : List (Node Tag)}
    (each : ∀ child ∈ body, Simulates image locals env fuel invoke child) :
    Simulates image locals env fuel invoke (.program tag name body) := by
  intro known s s' reg code state m stands success positive placed assigned mirrors
  rw [eval]
  refine simulates_body each ?_ stands.inScope (Lowering.visit_program_ok success) positive placed
    assigned mirrors rfl
  intro child member
  exact ⟨fun _ below => stands.inside (Node.preorder_subset_of_child member below),
    fun _ below => stands.declared (Scoping.declared_subset_of_child member rfl below)⟩

/-- Being back after a call is progress of the caller. -/
theorem Returned.progress {before : State} {value : Value} {after : State} {m' : Machine}
    (lo hi : Nat) (mirrors : Mirrors image locals before m)
    (returned : Returned m before value after m') :
    Progress image locals lo hi (m.pc + 1) before m after m' ∧
      m'.registers.read resultReg = some value := by
  obtain ⟨vars, registers, rfl, result, others⟩ := returned
  refine ⟨⟨⟨rfl, rfl, rfl, fun _ _ => rfl, fun reg other _ => others reg other⟩, rfl, ?_, ?_⟩,
    result⟩
  · exact ⟨mirrors.code, mirrors.pool, mirrors.running, rfl, by simpa [vars] using mirrors.slots,
      mirrors.frame⟩
  · intro id present
    rwa [vars]

theorem simulates_call (setting : Setting image locals env) (calls : Invokes image fuel invoke)
    {callee : Node Tag} {args : List (Node Tag)} {trailing : Option (Node Tag)}
    (each : ∀ arg ∈ args, Simulates image locals env fuel invoke arg) :
    Simulates image locals env fuel invoke (.call tag callee args trailing) := by
  intro known s s' reg code state m stands success positive placed assigned mirrors
  obtain ⟨rfl, _, entry, regs, inner, s₁, ⟨tag', name', params, body, type, found, sameLength,
    noted⟩, lowered, rfl, rfl, rfl⟩ := Lowering.visit_call_ok success
  obtain ⟨_, member⟩ := declaration?_spec setting found
  have meaning := declaration?_eq setting callee
  rw [found] at meaning
  rw [setting.annotations] at noted
  have toArgs := (Lowering.lowers_visitAll lowered).given.1.registers
  have standsArgs : ∀ arg ∈ args, Stands image locals known arg := fun arg isArg =>
    stands.child (by simp [Node.children, isArg]) rfl
      (Scoping.inScopeAll_iff.mp stands.inScope.2 arg isArg)
  rw [placed_append] at placed
  obtain ⟨placedArgs, placedCall⟩ := placed
  simp only [eval, meaning]
  refine (simulates_all each standsArgs lowered positive placedArgs assigned mirrors).bind ?_
  rintro values state₁ m₁ ⟨progress, holds⟩
  have placedHere := placedCall.at_pc progress.pc.symm
  obtain ⟨address, label, fetch⟩ :=
    fetch_of_placed_target progress.mirrors.code placedHere rfl rfl
  have atEntry : image.annotations.entry image.table tag'.id = address := by
    simp [Annotations.entry, noted, label]
  have sameValues : params.length = values.length := by
    have length := congrArg List.length holds
    simp only [List.length_map, (Lowering.lowers_visitAll lowered).length_values] at length
    rw [sameLength, length]
  refine (calls member sameValues progress.mirrors (by rw [atEntry]; exact fetch) holds).followed ?_
  intro value state₂ m₂ returned
  obtain ⟨back, result⟩ := returned.progress s.register (s₁.register + 1) progress.mirrors
  have fetchCopy := fetch_of_placed back.mirrors.code
    ((placed_tail placedHere rfl).at_pc back.pc.symm) rfl rfl
  have plan : m₂.plan (.copy s₁.register resultReg) =
      .ok (.write s₁.register (some value)) := by
    simp [Machine.plan, Machine.read, result, bind, Except.bind, pure, Except.pure]
  refine agrees_write rfl ((progress.widen (Nat.le_refl _) (Nat.le_succ _)).trans back) toArgs
    fetchCopy rfl trivial plan ?_
  rw [back.pc, progress.pc]
  simp only [width_append, width_step, Instruction.labelName?, Option.isNone_none, Bool.toNat_true,
    width_nil]
  omega

end Lists

section Aggregates

variable {tag : Tag}

theorem width_cellStores (ptr offset : Nat) (regs : List Nat) :
    width (Lowering.cellStores ptr offset regs) = regs.length := by
  induction regs generalizing offset with
  | nil => rfl
  | cons src rest ih =>
    rw [Lowering.cellStores, Assembly.width_cons _ rfl, ih, List.length_cons]

/-- The elements of a tuple or list are written to its cells one after the other. -/
theorem agrees_cells {node : Node Tag} {count lo hi ptr base offset pc : Nat} {regs : List Nat}
    {values : List Value} {before state : State} {m₀ m : Machine}
    (plain : Scoping.introduced node = [])
    (progress : Progress image locals lo hi pc before m₀ state m)
    (pointer : m.registers.read ptr = some (Machine.ofAddress base))
    (small : base < Machine.addressLimit)
    (holds : regs.map m.registers.read = values.map some)
    (placed : Placed image.table image.code m.pc (Lowering.cellStores ptr offset regs))
    (room : base + offset + regs.length ≤ state.heap.top) :
    Agrees count (Done image locals node lo hi ptr (m.pc + regs.length) before m₀) m
      (.ok (Machine.ofAddress base)
        { state with heap := state.heap.fill (base + offset) values }) := by
  induction regs generalizing values offset state m pc with
  | nil =>
    cases values with
    | nil => exact Agrees.of_goal ((progress.done pointer plain).at_pc progress.pc.symm)
    | cons value rest => cases holds
  | cons src rest ih =>
    cases values with
    | nil => cases holds
    | cons value values =>
      simp only [List.map_cons, List.cons.injEq] at holds
      simp only [List.length_cons] at room ⊢
      have inRange : base + offset < m.heap.top := by
        rw [progress.mirrors.heap]
        omega
      have fetch := fetch_of_placed progress.mirrors.code placed rfl rfl
      refine Agrees.of_addressable progress.mirrors.running fetch fun addressable => ?_
      have limit := Machine.addressLimit_add_self
      have isWord : base + offset < wordLimit := by
        have := (Machine.isAddressable_iff.mp addressable).2.2.1
        omega
      have plan : m.plan (.storeHeapAt ptr offset src) = .ok (.storeHeap (base + offset) value) := by
        simp [Machine.plan, Machine.pointer, Machine.read, pointer, holds.1, Machine.heapFault,
          Heap.check, wrap_of_lt isWord, inRange, Machine.addressOf_ofAddress small, bind,
          Except.bind, pure, Except.pure]
      refine Agrees.execute progress.mirrors.running fetch rfl plan trivial fun _ => ?_
      have stored : Progress image locals lo hi (m.pc + 1) state m
          { state with heap := state.heap.put (base + offset) value }
          (m.commit (.storeHeap (base + offset) value)) := by
        refine ⟨⟨rfl, rfl, rfl, fun _ _ => rfl, fun _ _ _ => rfl⟩, rfl, ?_, fun _ known => known⟩
        exact ⟨progress.mirrors.code, progress.mirrors.pool, progress.mirrors.running,
          congrArg (·.put (base + offset) value) progress.mirrors.heap, progress.mirrors.slots,
          progress.mirrors.frame⟩
      have others := ih (progress.trans stored) pointer holds.2 (placed_tail placed rfl) (by
        rw [Heap.top_put]
        omega)
      refine others.followed ?_
      intro value' state' m' done
      refine Agrees.of_goal (done.at_pc ?_)
      rw [stored.pc]
      omega

/-- There are addresses for as many cells as there are stores in the code. -/
theorem top_lt_of_cellStores {ptr offset : Nat} {regs : List Nat} {state : State} {m : Machine}
    (mirrors : Mirrors image locals state m) (addressable : m.isAddressable = true)
    (inside : m.pc < m.code.size)
    (placed : Placed image.table image.code (m.pc + 1) (Lowering.cellStores ptr offset regs)) :
    state.heap.top + regs.length < wordLimit := by
  obtain ⟨codeFits, _, small, _⟩ := Machine.isAddressable_iff.mp addressable
  rw [mirrors.code] at inside codeFits
  rw [mirrors.heap] at small
  have stores := placed.le_size inside
  rw [width_cellStores] at stores
  have limit := Machine.addressLimit_add_self
  omega

/-- Handing out cells is progress, if there are addresses for them. -/
theorem Progress.allocate {lo reg size : Nat} {state : State} {m : Machine}
    (mirrors : Mirrors image locals state m) (lower : lo ≤ reg)
    (isWord : state.heap.top + size < wordLimit) :
    Progress image locals lo (reg + 1) (m.pc + 1) state m
      { state with heap := state.heap.handOut (state.heap.top + size) }
      (m.commit (.allocate reg size)) := by
  have kept : Kept locals.size lo (reg + 1) m (m.commit (.allocate reg size)) :=
    { Kept.write m (some (Machine.ofAddress m.heap.top)) lower (Nat.lt_succ_self _) with }
  have heap : (m.heap.allocate size).2 = state.heap.handOut (state.heap.top + size) := by
    rw [Heap.allocate, mirrors.heap, wrap_of_lt isWord]
  exact ⟨kept, rfl, ⟨mirrors.code, mirrors.pool, mirrors.running, heap, mirrors.slots,
    mirrors.frame⟩, fun _ known => known⟩

/-- Cells are allocated for all elements and then filled. -/
theorem simulates_aggregate {kind : Aggregate} {elements : List (Node Tag)}
    (each : ∀ element ∈ elements, Simulates image locals env fuel invoke element) :
    Simulates image locals env fuel invoke (.aggregate tag kind elements) := by
  intro known s s' reg code state m stands success positive placed assigned mirrors
  obtain ⟨regs, inner, s₁, lowered, rfl, rfl, rfl⟩ := Lowering.visit_aggregate_ok success
  obtain ⟨⟨toElements, _⟩, bounds⟩ := (Lowering.lowers_visitAll lowered).given
  have standsElements : ∀ element ∈ elements, Stands image locals known element :=
    fun element member => stands.child member rfl
      (Scoping.inScopeAll_iff.mp stands.inScope element member)
  rw [placed_append] at placed
  rw [eval]
  refine (simulates_all each standsElements lowered positive placed.1 assigned mirrors).bind ?_
  rintro values state₁ m₁ ⟨progress, holds⟩
  have placedHere := placed.2.at_pc progress.pc.symm
  have fetch := fetch_of_placed progress.mirrors.code placedHere rfl rfl
  refine Agrees.execute progress.mirrors.running fetch rfl rfl trivial fun addressable => ?_
  have sameLength : values.length = regs.length := by
    have length := congrArg List.length holds
    simpa using length.symm
  obtain ⟨_, _, small, _⟩ := Machine.isAddressable_iff.mp addressable
  have placedStores := placed_tail placedHere rfl
  have allocated := Progress.allocate progress.mirrors toElements (top_lt_of_cellStores
    progress.mirrors addressable (Array.getElem?_eq_some_iff.mp fetch).1 placedStores)
  have pointer : (m₁.commit (.allocate s₁.register regs.length)).registers.read s₁.register =
      some (Machine.ofAddress state₁.heap.top) := by
    rw [← progress.mirrors.heap]
    exact read_write_next ..
  have kept : regs.map (m₁.commit (.allocate s₁.register regs.length)).registers.read =
      values.map some := by
    rw [← holds]
    apply List.map_congr_left
    intro reg member
    have below : reg < s₁.register := (bounds reg member).2
    show (m₁.registers.write _ _).read reg = _
    rw [Registers.read_write, if_neg (by omega)]
  show Agrees fuel _ _ (.ok (Machine.ofAddress state₁.heap.top)
    { state₁ with
      heap := (state₁.heap.handOut (state₁.heap.top + values.length)).fill state₁.heap.top
        values })
  rw [sameLength]
  have introducesNone : Scoping.introduced (.aggregate tag kind elements) = [] := rfl
  have room : state₁.heap.top + 0 + regs.length ≤
      (state₁.heap.handOut (state₁.heap.top + regs.length)).top := by
    rw [Heap.top_handOut]
    omega
  refine (agrees_cells introducesNone
    ((progress.widen (Nat.le_refl _) (Nat.le_succ _)).trans allocated) pointer
    (by rwa [← progress.mirrors.heap]) kept placedStores room).followed ?_
  intro value state' m' done
  refine Agrees.of_goal (done.at_pc ?_)
  rw [allocated.pc, progress.pc, width_append, Assembly.width_cons _ rfl, width_cellStores]
  omega

end Aggregates

/-- The instructions of a node do what it evaluates to, if those of functions do. -/
theorem simulates (setting : Setting image locals env) (literals : image.HoldsLiterals)
    (calls : Invokes image fuel invoke) (node : Node Tag) :
    Simulates image locals env fuel invoke node := by
  induction node using Node.childInduction with
  | step node ih =>
    cases node with
    | leaf tag kind =>
      cases kind with
      | int text | real text | bool text =>
        exact simulates_literal setting literals rfl (by rw [visit]) (by rw [eval]; rfl)
      | valueId name => exact simulates_name setting
      | unit | noop => exact simulates_nothing (by rw [visit]) (by rw [eval])
      | typeId name | symbolId name =>
        intro known s s' reg code state m stands success
        rw [visit] at success
        exact absurd success Lowering.fail_ok
    | param tag name type =>
      intro known s s' reg code state m stands success
      rw [visit] at success
      exact absurd success Lowering.fail_ok
    | program tag name body => exact simulates_program ih
    | block tag body => exact simulates_block ih
    | define tag name params body type => exact simulates_define setting
    | declare tag mutability name type value =>
      exact simulates_declare setting (ih value (by simp [Node.children]))
    | assign tag name value => exact simulates_assign setting (ih value (by simp [Node.children]))
    | branch tag pred yes no =>
      exact simulates_branch (ih pred (by simp [Node.children])) (ih yes (by simp [Node.children]))
        (ih no (by simp [Node.children]))
    | orElse tag body =>
      intro known s s' reg code state m stands success
      rw [visit] at success
      exact absurd success Lowering.fail_ok
    | loop tag pred body =>
      exact simulates_loop (ih pred (by simp [Node.children])) (ih body (by simp [Node.children]))
    | binary tag op left right =>
      exact simulates_binary (ih left (by simp [Node.children]))
        (ih right (by simp [Node.children]))
    | call tag callee args trailing =>
      exact simulates_call setting calls fun arg member => ih arg (by simp [Node.children, member])
    | aggregate tag kind elements => exact simulates_aggregate ih

end

end ScriptVM
