import ScriptVM.Proofs.Addressable
import ScriptVM.Proofs.Assembled
import ScriptVM.Proofs.Diagnostics
import ScriptVM.Proofs.TypePreservation

/-!
Programs whose types are known go by them.

A text is checked, `any` occurs in none of its types, and no variable is left without a value. Then
no run of its program faults because an operation is not defined for the values it is given, and the
value that a run leaves is of the type of the program. The check gives every node its type by the
rules, lowering accepts only uses of variables that have been declared before, evaluation by the
rules preserves types, and a run does what the tree evaluates to.
-/
namespace ScriptVM

open Scoping (Bound InScope InScopeAll InScopeStatements)

/-- Whether `any` occurs in none of the types that are noted. -/
def Document.isAnyFree (document : Document) : Bool :=
  document.root.preorder.all fun node => (document.notes node).type.all Ty.isAnyFree

/-- Whether a node, if it declares a variable, has a value for it. -/
def Node.isInitialised {α : Type} : Node α → Bool
  | .declare _ _ _ _ value => !value.isUnit
  | _ => true

/-- Whether every variable is given a value where it is declared. -/
def Document.isInitialised (document : Document) : Bool :=
  document.root.preorder.all Node.isInitialised

/-- A whole number that is not negative. -/
def Value.IsNonNegative (value : Value) : Prop :=
  ∃ n, value = .int n ∧ 0 ≤ n.toInt

namespace Lowering

variable {env : Env} {s s' : Supply} {reg : Nat} {code : List Instruction}
  {variableIds own : List Nat} {nodes : List (Node Tag)}

/-- What is called goes by a name. -/
def NamesCallees (node : Node Tag) : Prop :=
  ∀ tag callee args trailing, .call tag callee args trailing ∈ node.preorder →
    ∃ tag' name, callee = .leaf tag' (.valueId name)

/-- Whether a node is a call. -/
def isCall : Node Tag → Bool
  | .call .. => true
  | _ => false

theorem namesCallees_of_children {node : Node Tag} (plain : isCall node = false)
    (below : ∀ child ∈ node.children, NamesCallees child) : NamesCallees node := by
  intro tag callee args trailing inside
  rcases Node.mem_preorder.mp inside with same | ⟨child, isChild, inChild⟩
  · rw [← same] at plain
    cases plain
  · exact below child isChild tag callee args trailing inChild

theorem namesCallees_leaf (tag : Tag) (kind : Leaf) : NamesCallees (.leaf tag kind) :=
  namesCallees_of_children rfl (List.forall_mem_nil _)

theorem namesCallees_call {tag tag' : Tag} {name : String} (below : ∀ arg ∈ nodes, NamesCallees arg) :
    NamesCallees (.call tag (.leaf tag' (.valueId name)) nodes none) := by
  intro _ _ _ _ inside
  rcases Node.mem_preorder.mp inside with same | ⟨child, isChild, inChild⟩
  · cases same
    exact ⟨tag', name, rfl⟩
  · simp only [Node.children, Option.toList_none, List.append_nil, List.mem_cons] at isChild
    rcases isChild with rfl | isArg
    · exact namesCallees_leaf _ _ _ _ _ _ inChild
    · exact below child isArg _ _ _ _ inChild

/-- What lowering asks of a node: what is called goes by a name, and the variables that are used are
those of the function around. -/
structure Accepts (env : Env) (variableIds own : List Nat) (node : Node Tag) : Prop where
  callees : NamesCallees node
  inScope : ∀ known, InScope (fun use => (env.annotations.get use).binding) own known node →
    InScope (fun use => (env.annotations.get use).binding) variableIds known node

/-- These are variables, and those of the function being lowered have slots in its frame. -/
structure Env.Separates (env : Env) (variableIds own : List Nat) : Prop where
  isVariable : ∀ id ∈ variableIds, ∀ node, env.find? id = some node →
    Frames.isVariable node = true
  owned : ∀ id, env.owns id → id ∈ own

theorem Env.Separates.bound (separates : env.Separates variableIds own) {use declaration : Node Tag}
    (found : env.declaration? use = some declaration)
    (owns : Frames.isVariable declaration = true → env.owns declaration.id) {known : List Nat}
    (bound : Bound (fun use => (env.annotations.get use).binding) own known use.id) :
    Bound (fun use => (env.annotations.get use).binding) variableIds known use.id := by
  intro id isBound isVariable
  obtain ⟨id', isBound', found⟩ := Option.bind_eq_some_iff.mp found
  cases isBound.symm.trans isBound'
  obtain ⟨_, rfl⟩ := Node.of_find?_id found
  exact bound _ isBound
    (separates.owned _ (owns (separates.isVariable _ isVariable declaration found)))

/-- What names a function is no use of a variable. -/
theorem Env.Separates.bound_function (separates : env.Separates variableIds own)
    {use body : Node Tag} {tag : Tag} {name : String} {params : List (Node Tag)}
    {type : Option String} (found : env.declaration? use = some (.define tag name params body type))
    {known : List Nat}
    (bound : Bound (fun use => (env.annotations.get use).binding) own known use.id) :
    Bound (fun use => (env.annotations.get use).binding) variableIds known use.id :=
  separates.bound found (fun isVariable => absurd isVariable Bool.false_ne_true) bound

theorem inScopeAll_of_accepts (each : ∀ node ∈ nodes, Accepts env variableIds own node)
    {known : List Nat}
    (inScope : InScopeAll (fun use => (env.annotations.get use).binding) own known nodes) :
    InScopeAll (fun use => (env.annotations.get use).binding) variableIds known nodes := by
  rw [Scoping.inScopeAll_iff] at inScope ⊢
  exact fun node member => (each node member).inScope known (inScope node member)

theorem inScopeStatements_of_accepts (each : ∀ node ∈ nodes, Accepts env variableIds own node)
    {known : List Nat}
    (inScope : InScopeStatements (fun use => (env.annotations.get use).binding) own known nodes) :
    InScopeStatements (fun use => (env.annotations.get use).binding) variableIds known nodes := by
  induction nodes generalizing known with
  | nil => trivial
  | cons node rest ih =>
    rw [List.forall_mem_cons] at each
    exact ⟨each.1.inScope known inScope.1, ih each.2 inScope.2⟩

/-- Lowering accepts nodes only if their uses are in order. In the body of a function, its frame
takes the place of the one around. -/
theorem Lowers.accepts {task : Task} {all : List (Node Tag)}
    (plain : ∀ node ∈ all, PlainParams node) (lowers : Lowers env s task code s')
    (sub : task.nodes ⊆ all) (separates : env.Separates variableIds own) :
    task.Each (Accepts env variableIds own) := by
  induction lowers generalizing own with
  | @literal _ _ _ kind _ isLiteral =>
    refine ⟨namesCallees_leaf _ _, fun known inScope => ?_⟩
    cases kind with
    | valueId name => cases isLiteral
    | _ => trivial
  | nothing isNothing =>
    refine ⟨namesCallees_leaf _ _, fun known inScope => ?_⟩
    rcases isNothing with rfl | rfl
    · trivial
    · trivial
  | readSlot found _ owned =>
    exact ⟨namesCallees_leaf _ _, fun known inScope => separates.bound found (fun _ => owned) inScope⟩
  | readEntry found =>
    exact ⟨namesCallees_leaf _ _, fun known inScope => separates.bound_function found inScope⟩
  | program _ ih | block _ ih =>
    simp only [Task.nodes, Node.preorder, List.cons_subset] at sub
    have each := ih sub.2 separates
    exact ⟨namesCallees_of_children rfl fun child isChild => (each child isChild).callees,
      fun _ inScope => inScopeStatements_of_accepts each inScope⟩
  | @define env _ _ tag _ _ _ _ entry locals _ _ _ noted _ ih =>
    simp only [Task.nodes, Node.preorder, List.cons_subset, List.append_subset] at sub
    have separates' : Env.Separates { env with owner := tag.id, stem := entry } variableIds
        locals.ids := by
      refine ⟨separates.isVariable, ?_⟩
      rintro id ⟨locals', noted', contained⟩
      cases noted.symm.trans noted'
      exact Locals.containsNode_iff.mp contained
    refine ⟨namesCallees_of_children rfl fun child isChild => ?_, fun _ _ => trivial⟩
    rcases List.mem_append.mp isChild with isParam | isBody
    · obtain ⟨_, _, _, rfl⟩ := plain _ sub.1 _ _ _ _ _ (Node.self_mem_preorder _) child isParam
      exact namesCallees_of_children rfl (List.forall_mem_nil _)
    · rw [List.mem_singleton.mp isBody]
      exact (ih sub.2.2 separates').callees
  | declare _ _ ih =>
    simp only [Task.nodes, Node.preorder, List.cons_subset] at sub
    have accepts := ih sub.2 separates
    exact ⟨namesCallees_of_children rfl (List.forall_mem_singleton.mpr accepts.callees),
      accepts.inScope⟩
  | assign found _ owned _ _ ih =>
    simp only [Task.nodes, Node.preorder, List.cons_subset] at sub
    have accepts := ih sub.2 separates
    exact ⟨namesCallees_of_children rfl (List.forall_mem_singleton.mpr accepts.callees),
      fun known inScope => ⟨separates.bound found (fun _ => owned) inScope.1,
        accepts.inScope known inScope.2⟩⟩
  | branch _ _ _ ihPred ihYes ihNo =>
    simp only [Task.nodes, Node.preorder, List.cons_subset, List.append_subset] at sub
    obtain ⟨_, ⟨subPred, subYes⟩, subNo⟩ := sub
    have ofPred := ihPred subPred separates
    have ofYes := ihYes subYes separates
    have ofNo := ihNo subNo separates
    refine ⟨namesCallees_of_children rfl ?_, fun known inScope =>
      ⟨ofPred.inScope known inScope.1, ofYes.inScope known inScope.2.1,
        ofNo.inScope known inScope.2.2⟩⟩
    simp only [Node.children, List.forall_mem_cons]
    exact ⟨ofPred.callees, ofYes.callees, ofNo.callees, List.forall_mem_nil _⟩
  | loop _ _ ihFirst ihSecond | binary _ _ _ ihFirst ihSecond =>
    simp only [Task.nodes, Node.preorder, List.cons_subset, List.append_subset] at sub
    have ofFirst := ihFirst sub.2.1 separates
    have ofSecond := ihSecond sub.2.2 separates
    refine ⟨namesCallees_of_children rfl ?_, fun known inScope =>
      ⟨ofFirst.inScope known inScope.1, ofSecond.inScope known inScope.2⟩⟩
    simp only [Node.children, List.forall_mem_cons]
    exact ⟨ofFirst.callees, ofSecond.callees, List.forall_mem_nil _⟩
  | call found _ _ _ ih =>
    simp only [Task.nodes, Node.preorder, List.cons_subset, List.append_subset] at sub
    have each := ih sub.2.2 separates
    exact ⟨namesCallees_call fun arg isArg => (each arg isArg).callees, fun known inScope =>
      ⟨separates.bound_function found inScope.1, inScopeAll_of_accepts each inScope.2⟩⟩
  | aggregate _ ih =>
    simp only [Task.nodes, Node.preorder, List.cons_subset] at sub
    have each := ih sub.2 separates
    exact ⟨namesCallees_of_children rfl fun child isChild => (each child isChild).callees,
      fun _ inScope => inScopeAll_of_accepts each inScope⟩
  | noValues | noStatements => exact List.forall_mem_nil _
  | moreValues _ _ ih ihOthers | moreStatements _ _ _ ih ihOthers =>
    simp only [Task.nodes, Node.preorderAll, List.append_subset] at sub
    exact List.forall_mem_cons.mpr ⟨ih sub.1 separates, ihOthers sub.2 separates⟩
  | merged noop _ ih =>
    simp only [Task.nodes, Node.preorderAll, List.append_subset] at sub
    obtain ⟨_, rfl⟩ := Node.eq_leaf_of_isNoop noop
    exact List.forall_mem_cons.mpr
      ⟨⟨namesCallees_leaf _ _, fun _ _ => trivial⟩, ih sub.2 separates⟩

/-- Lowering accepts a node only if its uses are in order. -/
theorem accepts_visit {node : Node Tag} (plain : PlainParams node)
    (separates : env.Separates variableIds own) (success : visit env node s = .ok reg code s') :
    Accepts env variableIds own node :=
  (lowers_visit success).accepts (fun _ member => plain.inner member) (List.Subset.refl _) separates

end Lowering

namespace Program.Stages

section Tree

variable {typeCheck : Bool} {anonymous source : String} {program : Program}
  (stages : Stages typeCheck anonymous source program)

/-- The stages after the check of types leave the tree and only add notes. -/
theorem extends_analysed :
    stages.document.root = stages.analysed.root ∧
      stages.analysed.annotations.Extends stages.document.annotations := by
  obtain ⟨sameCollected, toCollected, _⟩ := Document.literals_of_collectConstants stages.collect
  obtain ⟨_, _, _, _, _, _, _, _, _, given, _, _, _, isLast⟩ := Document.compile_ok stages.compile
  rw [isLast]
  exact ⟨sameCollected, toCollected.trans (Lowering.extends_of_giveAddresses given)⟩

theorem plainParams : Lowering.PlainParams stages.document.root := by
  obtain ⟨tag, name, body, next, _, shaped, isRoot⟩ := root_of_analyse stages.parse stages.analyse
  rw [stages.extends_analysed.1, isRoot]
  exact Document.plainParams_tree (Document.shaped_wrapping tag next shaped) name

/-- The variables of a program. -/
def variableIds : List Nat :=
  (stages.image.nodes.filter Frames.isVariable).map Node.id

theorem mem_variableIds {id : Nat} :
    id ∈ stages.variableIds ↔
      ∃ node ∈ stages.image.nodes, Frames.isVariable node = true ∧ node.id = id := by
  simp [variableIds, and_assoc]

theorem separates {env : Lowering.Env} {own : List Nat} (nodes : env.nodes = stages.image.nodes)
    (owned : ∀ id, env.owns id → id ∈ own) : env.Separates stages.variableIds own := by
  obtain ⟨prepared⟩ := stages.prepared
  refine ⟨fun id isVariable node found => ?_, owned⟩
  obtain ⟨variableNode, member, holds, rfl⟩ := stages.mem_variableIds.mp isVariable
  obtain ⟨inside, same⟩ := Node.of_find?_id found
  rw [nodes] at inside
  rwa [Node.eq_of_id prepared.resolved.distinct inside member same]

/-- Lowering has accepted the whole tree. -/
theorem accepts_root :
    Lowering.NamesCallees stages.document.root ∧
      InScope stages.image.binding stages.variableIds [] stages.document.root := by
  obtain ⟨prepared⟩ := stages.prepared
  obtain ⟨tag, name, body, annotations, names, locals, _, _, root, _, _, lowered, _, isLast⟩ :=
    Document.compile_ok stages.compile
  have sameRoot : stages.document.root = stages.collected.root := by rw [isLast]
  have sameNotes : stages.document.annotations = annotations := by rw [isLast]
  have isRoot := prepared.isRoot
  have noted := prepared.noted
  rw [sameRoot] at isRoot
  rw [sameNotes] at noted
  cases root.symm.trans isRoot
  rw [← sameRoot] at lowered
  have separates : Lowering.Env.Separates
      ⟨stages.document.root.preorder, annotations, prepared.root.id, prepared.name⟩
      stages.variableIds [] := by
    refine stages.separates rfl ?_
    rintro id ⟨locals', noted', contained⟩
    cases noted.symm.trans noted'
    rw [Locals.containsNode_iff, prepared.empty] at contained
    exact contained
  have accepts := Lowering.accepts_visit stages.plainParams separates lowered
  refine ⟨accepts.callees, ?_⟩
  have inScope := accepts.inScope [] (by
    rw [prepared.isRoot]
    exact ⟨trivial, ⟨fun _ _ => nofun, trivial⟩, trivial⟩)
  rw [← sameNotes] at inScope
  exact inScope

/-- In a function, every use of a variable comes after its declaration. -/
theorem inScope_function {tag : Tag} {name : String} {params : List (Node Tag)} {body : Node Tag}
    {type : Option String} (member : .define tag name params body type ∈ stages.image.nodes) :
    InScope stages.image.binding stages.variableIds (params.map Node.id) body := by
  obtain ⟨locals, function⟩ := stages.wellFormed.functions _ _ _ _ _ member
  obtain ⟨env, s, reg, code, s', _, nodes, annotations, _, lowered, _⟩ :=
    stages.wellFormed.placed _ _ _ _ _ member
  obtain ⟨entry, locals', last, inner, _, noted, _, loweredBody, _⟩ :=
    Lowering.visit_define_ok lowered
  have separates : Lowering.Env.Separates { env with owner := tag.id, stem := entry }
      stages.variableIds locals.ids := by
    refine stages.separates nodes ?_
    rintro id ⟨locals₁, noted₁, contained⟩
    dsimp only at noted₁
    rw [annotations] at noted₁
    cases function.frame.noted.symm.trans noted₁
    exact Locals.containsNode_iff.mp contained
  have plain : Lowering.PlainParams body := fun _ _ _ _ _ inside =>
    stages.plainParams _ _ _ _ _ (function.inside inside)
  have accepts := Lowering.accepts_visit plain separates loweredBody
  have inScope := accepts.inScope (params.map Node.id)
  dsimp only at inScope
  rw [annotations] at inScope
  exact inScope function.inScope

/-- Every entry is an address of the code or its end. -/
theorem entry_le (function : Nat) : stages.image.env.entry function ≤ program.code.length := by
  have resolved := Assembly.resolveAll_of_assemble stages.assemble
  rw [Assembly.length_of_resolveAll resolved]
  show (Option.bind _ _).getD 0 ≤ _
  cases found : (stages.image.annotations.get function).address.bind
      fun label => stages.image.table.lookup label with
  | none => exact Nat.zero_le _
  | some address =>
    obtain ⟨label, _, known⟩ := Option.bind_eq_some_iff.mp found
    simpa using Assembly.address_le_of_labels (Names.mem_of_lookup known)

end Tree

section Checked

variable {anonymous source : String} {program : Program}
  (stages : Stages true anonymous source program)

/-- The check of types walked over the tree, and its notes are those of the analysed document. -/
theorem exists_visit :
    ∃ type st st', Typing.visit stages.document.root st = .ok (type, st') ∧ st.signatures = [] ∧
      st'.annotations = stages.analysed.annotations := by
  obtain ⟨_, _, analyse⟩ := Walks.except_bind_ok.mp stages.analyse
  obtain ⟨_, _, analyse⟩ := Walks.except_bind_ok.mp analyse
  obtain ⟨slotted, _, check⟩ := Walks.except_bind_ok.mp analyse
  obtain ⟨type, last, walked, same⟩ := Document.checkTypes_ok check
  have sameRoot : stages.document.root = slotted.root := by rw [stages.extends_analysed.1, same]
  rw [← sameRoot] at walked
  exact ⟨type, _, last, walked, rfl, by rw [same]⟩

variable (anyFree : stages.analysed.isAnyFree = true)
  (initialised : stages.analysed.isInitialised = true)

include anyFree initialised

theorem settled :
    Typing.Settled stages.analysed.annotations stages.image.binding stages.variableIds
      stages.document.root.preorder := by
  obtain ⟨sameRoot, toLast⟩ := stages.extends_analysed
  simp only [Document.isAnyFree, Document.isInitialised, List.all_eq_true] at anyFree initialised
  rw [← sameRoot] at anyFree initialised
  refine ⟨fun _ _ => Typing.bound_of_extends toLast, ?_, ?_, stages.plainParams,
    fun _ _ _ _ _ => stages.inScope_function, ?_⟩
  · intro node member type isType
    exact (Option.all_eq_true _ _).mp (anyFree node member) type isType
  · intro tag mutability name type value member
    simpa [Node.isInitialised] using initialised _ member
  · intro id isVariable
    obtain ⟨node, member, _, isId⟩ := stages.mem_variableIds.mp isVariable
    exact ⟨node, member, isId⟩

/-- The type of every node is noted by the rules. -/
theorem given :
    ∃ type st', st'.annotations = stages.analysed.annotations ∧
      Typing.Given stages.analysed.annotations stages.image.binding stages.variableIds
        stages.document.root type st' := by
  obtain ⟨type, st, st', walked, noSignatures, isLast⟩ := stages.exists_visit
  have ready : Typing.Ready stages.analysed.annotations [] st := by
    refine ⟨nofun, ?_⟩
    rw [noSignatures]
    nofun
  refine ⟨type, st', isLast, ?_⟩
  exact Typing.follows_visit (stages.settled anyFree initialised) (List.Subset.refl _)
    stages.accepts_root.2 ready walked (isLast ▸ Annotations.Extends.refl _)

theorem wellTyped :
    Evaluation.WellTyped stages.image.env (Typing.noted stages.analysed.annotations)
      stages.variableIds program.code.length := by
  obtain ⟨_, _, _, given⟩ := stages.given anyFree initialised
  refine ⟨given.ruled, ?_, ?_, stages.accepts_root.1, stages.entry_le⟩
  · intro node member isAny
    have free := (stages.settled anyFree initialised).anyFree node member _ isAny
    cases free
  · intro tag mutability name type value member
    exact stages.mem_variableIds.mpr ⟨_, member, rfl, rfl⟩

/-- The tree has a type, and what it means is of that type unless it stops for a reason other than
the kinds of operands. -/
theorem ends_meaning :
    ∃ type, (stages.analysed.notes stages.analysed.root).type = some type ∧
      ∀ fuel heap, Evaluation.Ends (Typing.noted stages.analysed.annotations) program.code.length
        heap (fun n => type.Describes (Evaluation.IsAddress n)) (stages.meaning fuel heap) := by
  obtain ⟨type, _, isLast, given⟩ := stages.given anyFree initialised
  have isType := given.noted
  rw [isLast] at isType
  refine ⟨type, by rw [← isType, stages.extends_analysed.1]; rfl, fun fuel heap => ?_⟩
  have safe := Evaluation.preserves_evaluate (stages.wellTyped anyFree initialised)
    (fun _ member => Node.preorder_subset member) fuel stages.document.root.self_mem_preorder
  rw [isType] at safe
  refine safe.weaken (fun _ before => before) ?_ ⟨fun _ => none, heap⟩ (fun _ _ _ => nofun) trivial
  rintro n value ⟨_, ⟨⟩, described⟩
  exact described

end Checked

end Program.Stages

theorem Stop.isUnsupported_of_causes {stop : Stop} {op : String} {left right : Value}
    (causes : stop.causes (.value (.unsupported op left right))) : stop.isUnsupported = true := by
  cases stop with
  | value e =>
    cases causes
    rfl
  | alreadyAssigned =>
    obtain ⟨place, impossible⟩ := causes
    cases impossible
  | stuck | timeout => exact causes.elim

/-- An address is not negative. -/
theorem Evaluation.IsAddress.isNonNegative {bound : Nat} {value : Value}
    (isAddress : Evaluation.IsAddress bound value) (small : bound < Machine.addressLimit) :
    value.IsNonNegative := by
  obtain ⟨address, le, rfl⟩ := isAddress
  refine ⟨_, rfl, ?_⟩
  rw [Int64.toInt_ofNat_of_lt (Nat.lt_of_le_of_lt le small)]
  exact Int.natCast_nonneg address

/-- Checked programs go by their types. If `any` occurs in none of the types and every variable has
a value, no run faults because an operation is not defined for the values it is given, and a run
without a fault leaves a value of the type of the module. -/
theorem Program.runs_by_types {anonymous source : String} {program : Program}
    {parsed analysed : Document} (compiled : Program.ofSource true anonymous source = .ok program)
    (parse : Document.parse anonymous source = .ok parsed)
    (checked : Program.analyse true parsed = .ok analysed) (anyFree : analysed.isAnyFree = true)
    (initialised : analysed.isInitialised = true) :
    ∃ type, (analysed.notes analysed.root).type = some type ∧
      ∀ m : Machine, m.framePtr = 0 → ∀ fuel m' error,
        (m.load program.code program.pool.values).run fuel = some (m', error) →
        (∀ e, error = some e → ∀ op left right, e.fault ≠ .value (.unsupported op left right)) ∧
        (error = none → ∃ value, m'.registers.read program.result = some value ∧
          type.Describes Value.IsNonNegative value) := by
  obtain ⟨stages⟩ := Program.stages_of_ofSource compiled
  obtain rfl := Except.ok.inj (parse.symm.trans stages.parse)
  obtain rfl := Except.ok.inj (checked.symm.trans stages.analyse)
  obtain ⟨type, isType, ends⟩ := stages.ends_meaning anyFree initialised
  refine ⟨type, isType, fun m framePtr fuel m' error ended => ?_⟩
  have realises := (stages.agrees_load framePtr (fuel + 1)).realises_of_run ended
  have means := ends (fuel + 1) m.heap
  cases result : stages.meaning (fuel + 1) m.heap with
  | error stop state =>
    rw [result] at realises means
    cases error with
    | none => exact realises.elim
    | some e =>
      refine ⟨?_, nofun⟩
      rintro _ ⟨⟩ op left right isFault
      rw [Program.Realises, isFault] at realises
      exact Bool.noConfusion ((Stop.isUnsupported_of_causes realises.1).symm.trans means)
  | ok value state =>
    rw [result] at realises means
    cases error with
    | some e => exact realises.elim
    | none =>
      refine ⟨nofun, fun _ => ⟨value, realises.1, means.2.2.mono fun address isAddress => ?_⟩⟩
      refine isAddress.isNonNegative (Nat.max_lt.mpr ⟨?_, ?_⟩)
      · exact Program.length_lt_of_run compiled ended
      · rw [← realises.2]
        exact Program.top_lt_of_run compiled ended

/-- A pair of values of a function that calls itself. -/
theorem Program.runs_by_types_of_pair :
    ∃ program m value, Program.ofSource true "main"
        "def f(n Int) Int \x7b if (n < 1) \x7b 1 \x7d; else \x7b n * f(n - 1) \x7d \x7d; (f(1), 2)" =
        .ok program ∧
      ((Machine.new 8).load program.code program.pool.values).run 400 = some (m, none) ∧
      m.registers.read program.result = some value ∧ value.IsNonNegative := by
  have compiles : (Program.ofSource true "main"
      "def f(n Int) Int \x7b if (n < 1) \x7b 1 \x7d; else \x7b n * f(n - 1) \x7d \x7d; (f(1), 2)").toOption.bind
        (fun program => (((Machine.new 8).load program.code program.pool.values).run 400).map
          Prod.snd) = some none := by
    decide +kernel
  have checks : (Document.parse "main"
      "def f(n Int) Int \x7b if (n < 1) \x7b 1 \x7d; else \x7b n * f(n - 1) \x7d \x7d; (f(1), 2)").toOption.bind
        (fun parsed => (Program.analyse true parsed).toOption.map fun analysed =>
          (analysed.isAnyFree, analysed.isInitialised, (analysed.notes analysed.root).type)) =
      some (true, true, some (.tuple [.int, .int])) := by
    decide +kernel
  obtain ⟨program, compiled, ends⟩ := Option.bind_eq_some_iff.mp compiles
  obtain ⟨⟨m, _⟩, ended, rfl⟩ := Option.map_eq_some_iff.mp ends
  obtain ⟨parsed, parse, checks⟩ := Option.bind_eq_some_iff.mp checks
  obtain ⟨analysed, checked, same⟩ := Option.map_eq_some_iff.mp checks
  simp only [Prod.mk.injEq] at same
  obtain ⟨anyFree, initialised, isType⟩ := same
  have compiled := ok_of_toOption compiled
  obtain ⟨type, isType', holds⟩ := Program.runs_by_types compiled (ok_of_toOption parse)
    (ok_of_toOption checked) anyFree initialised
  cases isType.symm.trans isType'
  obtain ⟨value, held, described⟩ := (holds (.new 8) rfl 400 m none ended).2 rfl
  exact ⟨program, m, value, compiled, ended, held, described⟩

end ScriptVM
