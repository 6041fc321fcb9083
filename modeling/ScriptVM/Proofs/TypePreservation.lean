import Mathlib.Data.List.Forall2
import ScriptVM.Proofs.HeapGrowth
import ScriptVM.Proofs.TypeRules

/-!
Values are what the types of their nodes say.

Where every node has its type by the rules, an evaluation that starts with variables whose values
are of their types leaves such variables, and comes to a value of the type of its node. It never
stops because an operation is not defined for the values it is given. Tuples, lists and functions
are known by addresses, and an address never exceeds the top of the heap or the end of the code.
-/
namespace ScriptVM

/-- What a type says of a value, given what says of a value that it is an address. -/
def Ty.Describes (isAddress : Value → Prop) : Ty → Value → Prop
  | .int, value => ∃ n, value = .int n
  | .real, value => ∃ x, value = .real x
  | .bool, value => value = .int 0 ∨ value = .int 1
  | .unit, value => value = .null
  | .tuple _, value | .list _, value | .function .., value => isAddress value
  | .any, _ => True

theorem Ty.Describes.mono {isAddress isAddress' : Value → Prop} {type : Ty} {value : Value}
    (described : type.Describes isAddress value) (more : ∀ v, isAddress v → isAddress' v) :
    type.Describes isAddress' value := by
  cases type with
  | tuple | list | function => exact more value described
  | _ => exact described

/-- Whether an operation refused the kinds of its operands. -/
def ValueError.isUnsupported : ValueError → Bool
  | .unsupported .. => true
  | _ => false

/-- Whether an evaluation stopped because an operation refused the kinds of its operands. -/
def Stop.isUnsupported : Stop → Bool
  | .value e => e.isUnsupported
  | _ => false

namespace Typing

variable {isAddress : Value → Prop} {left right type : Ty} {a b : Value}

/-- A result of which something holds, or an error that is not about the kinds of operands. -/
def Defined (post : Value → Prop) : Except ValueError Value → Prop
  | .ok value => post value
  | .error e => e.isUnsupported = false

theorem number_of_describes (numeric : left.isNumeric = true) (known : left ≠ .any)
    (described : left.Describes isAddress a) :
    left = .int ∧ (∃ n, a = .int n) ∨ left = .real ∧ ∃ x, a = .real x := by
  cases left with
  | int => exact .inl ⟨rfl, described⟩
  | real => exact .inr ⟨rfl, described⟩
  | any => exact absurd rfl known
  | _ => cases numeric

theorem describes_ofBool (isAddress : Value → Prop) (b : Bool) :
    Ty.bool.Describes isAddress (.ofBool b) := by
  cases b
  · exact .inl rfl
  · exact .inr rfl

/-- Arithmetic on whole numbers gives whole numbers, and with a real on either side reals. -/
theorem defined_arith (op : Arith) (knownLeft : left ≠ .any) (knownRight : right ≠ .any)
    (numericLeft : left.isNumeric = true) (numericRight : right.isNumeric = true)
    (isType : type = if left = .int ∧ right = .int then .int else .real)
    (describedLeft : left.Describes isAddress a) (describedRight : right.Describes isAddress b) :
    Defined (type.Describes isAddress) (op.apply a b) := by
  have onInts : ∀ m n : Int64, Defined (Ty.int.Describes isAddress) (op.apply (.int m) (.int n)) := by
    intro m n
    simp only [Arith.apply]
    split
    · rfl
    · split
      next result _ => exact ⟨result, rfl⟩
      next => rfl
  have onReals : ∀ (x y : Float) (u v : Value), u.toReal? = some x → v.toReal? = some y →
      (∀ m n, u = .int m → v ≠ .int n) → Defined (Ty.real.Describes isAddress) (op.apply u v) := by
    intro x y u v isLeft isRight notInts
    unfold Arith.apply
    split
    next m n => exact absurd rfl (notInts m n rfl)
    next =>
      rw [isLeft, isRight]
      dsimp only
      split
      · rfl
      · exact ⟨_, rfl⟩
  rcases number_of_describes numericLeft knownLeft describedLeft with
    ⟨rfl, m, rfl⟩ | ⟨rfl, x, rfl⟩ <;>
  rcases number_of_describes numericRight knownRight describedRight with
    ⟨rfl, n, rfl⟩ | ⟨rfl, y, rfl⟩
  · rw [isType]
    exact onInts m n
  · rw [isType]
    exact onReals _ _ _ _ rfl rfl nofun
  · rw [isType]
    exact onReals _ _ _ _ rfl rfl nofun
  · rw [isType]
    exact onReals _ _ _ _ rfl rfl nofun

/-- Numbers can be compared. -/
theorem defined_order (op : Compare) (knownLeft : left ≠ .any) (knownRight : right ≠ .any)
    (numericLeft : left.isNumeric = true) (numericRight : right.isNumeric = true)
    (describedLeft : left.Describes isAddress a) (describedRight : right.Describes isAddress b) :
    Defined (Ty.bool.Describes isAddress) (op.apply a b) := by
  have holds : ∃ result, op.holds a b = .ok result := by
    rcases number_of_describes numericLeft knownLeft describedLeft with
      ⟨_, m, rfl⟩ | ⟨_, x, rfl⟩ <;>
    rcases number_of_describes numericRight knownRight describedRight with
      ⟨_, n, rfl⟩ | ⟨_, y, rfl⟩ <;>
    cases op <;> exact ⟨_, rfl⟩
  obtain ⟨result, holds⟩ := holds
  rw [Compare.apply, holds]
  exact describes_ofBool isAddress result

/-- Equality is defined for all values. -/
theorem defined_equality (op : Compare) (isEquality : op = .eq ∨ op = .neq) :
    Defined (Ty.bool.Describes isAddress) (op.apply a b) := by
  rcases isEquality with rfl | rfl
  · exact describes_ofBool isAddress _
  · exact describes_ofBool isAddress _

/-- Which operation an operator is. -/
theorem operator_cases {op : String} {apply : Value → Value → Except ValueError Value}
    (known : Evaluation.operator? op = some apply) :
    (∃ arith : Arith, apply = arith.apply ∧ isArithmetic op = true ∧ isOrder op = false) ∨
    (∃ compare : Compare, apply = compare.apply ∧ isOrder op = true) ∨
    ∃ compare : Compare, apply = compare.apply ∧ (compare = .eq ∨ compare = .neq) ∧
      isArithmetic op = false ∧ isOrder op = false ∧ isEquality op = true := by
  unfold Evaluation.operator? at known
  iterate 5
    rcases ite_eq_iff.mp known with ⟨rfl, ⟨⟩⟩ | ⟨-, known⟩
    · exact .inl ⟨_, rfl, by decide, by decide⟩
  iterate 4
    rcases ite_eq_iff.mp known with ⟨rfl, ⟨⟩⟩ | ⟨-, known⟩
    · exact .inr (.inl ⟨_, rfl, by decide⟩)
  iterate 2
    rcases ite_eq_iff.mp known with ⟨rfl, ⟨⟩⟩ | ⟨-, known⟩
    · exact .inr (.inr ⟨_, rfl, by simp, by decide, by decide, by decide⟩)
  cases known

/-- An operation whose operands have types that it accepts is defined for their values. -/
theorem defined_operation {op : String} {apply : Value → Value → Except ValueError Value}
    (known : Evaluation.operator? op = some apply) (accepted : operation op left right = .ok type)
    (knownLeft : left ≠ .any) (knownRight : right ≠ .any)
    (describedLeft : left.Describes isAddress a) (describedRight : right.Describes isAddress b) :
    Defined (type.Describes isAddress) (apply a b) := by
  unfold operation at accepted
  rcases operator_cases known with ⟨arith, rfl, isArith, notOrder⟩ | ⟨compare, rfl, isOrder⟩ |
    ⟨compare, rfl, isEqual, notArith, notOrder, isEquality⟩
  · simp only [isArith, notOrder, Bool.or_false, if_true, Bool.false_eq_true, if_false] at accepted
    split at accepted
    next numeric =>
      rw [Bool.and_eq_true] at numeric
      refine defined_arith arith knownLeft knownRight numeric.1 numeric.2 ?_ describedLeft
        describedRight
      split at accepted
      · cases accepted
        rfl
      · exact absurd rfl knownLeft
      · exact absurd rfl knownRight
      next _ _ notInts =>
        cases accepted
        rw [if_neg]
        rintro ⟨rfl, rfl⟩
        exact notInts rfl rfl
    next => cases accepted
  · simp only [isOrder, Bool.or_true, if_true] at accepted
    split at accepted
    next numeric =>
      rw [Bool.and_eq_true] at numeric
      cases accepted
      exact defined_order compare knownLeft knownRight numeric.1 numeric.2 describedLeft
        describedRight
    next => cases accepted
  · simp only [notArith, notOrder, isEquality, Bool.or_false, Bool.false_eq_true, if_false,
      if_true] at accepted
    split at accepted
    · cases accepted
      exact defined_equality compare isEqual
    · cases accepted

end Typing

namespace Evaluation

/-- The values that stand for addresses up to a bound. -/
def IsAddress (bound : Nat) (value : Value) : Prop :=
  ∃ address, address ≤ bound ∧ value = Machine.ofAddress address

/-- A value is of a type that is known, with addresses up to a bound. -/
def Has (bound : Nat) (type : Option Ty) (value : Value) : Prop :=
  ∃ known, type = some known ∧ known.Describes (IsAddress bound) value

theorem Has.mono {bound bound' : Nat} {type : Option Ty} {value : Value}
    (has : Has bound type value) (le : bound ≤ bound') : Has bound' type value := by
  obtain ⟨known, isType, described⟩ := has
  refine ⟨known, isType, described.mono ?_⟩
  rintro _ ⟨address, within, rfl⟩
  exact ⟨address, Nat.le_trans within le, rfl⟩

section Safe

variable {α β : Type} (types : Nat → Option Ty) (base : Nat)

/-- No address exceeds this: those of the code are up to a base, those of cells up to the top. -/
def bound (heap : Heap) : Nat :=
  max base heap.top

/-- Variables that have values have values of their types. -/
def Typed (state : State) : Prop :=
  ∀ id value, types id ≠ none → state.vars id = some value →
    Has (bound base state.heap) (types id) value

/-- An evaluation from a heap came to a result of which something holds, with variables of their
types, or stopped for another reason than the kinds of operands. -/
def Ends (start : Heap) (post : Nat → α → Prop) : EStateM.Result Stop State α → Prop
  | .ok value after => Typed types base after ∧ start.top ≤ after.heap.top ∧
      post (bound base after.heap) value
  | .error stop _ => stop.isUnsupported = false

/-- Variables of their types are left so, and the result is as stated. -/
def Safe (pre : Nat → Prop) (post : Nat → α → Prop) (evaluation : Eval α) : Prop :=
  ∀ state, Typed types base state → pre (bound base state.heap) →
    Ends types base state.heap post (evaluation state)

variable {types base} {pre pre' : Nat → Prop} {post post' : Nat → α → Prop}
  {last : Nat → β → Prop}

theorem bound_mono {heap heap' : Heap} (le : heap.top ≤ heap'.top) :
    bound base heap ≤ bound base heap' := by
  unfold bound
  omega

/-- The same variables with a larger heap. -/
theorem Typed.grow {state after : State} (typed : Typed types base state)
    (vars : after.vars = state.vars) (le : state.heap.top ≤ after.heap.top) :
    Typed types base after := by
  intro id value known held
  rw [vars] at held
  exact (typed id value known held).mono (bound_mono le)

theorem Safe.pure {a : α} (holds : ∀ n, pre n → post n a) :
    Safe types base pre post (Pure.pure a : Eval α) :=
  fun _ typed before => ⟨typed, Nat.le_refl _, holds _ before⟩

theorem Safe.throw {stop : Stop} (proper : stop.isUnsupported = false) :
    Safe types base pre post (throwThe Stop stop : Eval α) :=
  fun _ _ _ => proper

theorem Safe.weaken {evaluation : Eval α} (safe : Safe types base pre post evaluation)
    (stronger : ∀ n, pre' n → pre n) (weaker : ∀ n a, post n a → post' n a) :
    Safe types base pre' post' evaluation := by
  intro state typed before
  have here := safe state typed (stronger _ before)
  cases ended : evaluation state with
  | error stop after =>
    rw [ended] at here
    exact here
  | ok value after =>
    rw [ended] at here
    exact ⟨here.1, here.2.1, weaker _ _ here.2.2⟩

theorem Safe.bind {evaluation : Eval α} {next : α → Eval β}
    (safe : Safe types base pre post evaluation)
    (safeNext : ∀ a, Safe types base (fun n => post n a) last (next a)) :
    Safe types base pre last (evaluation >>= next) := by
  intro state typed before
  have here := safe state typed before
  show Ends types base state.heap last (EStateM.bind evaluation next state)
  unfold EStateM.bind
  cases ended : evaluation state with
  | error stop after =>
    rw [ended] at here
    exact here
  | ok a after =>
    rw [ended] at here
    obtain ⟨typed₁, grown₁, holds⟩ := here
    have there := safeNext a after typed₁ holds
    cases ended₂ : next a after with
    | error stop after₂ =>
      rw [ended₂] at there
      simp only [ended₂]
      exact there
    | ok b after₂ =>
      rw [ended₂] at there
      simp only [ended₂]
      exact ⟨there.1, Nat.le_trans grown₁ there.2.1, there.2.2⟩

/-- What holds also under larger bounds holds still after an evaluation. -/
theorem Safe.frame {evaluation : Eval α} {held : Nat → Prop}
    (safe : Safe types base pre post evaluation) (mono : ∀ {m n}, m ≤ n → held m → held n) :
    Safe types base (fun n => pre n ∧ held n) (fun n a => post n a ∧ held n) evaluation := by
  intro state typed before
  have here := safe state typed before.1
  cases ended : evaluation state with
  | error stop after =>
    rw [ended] at here
    exact here
  | ok a after =>
    rw [ended] at here
    exact ⟨here.1, here.2.1, here.2.2, mono (bound_mono here.2.1) before.2⟩

/-- Nothing need hold before. -/
theorem Safe.from_nothing {evaluation : Eval α}
    (safe : Safe types base (fun _ => True) post evaluation) :
    Safe types base pre post evaluation :=
  safe.weaken (fun _ _ => trivial) fun _ _ holds => holds

theorem safe_expect {value : Option Value} {type : Nat → Value → Prop}
    (holds : ∀ v, value = some v → ∀ n, pre n → type n v) :
    Safe types base pre type (expect value) := by
  cases value with
  | none => exact .throw rfl
  | some v => exact .pure (holds v rfl)

theorem safe_settle {result : Except ValueError Value} {type : Nat → Value → Prop}
    (defined : ∀ n, pre n → Typing.Defined (type n) result) :
    Safe types base pre type (settle result) := by
  intro state typed before
  have here := defined _ before
  cases result with
  | ok value => exact ⟨typed, Nat.le_refl _, here⟩
  | error e => exact here

theorem safe_readVar (id : Nat) :
    Safe types base pre (fun n value => types id ≠ none → Has n (types id) value) (readVar id) := by
  intro state typed _
  show Ends types base state.heap _ (expect (state.vars id) state)
  cases held : state.vars id with
  | none => rfl
  | some value => exact ⟨typed, Nat.le_refl _, fun known => typed id value known held⟩

/-- A variable may be given a value of its type. -/
theorem safe_writeVar {id : Nat} {value : Value} :
    Safe types base (fun n => Has n (types id) value) (fun n _ => Has n (types id) value)
      (writeVar id value) := by
  intro state typed has
  refine ⟨?_, Nat.le_refl _, has⟩
  intro other held known found
  dsimp only at found
  split at found
  next same =>
    cases found
    rw [same]
    exact has
  next => exact typed other held known found

theorem safe_writeOnce {id : Nat} {value : Value} :
    Safe types base (fun n => Has n (types id) value) (fun n _ => Has n (types id) value)
      (writeOnce id value) := by
  refine ((safe_readVar id).frame fun le has => Has.mono has le).weaken
    (fun n has => ⟨trivial, has⟩) (fun n held both => both.2) |>.bind fun held => ?_
  cases held with
  | null => exact safe_writeVar
  | int | real => exact .throw rfl

theorem safe_allocate {values : List Value} :
    Safe types base pre (fun n value => IsAddress n value) (allocate values) := by
  intro state typed _
  have grown := (grows_allocate values state).top_le
  show Ends types base state.heap _ (.ok (Machine.ofAddress state.heap.top)
    { state with
      heap := (state.heap.handOut (state.heap.top + values.length)).fill state.heap.top values })
  refine ⟨typed.grow rfl grown, grown, state.heap.top, ?_, rfl⟩
  exact Nat.le_trans (Nat.le_max_right _ _) (bound_mono grown)

/-- In a fresh activation the parameters hold values of their types. -/
theorem typed_parameters {params : List (Node Tag)} {values : List Value} {heap : Heap}
    (has : List.Forall₂ (Has (bound base heap)) (params.map fun param => types param.id) values) :
    Typed types base ⟨parameters params values, heap⟩ := by
  intro id value known held
  induction params generalizing values with
  | nil => cases held
  | cons param params ih =>
    cases has with
    | cons first rest =>
      simp only [parameters] at held
      split at held
      next same =>
        cases held
        rw [same]
        exact first
      next => exact ih rest held

/-- A call leaves the variables of the caller. -/
theorem Safe.activate {evaluate : Node Tag → Eval Value} {params : List (Node Tag)}
    {body : Node Tag} {values : List Value}
    (safe : Safe types base (fun _ => True) (fun n value => Has n (types body.id) value)
      (evaluate body)) :
    Safe types base
      (fun n => List.Forall₂ (Has n) (params.map fun param => types param.id) values)
      (fun n value => Has n (types body.id) value) (activate evaluate params body values) := by
  intro state typed has
  have here := safe { state with vars := parameters params values } (typed_parameters has) trivial
  rw [activate_eq]
  show Ends types base state.heap _ (EStateM.bind (evaluate body) _ _)
  unfold EStateM.bind
  cases ended : evaluate body { state with vars := parameters params values } with
  | error stop after =>
    rw [ended] at here
    exact here
  | ok value after =>
    rw [ended] at here
    exact ⟨typed.grow rfl here.2.1, here.2.1, here.2.2⟩

theorem Safe.repeatWhile {pred body : Eval Value} {postPred postBody : Nat → Value → Prop}
    (safePred : Safe types base (fun _ => True) postPred pred)
    (safeBody : Safe types base (fun _ => True) postBody body) (fuel : Nat) :
    Safe types base (fun _ => True) (fun _ value => value = .null)
      (repeatWhile pred body fuel) := by
  induction fuel with
  | zero => exact .throw rfl
  | succ fuel ih =>
    refine safePred.bind fun value => ?_
    split
    · exact .pure fun _ _ => rfl
    · exact safeBody.from_nothing.bind fun _ => ih.from_nothing

end Safe

/-- Every node has its type by the rules, and no address of a function exceeds a base. -/
structure WellTyped (env : Env) (types : Nat → Option Ty) (variableIds : List Nat) (base : Nat) :
    Prop where
  ruled : ∀ node ∈ env.nodes,
    Typing.Ruled types (fun use => (env.annotations.get use).binding) variableIds node
  known : ∀ node ∈ env.nodes, types node.id ≠ some .any
  variableIds : ∀ tag mutability name type value,
    .declare tag mutability name type value ∈ env.nodes → tag.id ∈ variableIds
  callees : ∀ tag callee args trailing, .call tag callee args trailing ∈ env.nodes →
    ∃ tag' name, callee = .leaf tag' (.valueId name)
  entries : ∀ id, env.entry id ≤ base

section Trees

variable {env : Env} {types : Nat → Option Ty} {variableIds : List Nat} {base fuel : Nat}
  {invoke : List (Node Tag) → Node Tag → List Value → Eval Value}

/-- The value of a node is of its type. -/
def Preserves (env : Env) (types : Nat → Option Ty) (base fuel : Nat)
    (invoke : List (Node Tag) → Node Tag → List Value → Eval Value) (node : Node Tag) : Prop :=
  Safe types base (fun _ => True) (fun n value => Has n (types node.id) value)
    (eval env fuel invoke node)

/-- Calls with arguments of the types of the parameters give values of the type of the body. -/
def PreservesCalls (env : Env) (types : Nat → Option Ty) (base : Nat)
    (invoke : List (Node Tag) → Node Tag → List Value → Eval Value) : Prop :=
  ∀ tag name params body result, .define tag name params body result ∈ env.nodes → ∀ values,
    Safe types base
      (fun n => List.Forall₂ (Has n) (params.map fun param => types param.id) values)
      (fun n value => Has n (types body.id) value) (invoke params body values)

section Lists

variable {nodes : List (Node Tag)} (each : ∀ node ∈ nodes, Preserves env types base fuel invoke node)

include each

theorem safe_evalAll :
    Safe types base (fun _ => True)
      (fun n values => List.Forall₂ (Has n) (nodes.map fun node => types node.id) values)
      (evalAll env fuel invoke nodes) := by
  induction nodes with
  | nil =>
    rw [evalAll]
    exact .pure fun _ _ => .nil
  | cons node rest ih =>
    rw [evalAll]
    refine (each node (by simp)).bind fun value => ?_
    refine ((ih fun other member => each other (by simp [member])).frame
      fun le has => Has.mono has le).weaken (fun n has => ⟨trivial, has⟩)
      (fun n values both => both) |>.bind fun values => ?_
    exact .pure fun n both => .cons both.2 both.1

theorem safe_evalStatements {last : Option Value} {lastType : Option Ty} :
    Safe types base (fun n => ∀ value, last = some value → Has n lastType value)
      (fun n result => ∀ value, result = some value →
        Has n (Typing.statementsType types lastType nodes) value)
      (evalStatements env fuel invoke last nodes) := by
  induction nodes generalizing last lastType with
  | nil =>
    rw [evalStatements]
    exact .pure fun _ has => has
  | cons node rest ih =>
    have inRest := fun {last lastType} =>
      @ih (fun other member => each other (by simp [member])) last lastType
    rw [evalStatements, Typing.statementsType]
    split
    · exact inRest
    · refine (each node (by simp)).from_nothing.bind fun value => ?_
      refine inRest.weaken (fun n has => ?_) fun _ _ holds => holds
      rintro _ ⟨⟩
      exact has

end Lists

/-- What a use refers to is a node of the program with that identity. -/
theorem declaration?_some {use : Nat} {declaration : Node Tag}
    (found : env.declaration? use = some declaration) :
    (env.annotations.get use).binding = some declaration.id ∧ declaration ∈ env.nodes := by
  obtain ⟨id, bound, found⟩ := Option.bind_eq_some_iff.mp found
  obtain ⟨member, rfl⟩ := Node.of_find?_id found
  exact ⟨bound, member⟩

/-- A function is known by the address of its code. -/
theorem WellTyped.has_function (wellTyped : WellTyped env types variableIds base) {tag : Tag}
    {name : String} {params : List (Node Tag)} {body : Node Tag} {result : Option String}
    (member : .define tag name params body result ∈ env.nodes) (heap : Heap) :
    Has (bound base heap) (types tag.id) (env.function tag.id) := by
  obtain ⟨paramTypes, resultType, isType, _⟩ := wellTyped.ruled _ member
  refine ⟨_, isType, env.entry tag.id, ?_, rfl⟩
  exact Nat.le_trans (wellTyped.entries tag.id) (Nat.le_max_left _ _)

section Nodes

variable {tag : Tag} {name : String}

theorem preserves_name (wellTyped : WellTyped env types variableIds base)
    (member : .leaf tag (.valueId name) ∈ env.nodes) :
    Preserves env types base fuel invoke (.leaf tag (.valueId name)) := by
  obtain ⟨id, type, bound, isType, same⟩ := wellTyped.ruled _ member
  show Safe types base _ (fun n value => Has n (types tag.id) value) _
  rw [same, ← isType, eval]
  have known : types id ≠ none := by
    rw [isType]
    nofun
  cases found : env.declaration? tag.id with
  | none => exact .throw rfl
  | some declaration =>
    obtain ⟨refers, inside⟩ := declaration?_some found
    cases bound.symm.trans refers
    cases declaration with
    | declare | param =>
      exact (safe_readVar _).weaken (fun _ before => before) fun _ _ has => has known
    | define => exact fun state typed _ => ⟨typed, Nat.le_refl _, wellTyped.has_function inside _⟩
    | _ => exact .throw rfl

/-- A literal has the type that goes with its kind. -/
theorem preserves_leaf (wellTyped : WellTyped env types variableIds base) {kind : Leaf}
    (member : .leaf tag kind ∈ env.nodes) :
    Preserves env types base fuel invoke (.leaf tag kind) := by
  cases kind with
  | valueId name => exact preserves_name wellTyped member
  | int text =>
    unfold Preserves
    rw [eval]
    refine safe_expect fun value isLiteral _ _ => ⟨_, wellTyped.ruled _ member, ?_⟩
    obtain ⟨n, _, rfl⟩ := Option.map_eq_some_iff.mp isLiteral
    exact ⟨n, rfl⟩
  | real text =>
    unfold Preserves
    rw [eval]
    generalize literal : Literal.real? text = found
    refine safe_expect fun value isLiteral _ _ => ⟨_, wellTyped.ruled _ member, ?_⟩
    rw [isLiteral] at literal
    obtain ⟨x, _, rfl⟩ := Option.map_eq_some_iff.mp literal
    exact ⟨x, rfl⟩
  | bool text =>
    unfold Preserves
    rw [eval]
    exact .pure fun _ _ => ⟨_, wellTyped.ruled _ member, Typing.describes_ofBool _ _⟩
  | unit | noop =>
    unfold Preserves
    rw [eval]
    exact .pure fun _ _ => ⟨_, wellTyped.ruled _ member, rfl⟩
  | typeId | symbolId =>
    unfold Preserves
    rw [eval]
    exact .throw rfl

theorem preserves_declare (wellTyped : WellTyped env types variableIds base)
    {mutability : Mutability} {written : Option String} {value : Node Tag}
    (member : .declare tag mutability name written value ∈ env.nodes)
    (preserved : Preserves env types base fuel invoke value) :
    Preserves env types base fuel invoke (.declare tag mutability name written value) := by
  have same : types tag.id = types value.id := wellTyped.ruled _ member
  show Safe types base _ (fun n value => Has n (types tag.id) value) _
  rw [eval]
  unfold Preserves at preserved
  rw [← same] at preserved
  exact preserved.bind fun result => safe_writeVar.bind fun _ => .pure fun _ has => has

theorem preserves_assign (wellTyped : WellTyped env types variableIds base) {value : Node Tag}
    (member : .assign tag name value ∈ env.nodes)
    (preserved : Preserves env types base fuel invoke value) :
    Preserves env types base fuel invoke (.assign tag name value) := by
  obtain ⟨same, target⟩ := wellTyped.ruled _ member
  show Safe types base _ (fun n value => Has n (types tag.id) value) _
  rw [same, eval]
  cases found : env.declaration? tag.id with
  | none => exact .throw rfl
  | some declaration =>
    obtain ⟨refers, inside⟩ := declaration?_some found
    cases declaration with
    | declare declared mutability name' written initial =>
      have isTarget := target declared.id refers (wellTyped.variableIds _ _ _ _ _ inside)
      unfold Preserves at preserved
      rw [← isTarget] at preserved ⊢
      cases mutability with
      | var => exact preserved.bind fun _ => safe_writeVar.bind fun _ => .pure fun _ has => has
      | val =>
        dsimp only
        split
        · exact preserved.bind fun _ => safe_writeOnce.bind fun _ => .pure fun _ has => has
        · exact .throw rfl
    | _ => exact .throw rfl

theorem preserves_binary (wellTyped : WellTyped env types variableIds base) {op : String}
    {left right : Node Tag} (member : .binary tag op left right ∈ env.nodes)
    (isLeft : left ∈ env.nodes) (isRight : right ∈ env.nodes)
    (preservedLeft : Preserves env types base fuel invoke left)
    (preservedRight : Preserves env types base fuel invoke right) :
    Preserves env types base fuel invoke (.binary tag op left right) := by
  obtain ⟨leftType, rightType, type, notedLeft, notedRight, accepted, isType⟩ :=
    wellTyped.ruled _ member
  have knownLeft : leftType ≠ .any := fun isAny => wellTyped.known left isLeft (isAny ▸ notedLeft)
  have knownRight : rightType ≠ .any :=
    fun isAny => wellTyped.known right isRight (isAny ▸ notedRight)
  show Safe types base _ (fun n value => Has n (types tag.id) value) _
  rw [isType, eval]
  cases known : operator? op with
  | none => exact .throw rfl
  | some apply =>
    refine preservedLeft.bind fun a => ?_
    refine (preservedRight.frame fun le has => Has.mono has le).weaken
      (fun n has => ⟨trivial, has⟩) (fun _ _ both => both) |>.bind fun b => ?_
    refine safe_settle fun n both => ?_
    obtain ⟨⟨_, isRightType, describedRight⟩, _, isLeftType, describedLeft⟩ := both
    cases notedLeft.symm.trans isLeftType
    cases notedRight.symm.trans isRightType
    have defined := Typing.defined_operation known accepted knownLeft knownRight describedLeft
      describedRight
    cases result : apply a b with
    | error e =>
      rw [result] at defined
      exact defined
    | ok value =>
      rw [result] at defined
      exact ⟨type, rfl, defined⟩

theorem preserves_branch (wellTyped : WellTyped env types variableIds base) {pred yes no : Node Tag}
    (member : .branch tag pred yes no ∈ env.nodes)
    (preservedPred : Preserves env types base fuel invoke pred)
    (preservedYes : Preserves env types base fuel invoke yes)
    (preservedNo : Preserves env types base fuel invoke no) :
    Preserves env types base fuel invoke (.branch tag pred yes no) := by
  obtain ⟨sameYes, sameNo⟩ := wellTyped.ruled _ member
  unfold Preserves at preservedYes preservedNo ⊢
  rw [← sameYes] at preservedYes
  rw [← sameNo] at preservedNo
  rw [eval]
  refine preservedPred.bind fun value => ?_
  split
  · exact preservedNo.from_nothing
  · exact preservedYes.from_nothing

/-- A call gives the arguments that the parameters expect, and what the body has. -/
theorem preserves_call (wellTyped : WellTyped env types variableIds base) {callee : Node Tag}
    {args : List (Node Tag)} {trailing : Option (Node Tag)}
    (member : .call tag callee args trailing ∈ env.nodes) (isCallee : callee ∈ env.nodes)
    (calls : PreservesCalls env types base invoke)
    (each : ∀ arg ∈ args, Preserves env types base fuel invoke arg) :
    Preserves env types base fuel invoke (.call tag callee args trailing) := by
  obtain ⟨argTypes, result, calleeType, isArgs, isType⟩ := wellTyped.ruled _ member
  obtain ⟨tag', name, rfl⟩ := wellTyped.callees _ _ _ _ member
  obtain ⟨id, type, bound, idType, sameType⟩ := wellTyped.ruled _ isCallee
  show Safe types base _ (fun n value => Has n (types tag.id) value) _
  rw [eval]
  cases found : env.declaration? (Node.leaf tag' (.valueId name)).id with
  | none => exact .throw rfl
  | some declaration =>
    obtain ⟨refers, inside⟩ := declaration?_some found
    cases bound.symm.trans refers
    cases declaration with
    | define function _ params body written =>
      obtain ⟨paramTypes, bodyType, functionType, isParams, isBody⟩ := wellTyped.ruled _ inside
      have same : Ty.function argTypes result = .function paramTypes bodyType := by
        have := calleeType.symm.trans (sameType.trans (idType.symm.trans functionType))
        exact Option.some.inj this
      cases same
      refine (safe_evalAll each).bind fun values => ?_
      have called := calls _ _ params body _ inside values
      rw [isParams, ← isArgs, isBody, ← isType] at called
      exact called
    | _ => exact .throw rfl

end Nodes

/-- The value of every node is of its type. -/
theorem preserves_eval (wellTyped : WellTyped env types variableIds base)
    (calls : PreservesCalls env types base invoke) {node : Node Tag}
    (inside : node.preorder ⊆ env.nodes) : Preserves env types base fuel invoke node := by
  induction node using Node.childInduction with
  | step node ih =>
    have each : ∀ child ∈ node.children, Preserves env types base fuel invoke child :=
      fun child isChild => ih child isChild
        fun _ below => inside (Node.preorder_subset_of_child isChild below)
    have among : ∀ child ∈ node.children, child ∈ env.nodes := fun child isChild =>
      inside (Node.preorder_subset_of_child isChild child.self_mem_preorder)
    have member := inside node.self_mem_preorder
    have ruled := wellTyped.ruled node member
    cases node with
    | leaf tag kind => exact preserves_leaf wellTyped member
    | param | orElse =>
      unfold Preserves
      rw [eval]
      exact .throw rfl
    | program tag _ body | block tag body =>
      have same : types tag.id = Typing.statementsType types (some .unit) body := ruled
      show Safe types base _ (fun n value => Has n (types tag.id) value) _
      rw [same, eval]
      have safe := @safe_evalStatements _ _ _ _ _ _ each none (some .unit)
      refine (safe.weaken (fun _ _ => nofun) fun _ _ holds => holds).bind fun result => ?_
      exact safe_expect fun value isResult n has => has value isResult
    | define =>
      unfold Preserves
      rw [eval]
      exact fun state typed _ => ⟨typed, Nat.le_refl _, wellTyped.has_function member _⟩
    | declare tag mutability name written value =>
      exact preserves_declare wellTyped member (each value (by simp [Node.children]))
    | assign tag name value =>
      exact preserves_assign wellTyped member (each value (by simp [Node.children]))
    | branch tag pred yes no =>
      exact preserves_branch wellTyped member (each pred (by simp [Node.children]))
        (each yes (by simp [Node.children])) (each no (by simp [Node.children]))
    | loop tag pred body =>
      unfold Preserves
      rw [eval]
      have safe := Safe.repeatWhile (each pred (by simp [Node.children]))
        (each body (by simp [Node.children])) fuel
      exact safe.weaken (fun _ before => before) fun _ _ isNull => ⟨_, ruled, isNull⟩
    | binary tag op left right =>
      exact preserves_binary wellTyped member (among left (by simp [Node.children]))
        (among right (by simp [Node.children])) (each left (by simp [Node.children]))
        (each right (by simp [Node.children]))
    | call tag callee args trailing =>
      exact preserves_call wellTyped member (among callee (by simp [Node.children])) calls
        fun arg isArg => each arg (by simp [Node.children, isArg])
    | aggregate tag kind elements =>
      unfold Preserves
      rw [eval]
      refine (safe_evalAll each).bind fun values => ?_
      refine safe_allocate.weaken (fun _ before => before) fun n value isAddress => ?_
      rcases ruled with ⟨items, isType⟩ | ⟨item, isType⟩
      · exact ⟨_, isType, isAddress⟩
      · exact ⟨_, isType, isAddress⟩

end Trees

/-- The value of a tree is of its type, however many calls are inside each other. -/
theorem preserves_evaluate {env : Env} {types : Nat → Option Ty} {variableIds : List Nat}
    {base : Nat} (wellTyped : WellTyped env types variableIds base)
    (closed : ∀ node ∈ env.nodes, node.preorder ⊆ env.nodes) (fuel : Nat) {node : Node Tag}
    (member : node ∈ env.nodes) :
    Safe types base (fun _ => True) (fun n value => Has n (types node.id) value)
      (evaluate env fuel node) := by
  induction fuel generalizing node with
  | zero => exact preserves_eval wellTyped (fun _ _ _ _ _ _ _ => .throw rfl) (closed node member)
  | succ fuel ih =>
    refine preserves_eval wellTyped (fun tag name params body result isFunction values => ?_)
      (closed node member)
    refine Safe.activate (ih (closed _ isFunction ?_))
    exact Node.preorder_subset_of_child (by simp [Node.children]) body.self_mem_preorder

end Evaluation

end ScriptVM
