import Mathlib.Logic.Function.Iterate
import ScriptVM.Proofs.Phrases

/-!
Operators without brackets.

Operands of one token each with operators between them can be read as many trees. In one of them
only does every operator bind as its level says: looser operators stand above tighter ones, and of
several at one level the last stands above the others, but for the tightest level, where the first
does. The parser climbs through the levels and finds this tree. What carries the induction is the
level at which an expression was asked for: no operator in it is looser, and the one after it is.
-/
namespace ScriptVM

open Token (Kind)

namespace Grammar

/-- Whether a token is an operand by itself. -/
def isOperand : Kind → Bool
  | .int _ | .real _ | .valueId _ | .typeId _ => true
  | .word .yes | .word .no => true
  | _ => false

/-- Operands of one token each, with operators between them. -/
inductive Chain : List Kind → Prop
  | operand {kind : Kind} (isOperand : isOperand kind = true) : Chain [kind]
  | operation {kind : Kind} {op : String} {kinds : List Kind} (isOperand : isOperand kind = true)
      (rest : Chain kinds) : Chain (kind :: .symbol op :: kinds)

/-- How tightly an operator holds its operands. -/
def tightness (op : String) : Nat :=
  if op = "^" then 3 else if op ∈ ["*", "/", "%"] then 2 else if op ∈ ["+", "-"] then 1 else 0

/-- Whether an operation may be the left operand of another without brackets. Only the tightest
operator associates to the right. -/
def MayStandLeft (inner op : String) : Prop :=
  if op = "^" then tightness op < tightness inner else tightness op ≤ tightness inner

/-- Whether an operation may be the right operand of another without brackets. -/
def MayStandRight (inner op : String) : Prop :=
  if op = "^" then tightness op ≤ tightness inner else tightness op < tightness inner

end Grammar

/-- The token that is an operand by itself and makes this leaf. -/
def Leaf.token? : Leaf → Option Kind
  | .int text => some (.int text)
  | .real text => some (.real text)
  | .bool text =>
    if text = Keyword.yes.spelling then some (.word .yes)
    else if text = Keyword.no.spelling then some (.word .no)
    else none
  | .valueId name => some (.valueId name)
  | .typeId name => some (.typeId name)
  | _ => none

namespace Node

variable {α : Type}

/-- The operator of an operation. -/
def operator? : Node α → Option String
  | binary _ op _ _ => some op
  | _ => none

/-- The tokens of a tree of operations from left to right. -/
def inOrder? : Node α → Option (List Kind)
  | leaf _ kind => kind.token?.map ([·])
  | binary _ op left right => do
    let before ← left.inOrder?
    let after ← right.inOrder?
    return before ++ .symbol op :: after
  | _ => none

/-- Every operation in a tree may stand where it stands without brackets. -/
def BindsByLevel : Node α → Prop
  | binary _ op left right =>
    (∀ inner, left.operator? = some inner → Grammar.MayStandLeft inner op) ∧
      (∀ inner, right.operator? = some inner → Grammar.MayStandRight inner op) ∧
      left.BindsByLevel ∧ right.BindsByLevel
  | _ => True

end Node

namespace Grammar

section Levels

variable {inner op : String}

theorem level_eq (op : String) : Parser.level op = tightness op + 1 := by
  unfold Parser.level tightness
  by_cases power : op = "^"
  · simp [power]
  · by_cases product : op = "*" ∨ op = "/" ∨ op = "%"
    · simp [power, product]
    · by_cases sum : op = "+" ∨ op = "-" <;> simp [power, product, sum]

theorem tightness_le (op : String) : tightness op ≤ 3 := by
  unfold tightness
  repeat' split
  all_goals decide

theorem tightness_eq_iff : tightness op = 3 ↔ op = "^" := by
  unfold tightness
  constructor
  · intro tightest
    by_contra other
    rw [if_neg other] at tightest
    repeat' split at tightest
    all_goals cases tightest
  · rintro rfl
    rfl

theorem mayStandLeft_iff : MayStandLeft inner op ↔
    tightness op < tightness inner ∨ tightness op = tightness inner ∧ tightness op < 3 := by
  have := tightness_le op
  unfold MayStandLeft
  simp only [← tightness_eq_iff]
  split <;> omega

theorem mayStandRight_iff : MayStandRight inner op ↔
    tightness op < tightness inner ∨ tightness op = tightness inner ∧ tightness op = 3 := by
  unfold MayStandRight
  simp only [← tightness_eq_iff]
  split <;> omega

/-- Of two operators only one can stand above the other where they are. -/
theorem not_mayStandRight {first second : String} (left : MayStandLeft first second) :
    ¬ MayStandRight second first := by
  rw [mayStandLeft_iff] at left
  rw [mayStandRight_iff]
  omega

theorem rightLevel_eq (op : String) :
    Parser.rightLevel op = if tightness op = 3 then 4 else tightness op + 2 := by
  unfold Parser.rightLevel
  rw [level_eq]
  simp only [← tightness_eq_iff]
  split <;> omega

/-- The operator after what was read on the right of another may take both as its left operand. -/
theorem mayStandLeft_of_lt (looser : Parser.level op < Parser.rightLevel inner) :
    MayStandLeft inner op := by
  have := tightness_le inner
  rw [level_eq, rightLevel_eq] at looser
  rw [mayStandLeft_iff]
  split at looser <;> omega

theorem mayStandRight_of_le (tighter : Parser.rightLevel op ≤ Parser.level inner) :
    MayStandRight inner op := by
  have := tightness_le inner
  rw [level_eq, rightLevel_eq] at tighter
  rw [mayStandRight_iff]
  split at tighter <;> omega

end Levels

section Uniqueness

variable {node other left right : Node Unit} {kinds : List Kind} {op : String}

theorem inOrder?_binary : (Node.binary () op left right).inOrder? = some kinds ↔
    ∃ before after, left.inOrder? = some before ∧ right.inOrder? = some after ∧
      before ++ .symbol op :: after = kinds := by
  cases first : left.inOrder? <;> cases second : right.inOrder? <;>
    simp [Node.inOrder?, first, second]

/-- A tree without operators is one token. -/
theorem inOrder?_of_operator?_none (read : node.inOrder? = some kinds)
    (none : node.operator? = none) :
    ∃ leaf kind, node = .leaf () leaf ∧ leaf.token? = some kind ∧ kinds = [kind] := by
  cases node with
  | leaf tag leaf =>
    obtain ⟨kind, isToken, rfl⟩ := Option.map_eq_some_iff.mp read
    exact ⟨leaf, kind, rfl, isToken, rfl⟩
  | binary tag op left right => cases none
  | _ => cases read

theorem operator?_eq_some (isRoot : node.operator? = some op) :
    ∃ left right, node = .binary () op left right := by
  cases node with
  | binary tag root left right =>
    cases isRoot
    exact ⟨left, right, rfl⟩
  | _ => cases isRoot

theorem token?_ne_symbol {leaf : Leaf} : leaf.token? ≠ some (.symbol op) := by
  cases leaf with
  | bool text =>
    unfold Leaf.token?
    dsimp only
    repeat' split
    all_goals nofun
  | _ => nofun

theorem not_mem_of_operator?_none (read : node.inOrder? = some kinds)
    (none : node.operator? = none) : Kind.symbol op ∉ kinds := by
  obtain ⟨leaf, kind, -, isToken, rfl⟩ := inOrder?_of_operator?_none read none
  rintro inside
  cases List.mem_singleton.mp inside
  exact token?_ne_symbol isToken

/-- The leaf that a token makes. -/
def operandLeaf : Kind → Leaf
  | .int text => .int text
  | .real text => .real text
  | .word keyword => .bool keyword.spelling
  | .valueId name => .valueId name
  | .typeId name => .typeId name
  | _ => .unit

theorem eq_operandLeaf {leaf : Leaf} {kind : Kind} (isToken : leaf.token? = some kind) :
    leaf = operandLeaf kind := by
  cases leaf with
  | bool text =>
    simp only [Leaf.token?] at isToken
    split at isToken
    next yes =>
      cases isToken
      exact congrArg _ yes
    next =>
      split at isToken
      next no =>
        cases isToken
        exact congrArg _ no
      next => cases isToken
  | symbolId | unit | noop => cases isToken
  | _ =>
    cases isToken
    rfl

theorem token?_operandLeaf {kind : Kind} (operand : isOperand kind = true) :
    (operandLeaf kind).token? = some kind := by
  cases kind with
  | word keyword => cases keyword <;> first | rfl | cases operand
  | int | real | valueId | typeId => rfl
  | _ => cases operand

/-- No operator in a tree is looser than its own. -/
theorem tightness_le_of_mem {root : String} (read : node.inOrder? = some kinds)
    (binds : node.BindsByLevel) (isRoot : node.operator? = some root)
    (inside : Kind.symbol op ∈ kinds) : tightness root ≤ tightness op := by
  induction node using Node.inOrder?.induct generalizing kinds root with
  | case1 => cases isRoot
  | case3 node _ noOperation =>
    obtain ⟨left, right, rfl⟩ := operator?_eq_some isRoot
    exact absurd rfl (noOperation () root left right)
  | case2 tag outer left right ihLeft ihRight =>
    cases isRoot
    obtain ⟨before, after, readLeft, readRight, rfl⟩ := inOrder?_binary.mp read
    simp only [Node.BindsByLevel, mayStandLeft_iff, mayStandRight_iff] at binds
    obtain ⟨mayLeft, mayRight, bindsLeft, bindsRight⟩ := binds
    rcases List.mem_append.mp inside with inLeft | inside
    · cases isInner : left.operator? with
      | none => exact absurd inLeft (not_mem_of_operator?_none readLeft isInner)
      | some inner =>
        have := mayLeft inner isInner
        have := ihLeft readLeft bindsLeft isInner inLeft
        omega
    rcases List.mem_cons.mp inside with same | inRight
    · cases same
      exact Nat.le_refl _
    · cases isInner : right.operator? with
      | none => exact absurd inRight (not_mem_of_operator?_none readRight isInner)
      | some inner =>
        have := mayRight inner isInner
        have := ihRight readRight bindsRight isInner inRight
        omega

/-- What may stand on the left of an operator holds of every operator there. -/
theorem mayStandLeft_of_mem {inner : String} (read : left.inOrder? = some kinds)
    (binds : (Node.binary () op left right).BindsByLevel) (inside : Kind.symbol inner ∈ kinds) :
    MayStandLeft inner op := by
  cases isRoot : left.operator? with
  | none => exact absurd inside (not_mem_of_operator?_none read isRoot)
  | some root =>
    have may := binds.1 root isRoot
    have looser := tightness_le_of_mem read binds.2.2.1 isRoot inside
    rw [mayStandLeft_iff] at may ⊢
    omega

theorem mayStandRight_of_mem {inner : String} (read : right.inOrder? = some kinds)
    (binds : (Node.binary () op left right).BindsByLevel) (inside : Kind.symbol inner ∈ kinds) :
    MayStandRight inner op := by
  cases isRoot : right.operator? with
  | none => exact absurd inside (not_mem_of_operator?_none read isRoot)
  | some root =>
    have may := binds.2.1 root isRoot
    have looser := tightness_le_of_mem read binds.2.2.2 isRoot inside
    have := tightness_le inner
    rw [mayStandRight_iff] at may ⊢
    omega

/-- The operator that stands above all others is at one place only. Were one operator further to the
left, it would stand on the left of the other, and that one on its right. -/
theorem same_root {left' right' : Node Unit} {op' : String}
    {before before' after after' : List Kind}
    (readLeft : left.inOrder? = some before) (readRight : right.inOrder? = some after)
    (readLeft' : left'.inOrder? = some before') (readRight' : right'.inOrder? = some after')
    (binds : (Node.binary () op left right).BindsByLevel)
    (binds' : (Node.binary () op' left' right').BindsByLevel)
    (same : before ++ .symbol op :: after = before' ++ .symbol op' :: after') :
    before = before' ∧ op = op' ∧ after = after' := by
  rcases List.append_eq_append_iff.mp same with ⟨between, rfl, rest⟩ | ⟨between, rfl, rest⟩
  · cases between with
    | nil =>
      cases rest
      exact ⟨(List.append_nil _).symm, rfl, rfl⟩
    | cons kind between =>
      obtain ⟨rfl, rfl⟩ := List.cons.inj rest
      have isLeft : MayStandLeft op op' := mayStandLeft_of_mem readLeft' binds' (by simp)
      exact absurd (mayStandRight_of_mem readRight binds (by simp)) (not_mayStandRight isLeft)
  · cases between with
    | nil =>
      cases rest
      exact ⟨List.append_nil _, rfl, rfl⟩
    | cons kind between =>
      obtain ⟨rfl, rfl⟩ := List.cons.inj rest
      have isLeft : MayStandLeft op' op := mayStandLeft_of_mem readLeft binds (by simp)
      exact absurd (mayStandRight_of_mem readRight' binds' (by simp)) (not_mayStandRight isLeft)

/-- At most one tree with these tokens binds by level. -/
theorem bindsByLevel_unique (read : node.inOrder? = some kinds)
    (read' : other.inOrder? = some kinds)
    (binds : node.BindsByLevel) (binds' : other.BindsByLevel) : node = other := by
  induction node using Node.inOrder?.induct generalizing other kinds with
  | case1 tag leaf =>
    obtain ⟨_, kind, same, isToken, rfl⟩ := inOrder?_of_operator?_none read rfl
    cases same
    cases isRoot : other.operator? with
    | none =>
      obtain ⟨leaf', kind', rfl, isToken', same⟩ := inOrder?_of_operator?_none read' isRoot
      cases same
      rw [eq_operandLeaf isToken, eq_operandLeaf isToken']
    | some root =>
      obtain ⟨left, right, rfl⟩ := operator?_eq_some isRoot
      obtain ⟨before, after, _, _, same⟩ := inOrder?_binary.mp read'
      have isSymbol : Kind.symbol root ∈ [kind] := by simp [← same]
      exact absurd isSymbol (not_mem_of_operator?_none read rfl)
  | case2 tag op left right ihLeft ihRight =>
    obtain ⟨before, after, readLeft, readRight, rfl⟩ := inOrder?_binary.mp read
    cases isRoot : other.operator? with
    | none =>
      have isSymbol : Kind.symbol op ∈ before ++ .symbol op :: after := by simp
      exact absurd isSymbol (not_mem_of_operator?_none read' isRoot)
    | some root =>
      obtain ⟨left', right', rfl⟩ := operator?_eq_some isRoot
      obtain ⟨before', after', readLeft', readRight', same⟩ := inOrder?_binary.mp read'
      obtain ⟨rfl, rfl, rfl⟩ :=
        same_root readLeft' readRight' readLeft readRight binds' binds same
      rw [ihLeft readLeft readLeft' binds.2.2.1 binds'.2.2.1,
        ihRight readRight readRight' binds.2.2.2 binds'.2.2.2]
  | case3 node noLeaf noOperation =>
    cases isRoot : node.operator? with
    | none =>
      obtain ⟨leaf, _, rfl, _⟩ := inOrder?_of_operator?_none read isRoot
      exact absurd rfl (noLeaf () leaf)
    | some root =>
      obtain ⟨left, right, rfl⟩ := operator?_eq_some isRoot
      exact absurd rfl (noOperation () root left right)

end Uniqueness

end Grammar

namespace Parser

open Grammar (Chain isOperand operandLeaf)

variable {kinds before after more : List Kind} {kind next : Kind} {op : String}
  {fuel least : Nat} {guarded : Bool} {c c' : Cursor} {left right : Tree} {start : Span}

section Steps

theorem unary_operand (fuel : Nat) (guarded : Bool) (isKind : c.current.kind = kind)
    (operand : isOperand kind = true) (goesOn : c.rest ≠ [])
    (notCalled : c.advance.current.kind ≠ .opening .round) :
    ∃ span, (unary (fuel + 2) guarded : Parser Tree) c = .ok (.leaf span (operandLeaf kind), c.advance) := by
  refine ⟨c.current.span.merge c.advance.previous, ?_⟩
  have notMinus : c.current.kind ≠ .symbol "-" := by
    rw [isKind]
    rintro rfl
    cases operand
  have asPrimary : (unary (fuel + 2) guarded : Parser Tree) c =
      (primary (fuel + 1) guarded : Parser Tree) c := by
    unfold unary
    show (if decide (c.current.kind = .symbol "-") = true then _ else _ : Parser Tree) c = _
    rw [if_neg (by simpa using notMinus)]
  rw [asPrimary]
  obtain ⟨⟨found, span, lexeme⟩, _ | ⟨second, rest⟩, previous⟩ := c
  · exact absurd rfl goesOn
  subst isKind
  cases found with
  | valueId name =>
    rw [primary]
    show (if decide (_ = Kind.opening .round) = true then _ else _ : Parser Tree) _ = _
    rw [if_neg (by simpa using notCalled)]
    rfl
  | word keyword => cases keyword <;> first | rfl | cases operand
  | int | real | typeId => rfl
  | _ => cases operand

theorem binary_run (first : (unary fuel guarded : Parser Tree) c = .ok (left, c')) :
    (binary (fuel + 1) least guarded : Parser Tree) c =
      (binaryRest fuel least guarded c.current.span left : Parser Tree) c' := by
  unfold binary
  show ((unary fuel guarded : Parser Tree) c >>= fun read =>
    (binaryRest fuel least guarded c.current.span read.1 : Parser Tree) read.2) = _
  rw [first]
  rfl

theorem binaryRest_stop (noOperator : ∀ op, c.current.kind = .symbol op → level op < least) :
    (binaryRest (fuel + 1) least guarded start left : Parser Tree) c = .ok (left, c) := by
  obtain ⟨⟨found, span, lexeme⟩, rest, previous⟩ := c
  cases found with
  | symbol op =>
    unfold binaryRest
    show (if level op < least then _ else _ : Parser Tree) _ = _
    rw [if_pos (noOperator op rfl)]
    rfl
  | _ => rfl

theorem binaryRest_operation (isOperator : c.current.kind = .symbol op) (goesOn : c.rest ≠ [])
    (tight : least ≤ level op)
    (second : (binary fuel (rightLevel op) guarded : Parser Tree) c.advance = .ok (right, c')) :
    (binaryRest (fuel + 1) least guarded start left : Parser Tree) c =
      (binaryRest fuel least guarded start (.binary (start.merge c'.previous) op left right) :
        Parser Tree) c' := by
  obtain ⟨⟨found, span, lexeme⟩, _ | ⟨next, rest⟩, previous⟩ := c
  · exact absurd rfl goesOn
  subst isOperator
  rw [binaryRest]
  show (if level op < least then _ else _ : Parser Tree) _ = _
  rw [if_neg (by omega)]
  show ((binary fuel (rightLevel op) guarded : Parser Tree) _ >>= fun read =>
    (binaryRest fuel least guarded start (.binary (start.merge read.2.previous) op left read.1) :
      Parser Tree) read.2) = _
  rw [second]
  rfl

end Steps

/-- What may be left of operands and operators after an operand. -/
def Continues (kinds : List Kind) : Prop :=
  kinds = [] ∨ ∃ op rest, kinds = .symbol op :: rest ∧ Chain rest

theorem continues_of_chain (chain : Chain kinds) :
    ∃ kind rest, kinds = kind :: rest ∧ isOperand kind = true ∧ Continues rest := by
  cases chain with
  | operand operand => exact ⟨_, [], rfl, operand, .inl rfl⟩
  | operation operand rest => exact ⟨_, _, rfl, operand, .inr ⟨_, _, rfl, rest⟩⟩

/-- The first of several tokens is an operator that was looser than asked for, or none. -/
def StopsBefore (least : Nat) (kinds : List Kind) : Prop :=
  ∀ op rest, kinds = .symbol op :: rest → level op < least

/-- Reading operands and operators at a level, with some read before: it takes what is not looser
and gives the tree in which every operator binds as it should. -/
def Climbs (least : Nat) (before kinds : List Kind) (c : Cursor)
    (result : Except Failure (Tree × Cursor)) : Prop :=
  ∃ parsed taken left, kinds = taken ++ left ∧
    result = .ok (parsed, Cursor.advance^[taken.length] c) ∧
    Continues left ∧ StopsBefore least left ∧
    parsed.bare.inOrder? = some (before ++ taken) ∧ parsed.bare.BindsByLevel ∧
    ∀ op, parsed.bare.operator? = some op → least ≤ level op

theorem kinds_iterate (left : c.kinds = kinds ++ after) (goesOn : after ≠ []) :
    (Cursor.advance^[kinds.length] c).kinds = after := by
  induction kinds generalizing c with
  | nil => exact left
  | cons kind kinds ih =>
    rw [List.length_cons, Function.iterate_succ_apply]
    exact ih (kinds_advance left (by simp [goesOn]))

/-- What can come after operands and operators: a token that goes on with none of them. -/
def endsChain : Kind → Bool
  | .symbol _ | .opening _ => false
  | _ => true

section Climbing

/-- Reading an expression climbs through the levels. -/
def ExpressionClimbs (guarded : Bool) (after : List Kind) (fuel : Nat) : Prop :=
  ∀ kinds c least, Chain kinds → c.kinds = kinds ++ after → kinds.length + 2 ≤ fuel →
    Climbs least [] kinds c ((binary fuel least guarded : Parser Tree) c)

/-- So does reading what follows a left operand, if the first operator there is looser than what may
stand on the right of the operand's own. -/
def RestClimbs (guarded : Bool) (after : List Kind) (fuel : Nat) : Prop :=
  ∀ kinds c least start tree before, Continues kinds → c.kinds = kinds ++ after →
    kinds.length + 2 ≤ fuel → tree.bare.inOrder? = some before → tree.bare.BindsByLevel →
    (∀ op, tree.bare.operator? = some op →
      least ≤ level op ∧ StopsBefore (rightLevel op) kinds) →
    Climbs least before kinds c ((binaryRest fuel least guarded start tree : Parser Tree) c)

theorem not_called (ends : Begins endsChain after) (continues : Continues kinds)
    (isLeft : c.kinds = kinds ++ after) : c.current.kind ≠ .opening .round := by
  rcases continues with rfl | ⟨op, rest, rfl, _⟩
  · obtain ⟨next, more, rfl, ends⟩ := ends
    rw [(List.cons.inj isLeft).1]
    rintro rfl
    cases ends
  · rw [(List.cons.inj isLeft).1]
    nofun

theorem expressionClimbs_succ (ends : Begins endsChain after)
    (restClimbs : RestClimbs guarded after fuel) : ExpressionClimbs guarded after (fuel + 1) := by
  intro kinds c least chain isLeft enough
  obtain ⟨kind, rest, rfl, operand, continues⟩ := continues_of_chain chain
  rw [List.length_cons] at enough
  obtain ⟨fuel, rfl⟩ : ∃ n, fuel = n + 2 := ⟨fuel - 2, by omega⟩
  have advanced : c.advance.kinds = rest ++ after := kinds_advance isLeft (by simp [ends.ne_nil])
  obtain ⟨span, read⟩ := unary_operand fuel guarded (List.cons.inj isLeft).1 operand
    (rest_ne_nil isLeft (by simp [ends.ne_nil])) (not_called ends continues advanced)
  rw [binary_run read]
  have isOperand : (Node.leaf () (operandLeaf kind)).inOrder? = some [kind] := by
    simp [Node.inOrder?, Grammar.token?_operandLeaf operand]
  obtain ⟨parsed, taken, left, split, result, stops⟩ :=
    restClimbs rest c.advance least c.current.span (.leaf span (operandLeaf kind)) [kind] continues
      advanced (by omega) isOperand trivial nofun
  exact ⟨parsed, kind :: taken, left, congrArg (kind :: ·) split, result, stops⟩

/-- One more operation is read with the operators that bind as they must: both operands are as they
may be, and the operator after them is looser than the right one. -/
theorem restClimbs_succ (ends : Begins endsChain after)
    (expressionClimbs : ExpressionClimbs guarded after fuel)
    (restClimbs : RestClimbs guarded after fuel) : RestClimbs guarded after (fuel + 1) := by
  intro kinds c least start tree before continues isLeft enough isRead binds root
  by_cases stops : StopsBefore least kinds
  · have stopped : (binaryRest (fuel + 1) least guarded start tree : Parser Tree) c =
        .ok (tree, c) := by
      apply binaryRest_stop
      intro op isOperator
      rcases continues with rfl | ⟨other, rest, rfl, _⟩
      · obtain ⟨next, more, rfl, ends⟩ := ends
        rw [← (List.cons.inj isLeft).1, isOperator] at ends
        cases ends
      · cases isOperator.symm.trans (List.cons.inj isLeft).1
        exact stops op rest rfl
    exact ⟨tree, [], kinds, rfl, stopped, continues, stops, by simpa using isRead, binds,
      fun op isRoot => (root op isRoot).1⟩
  · simp only [StopsBefore, not_forall, Nat.not_lt] at stops
    obtain ⟨op, rest, rfl, tight⟩ := stops
    have chain : Chain rest := by
      rcases continues with impossible | ⟨_, _, same, chain⟩
      · cases impossible
      · cases same
        exact chain
    have advanced : c.advance.kinds = rest ++ after := kinds_advance isLeft (by simp [ends.ne_nil])
    rw [List.length_cons] at enough
    obtain ⟨right, taken, left, rfl, second, continues, stops, isRight, bindsRight, rightRoot⟩ :=
      expressionClimbs rest c.advance (rightLevel op) chain advanced (by omega)
    rw [binaryRest_operation (List.cons.inj isLeft).1 (rest_ne_nil isLeft (by simp [ends.ne_nil]))
      tight second]
    rw [List.append_assoc] at advanced
    rw [List.length_append] at enough
    have binds' : (Node.binary () op tree.bare right.bare).BindsByLevel := by
      refine ⟨fun inner isRoot => ?_, fun inner isRoot => ?_, binds, bindsRight⟩
      · exact Grammar.mayStandLeft_of_lt ((root inner isRoot).2 op _ rfl)
      · exact Grammar.mayStandRight_of_le (rightRoot inner isRoot)
    obtain ⟨parsed, taken', left', rfl, result, stops'⟩ :=
      restClimbs left _ least start (.binary _ op tree right) (before ++ .symbol op :: taken)
        continues (kinds_iterate advanced (by simp [ends.ne_nil])) (by omega)
        (Grammar.inOrder?_binary.mpr ⟨_, _, isRead, isRight, rfl⟩) binds'
        (fun inner isRoot => by
          cases isRoot
          exact ⟨tight, stops⟩)
    refine ⟨parsed, .symbol op :: (taken ++ taken'), left', by simp, ?_, ?_⟩
    · rw [result, ← Function.iterate_add_apply, List.length_cons, List.length_append,
        Function.iterate_succ_apply, Nat.add_comm taken'.length]
    · simpa using stops'

theorem climbs (ends : Begins endsChain after) (fuel : Nat) :
    ExpressionClimbs guarded after fuel ∧ RestClimbs guarded after fuel := by
  induction fuel with
  | zero =>
    constructor
    · intro kinds c least _ _ enough
      omega
    · intro kinds c least start tree before _ _ enough
      omega
  | succ fuel ih => exact ⟨expressionClimbs_succ ends ih.2, restClimbs_succ ends ih.1 ih.2⟩

end Climbing

theorem length_le_fuelFor (isLeft : c.kinds = kinds ++ next :: more) :
    kinds.length + 2 ≤ fuelFor c := by
  have same : c.rest.length + 1 = kinds.length + (more.length + 1) := by
    simpa [Cursor.kinds] using congrArg List.length isLeft
  unfold fuelFor
  omega

/-- Operators bind by their levels. Operands of one token each with operators between them, before a
token that is neither an operator nor an opening bracket, are an expression: reading it takes these
tokens and no more, and gives the only tree that has them from left to right and in which every
operation may stand where it stands. The fuel that this needs is what the parser would give itself
here, or less. Numbers for the nodes are dealt from any one on. -/
theorem operators_bind_by_level (chain : Chain kinds) (ends : endsChain next = true)
    (isLeft : c.kinds = kinds ++ next :: more) (guarded : Bool) (enough : kinds.length + 2 ≤ fuel)
    (id : Nat) :
    kinds.length + 2 ≤ fuelFor c ∧ ∃ parsed id',
      (binary fuel 1 guarded : Dealing (Node Tag)) id c =
        .ok ((parsed, id'), Cursor.advance^[kinds.length] c) ∧
      (Cursor.advance^[kinds.length] c).kinds = next :: more ∧
      parsed.bare.inOrder? = some kinds ∧ parsed.bare.BindsByLevel ∧
      ∀ other : Node Unit, other.inOrder? = some kinds → other.BindsByLevel →
        other = parsed.bare := by
  have ends : Begins endsChain (next :: more) := .cons next more ends
  obtain ⟨plain, taken, left, split, read, continues, stops, inOrder, binds, _⟩ :=
    (climbs ends fuel).1 kinds c 1 chain isLeft enough
  obtain ⟨parsed, id', dealt, rfl, _⟩ := Deals.exists_of_ok ((numberings fuel).binary 1 guarded id) read
  rw [parsed.bare_map Tag.span] at inOrder binds
  have whole : left = [] := by
    rcases continues with none | ⟨op, rest, rfl, _⟩
    · exact none
    · exact absurd (stops op rest rfl) (level_pos op)
  rw [whole, List.append_nil] at split
  subst split
  refine ⟨length_le_fuelFor isLeft, parsed, id', dealt, kinds_iterate isLeft ends.ne_nil, inOrder, binds, ?_⟩
  intro other inOrder' binds'
  exact Grammar.bindsByLevel_unique inOrder' inOrder binds' binds

/-- Sums to the left, powers to the right, and a product between them. -/
theorem operators_bind_by_level_of_mixed :
    ∃ parsed id last,
      (binary 13 1 false : Dealing (Node Tag)) 1
        (Parser.start (Token.tokenize "a - 2 ^ b ^ 3 * true - D")) = .ok ((parsed, id), last) ∧
      last.kinds = [.eof] ∧
      parsed.bare = .binary () "-"
        (.binary () "-" (.leaf () (.valueId "a"))
          (.binary () "*"
            (.binary () "^" (.leaf () (.int "2"))
              (.binary () "^" (.leaf () (.valueId "b")) (.leaf () (.int "3"))))
            (.leaf () (.bool "true"))))
        (.leaf () (.typeId "D")) := by
  have chain : Chain [.valueId "a", .symbol "-", .int "2", .symbol "^", .valueId "b", .symbol "^",
      .int "3", .symbol "*", .word .yes, .symbol "-", .typeId "D"] :=
    .operation rfl (.operation rfl (.operation rfl (.operation rfl (.operation rfl
      (.operand rfl)))))
  have isLeft : (Parser.start (Token.tokenize "a - 2 ^ b ^ 3 * true - D")).kinds =
      [.valueId "a", .symbol "-", .int "2", .symbol "^", .valueId "b", .symbol "^",
        .int "3", .symbol "*", .word .yes, .symbol "-", .typeId "D"] ++ [.eof] := by
    decide +kernel
  obtain ⟨_, parsed, id, read, left, _, _, only⟩ :=
    operators_bind_by_level chain rfl isLeft false (Nat.le_refl 13) 1
  refine ⟨parsed, id, _, read, left, (only _ ?_ ?_).symm⟩
  · rfl
  · simp [Node.BindsByLevel, Node.operator?, Grammar.MayStandLeft, Grammar.MayStandRight,
      Grammar.tightness]

end Parser

end ScriptVM
