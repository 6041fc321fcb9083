import ScriptVM.Proofs.Numbering

/-!
The shape of parsed trees.

Variables are declared and functions defined by statements only, so an expression declares nothing
in the scope it stands in; parameters stand in functions only, and a program is nothing but the
root. Names are those of tokens. `Yields` says what a production gives if it gives anything; the
productions are treated together, by induction on the bound for their nesting.
-/
namespace ScriptVM

namespace Node

/-- What a tree may mention: which names, and whether tuples and lists. -/
structure Allowed where
  names : String → Prop
  aggregates : Prop

/-- Everything may be mentioned. -/
def Allowed.all : Allowed := ⟨fun _ => True, True⟩

variable {α : Type} (ok : Allowed)

/-- A parameter whose name is allowed. -/
def IsParameter (node : Node α) : Prop :=
  ∃ tag name type, node = .param tag name type ∧ ok.names name

mutual

/-- A node that may stand where a statement may, or else only where an expression may, and that
mentions only what is allowed. -/
def Shaped (statement : Bool) : Node α → Prop
  | .leaf _ (.valueId name) => ok.names name
  | .leaf .. => True
  | .param .. | .program .. => False
  | .block _ body => ShapedAll true body
  | .define _ name params body _ =>
    statement = true ∧ ok.names name ∧ (∀ param ∈ params, IsParameter ok param) ∧ Shaped false body
  | .declare _ _ name _ value => statement = true ∧ ok.names name ∧ Shaped false value
  | .assign _ name value => ok.names name ∧ Shaped false value
  | .branch _ pred yes no => Shaped false pred ∧ Shaped false yes ∧ Shaped false no
  | .orElse _ body => Shaped false body
  | .loop _ pred body => Shaped false pred ∧ Shaped false body
  | .binary _ _ left right => Shaped false left ∧ Shaped false right
  | .call _ callee args none => Shaped false callee ∧ ShapedAll false args
  | .call _ callee args (some trailing) =>
    Shaped false callee ∧ ShapedAll false args ∧ Shaped false trailing
  | .aggregate _ _ elements => ok.aggregates ∧ ShapedAll false elements

/-- The same for several nodes. -/
def ShapedAll (statement : Bool) : List (Node α) → Prop
  | [] => True
  | node :: rest => Shaped statement node ∧ ShapedAll statement rest

end

variable {ok}

theorem shapedAll_iff {statement : Bool} {nodes : List (Node α)} :
    ShapedAll ok statement nodes ↔ ∀ node ∈ nodes, Shaped ok statement node := by
  induction nodes with
  | nil => simp [ShapedAll]
  | cons node rest ih => simp [ShapedAll, ih]

/-- Where an expression may stand, a statement may. -/
theorem Shaped.statement {node : Node α} (shaped : Shaped ok false node) : Shaped ok true node := by
  cases node with
  | leaf tag kind => cases kind <;> exact shaped
  | define => exact absurd shaped.1 (by simp)
  | declare => exact absurd shaped.1 (by simp)
  | call tag callee args trailing => cases trailing <;> exact shaped
  | param | program => cases shaped
  | _ => exact shaped

/-- What stands below a node of the right shape are nodes of the right shape, and parameters. -/
theorem Shaped.child {statement : Bool} {node child : Node α} (shaped : Shaped ok statement node)
    (member : child ∈ node.children) : Shaped ok true child ∨ IsParameter ok child := by
  cases node with
  | leaf => cases member
  | param | program => cases shaped
  | block => exact .inl (shapedAll_iff.mp shaped child member)
  | define tag name params body type =>
    rcases List.mem_append.mp member with isParam | isBody
    · exact .inr (shaped.2.2.1 child isParam)
    · cases List.mem_singleton.mp isBody
      exact .inl shaped.2.2.2.statement
  | declare | assign | orElse =>
    cases List.mem_singleton.mp member
    exact .inl (by simp_all [Shaped, Shaped.statement])
  | branch | loop | binary =>
    simp only [children, List.mem_cons, List.not_mem_nil, or_false] at member
    left
    rcases member with rfl | rfl | rfl <;> simp_all [Shaped, Shaped.statement]
  | call tag callee args trailing =>
    cases trailing with
    | none =>
      simp only [children, Option.toList_none, List.append_nil, List.mem_cons] at member
      rcases member with rfl | isArg
      · exact .inl shaped.1.statement
      · exact .inl (shapedAll_iff.mp shaped.2 child isArg).statement
    | some trailing =>
      simp only [children, Option.toList_some, List.cons_append, List.mem_cons, List.mem_append,
        List.not_mem_nil, or_false] at member
      rcases member with rfl | isArg | rfl
      · exact .inl shaped.1.statement
      · exact .inl (shapedAll_iff.mp shaped.2.1 child isArg).statement
      · exact .inl shaped.2.2.statement
  | aggregate => exact .inl (shapedAll_iff.mp shaped.2 child member).statement

theorem Shaped.inner {node inner : Node α} (shaped : Shaped ok true node)
    (inside : inner ∈ node.preorder) : Shaped ok true inner ∨ IsParameter ok inner := by
  induction node using childInduction with
  | step node ih =>
    rcases mem_preorder.mp inside with rfl | ⟨child, member, inChild⟩
    · exact .inl shaped
    · rcases shaped.child member with shapedChild | ⟨tag, name, type, rfl, allowed⟩
      · exact ih child member shapedChild inChild
      · simp only [preorder, List.mem_singleton] at inChild
        exact .inr ⟨tag, name, type, inChild, allowed⟩

def isAggregate : Node α → Bool
  | .aggregate .. => true
  | _ => false

/-- No tuple and no list stands in a tree. -/
def AggregateFree (node : Node α) : Prop :=
  ∀ inner ∈ node.preorder, inner.isAggregate = false

instance (node : Node α) : Decidable node.AggregateFree :=
  inferInstanceAs (Decidable (∀ inner ∈ node.preorder, inner.isAggregate = false))

theorem AggregateFree.child {node child : Node α} (free : node.AggregateFree)
    (member : child ∈ node.children) : child.AggregateFree :=
  fun inner inside => free inner (preorder_subset_of_child member inside)

/-- A tree without tuples and lists is of the right shape where none are allowed. -/
theorem Shaped.without_aggregates {statement : Bool} {node : Node α}
    (shaped : Shaped ok statement node) (free : node.AggregateFree) :
    Shaped ⟨ok.names, False⟩ statement node := by
  induction node using childInduction generalizing statement with
  | step node ih =>
    have below : ∀ child ∈ node.children, ∀ {statement : Bool}, Shaped ok statement child →
        Shaped ⟨ok.names, False⟩ statement child :=
      fun child member _ shaped => ih child member shaped (free.child member)
    have belowAll : ∀ {statement : Bool} {nodes : List (Node α)}, nodes ⊆ node.children →
        ShapedAll ok statement nodes → ShapedAll ⟨ok.names, False⟩ statement nodes := by
      intro statement nodes sub shaped
      rw [shapedAll_iff] at shaped ⊢
      exact fun child member => below child (sub member) (shaped child member)
    cases node with
    | leaf tag kind => cases kind <;> exact shaped
    | param | program => cases shaped
    | block tag body => exact belowAll (fun _ member => member) shaped
    | define tag name params body type =>
      exact ⟨shaped.1, shaped.2.1, shaped.2.2.1, below body (by simp [children]) shaped.2.2.2⟩
    | declare tag mutability name type value =>
      exact ⟨shaped.1, shaped.2.1, below value (by simp [children]) shaped.2.2⟩
    | assign tag name value => exact ⟨shaped.1, below value (by simp [children]) shaped.2⟩
    | branch tag pred yes no =>
      exact ⟨below pred (by simp [children]) shaped.1, below yes (by simp [children]) shaped.2.1,
        below no (by simp [children]) shaped.2.2⟩
    | orElse tag body => exact below body (by simp [children]) shaped
    | loop tag left right | binary tag op left right =>
      exact ⟨below left (by simp [children]) shaped.1, below right (by simp [children]) shaped.2⟩
    | call tag callee args trailing =>
      have inCallee := @below callee (by simp [children])
      have inArgs := @belowAll false args (by simp [children])
      cases trailing with
      | none => exact ⟨inCallee shaped.1, inArgs shaped.2⟩
      | some trailing =>
        exact ⟨inCallee shaped.1, inArgs shaped.2.1,
          below trailing (by simp [children]) shaped.2.2⟩
    | aggregate tag kind elements => exact absurd (free _ (self_mem_preorder _)) (by simp [isAggregate])

theorem Shaped.aggregateFree {node : Node α} (shaped : Shaped ok true node)
    (none : ¬ ok.aggregates) : node.AggregateFree := by
  intro inner inside
  rcases shaped.inner inside with shapedInner | ⟨tag, name, type, rfl, _⟩
  · cases inner with
    | aggregate => exact absurd shapedInner.1 none
    | _ => rfl
  · rfl

end Node

namespace Parser

variable {α β : Type} {ok : Node.Allowed}

/-- A token names a value only by an allowed name. -/
def KindOk (ok : String → Prop) (kind : Token.Kind) : Prop :=
  ∀ name, kind = .valueId name → ok name

/-- Every token still to be read is allowed. -/
def CursorOk (ok : Node.Allowed) (c : Cursor) : Prop :=
  ∀ token ∈ c.current :: c.rest, KindOk ok.names token.kind

/-- Whatever a production gives has a property, as long as the tokens are allowed. -/
def Yields (ok : Node.Allowed) (post : α → Prop) (p : Parser α) : Prop :=
  ∀ c a c', CursorOk ok c → p c = .ok (a, c') → CursorOk ok c' ∧ post a

theorem Yields.pure {post : α → Prop} {a : α} (holds : post a) :
    Yields ok post (Pure.pure a : Parser α) := by
  intro c a' c' good parsed
  cases parsed
  exact ⟨good, holds⟩

theorem Yields.bind {post : α → Prop} {post' : β → Prop} {p : Parser α} {f : α → Parser β}
    (first : Yields ok post p) (rest : ∀ a, post a → Yields ok post' (f a)) :
    Yields ok post' (p >>= f) := by
  intro c b c' good parsed
  obtain ⟨a, c₁, parsedFirst, parsedRest⟩ := Walks.bind_ok.mp parsed
  obtain ⟨good₁, holds⟩ := first c a c₁ good parsedFirst
  exact rest a holds c₁ b c' good₁ parsedRest

theorem Yields.weaken {post post' : α → Prop} {p : Parser α} (yields : Yields ok post p)
    (weaker : ∀ a, post a → post' a) : Yields ok post' p := by
  intro c a c' good parsed
  obtain ⟨good', holds⟩ := yields c a c' good parsed
  exact ⟨good', weaker a holds⟩

theorem Yields.ite {post : α → Prop} {condition : Prop} [Decidable condition] {p q : Parser α}
    (yes : Yields ok post p) (no : Yields ok post q) :
    Yields ok post (if condition then p else q) := by
  split
  · exact yes
  · exact no

section Primitives

theorem yields_get : Yields ok (CursorOk ok) (get : Parser Cursor) := by
  intro c a c' good parsed
  cases parsed
  exact ⟨good, good⟩

theorem yields_throw {post : α → Prop} (e : Failure) : Yields ok post (throw e : Parser α) := by
  intro c a c' good parsed
  cases parsed

theorem yields_fail {post : α → Prop} (what : String) : Yields ok post (fail what : Parser α) :=
  yields_get.bind fun _ _ => yields_throw _

theorem yields_exhaust {post : α → Prop} : Yields ok post (exhaust : Parser α) :=
  yields_get.bind fun _ _ => yields_throw _

theorem yields_peek : Yields ok (KindOk ok.names) peek :=
  yields_get.bind fun c good => .pure (good c.current (by simp))

theorem yields_sees (kind : Token.Kind) : Yields ok (fun _ => True) (sees kind) :=
  yields_get.bind fun _ _ => .pure trivial

theorem cursorOk_advance {c : Cursor} (good : CursorOk ok c) : CursorOk ok c.advance := by
  unfold Cursor.advance
  split
  next => exact good
  next next rest same =>
    intro token member
    exact good token (by simp only [same]; exact List.mem_cons_of_mem _ member)

theorem yields_advance : Yields ok (fun _ => True) advance := by
  rintro ⟨current, _ | ⟨next, rest⟩, previous⟩ a c' good parsed
  · cases parsed
  · cases parsed
    exact ⟨cursorOk_advance good, trivial⟩

theorem cursorOk_skipTerms {previous : Span} {current : Token} {rest : List Token}
    (good : CursorOk ok ⟨current, rest, previous⟩) :
    CursorOk ok (Cursor.skipTerms previous current rest) := by
  induction rest generalizing previous current with
  | nil => exact good
  | cons next rest ih =>
    unfold Cursor.skipTerms
    split
    · exact ih fun token member => good token (List.mem_cons_of_mem _ member)
    · exact good

theorem yields_skipTerms : Yields ok (fun _ => True) skipTerms := by
  intro c a c' good parsed
  cases parsed
  exact ⟨cursorOk_skipTerms good, trivial⟩

theorem yields_expect (kind : Token.Kind) : Yields ok (fun _ => True) (expect kind) :=
  (yields_sees kind).bind fun _ _ => .ite yields_advance (yields_fail _)

theorem yields_tag (span : Span) : Yields ok (fun _ => True) (Tagging.tag span : Parser Span) :=
  .pure trivial

theorem yields_tagFrom (start : Span) : Yields ok (fun _ => True) (tagFrom start) :=
  yields_get.bind fun _ _ => .pure trivial

theorem yields_missing {statement : Bool} : Yields ok (Node.Shaped ok statement) missing :=
  yields_get.bind fun _ _ => .pure (by simp [Node.Shaped])

theorem yields_valueName : Yields ok ok.names valueName := by
  refine yields_peek.bind fun kind good => ?_
  split
  next name => exact yields_advance.bind fun _ _ => .pure (good name rfl)
  next => exact yields_fail _

theorem yields_typeName? : Yields ok (fun _ => True) typeName? := by
  refine yields_peek.bind fun kind _ => ?_
  split
  next => exact yields_advance.bind fun _ _ => .pure trivial
  next => exact .pure trivial

theorem yields_tokenLeaf {kind : Leaf} {statement : Bool}
    (allowed : ∀ name, kind = .valueId name → ok.names name) :
    Yields ok (Node.Shaped ok statement) (tokenLeaf kind) := by
  refine yields_advance.bind fun _ _ => (yields_tagFrom _).bind fun _ _ => .pure ?_
  cases kind with
  | valueId name => exact allowed name rfl
  | _ => trivial

theorem yields_parameters (fuel : Nat) :
    Yields ok (fun params => ∀ param ∈ params, Node.IsParameter ok param) (parameters fuel) := by
  induction fuel with
  | zero => exact yields_exhaust
  | succ fuel ih =>
    unfold parameters
    refine (yields_sees _).bind fun _ _ => .ite (.pure (by simp)) ?_
    refine yields_get.bind fun _ _ => yields_valueName.bind fun name allowed => ?_
    refine yields_typeName?.bind fun type _ => (yields_tagFrom _).bind fun span _ => ?_
    have others : Yields ok (fun params => ∀ param ∈ params, Node.IsParameter ok param) (do
        return Node.param span name type :: (← parameters fuel)) := by
      refine ih.bind fun params areParams => .pure ?_
      simpa using ⟨⟨span, name, type, rfl, allowed⟩, areParams⟩
    exact (yields_sees _).bind fun _ _ => .ite others ((yields_expect _).bind fun _ _ => others)

end Primitives

/-- What the productions give under a bound on their nesting. -/
structure Productions (ok : Node.Allowed) (fuel : Nat) : Prop where
  statements : ∀ terminator, Yields ok (Node.ShapedAll ok true) (statements fuel terminator)
  statement : Yields ok (Node.Shaped ok true) (statement fuel)
  block : Yields ok (Node.Shaped ok false) (block fuel)
  declaration : ∀ mutability, Yields ok (Node.Shaped ok true) (declaration fuel mutability)
  function : Yields ok (Node.Shaped ok true) (function fuel)
  conditional : Yields ok (Node.Shaped ok false) (conditional fuel)
  alternative : Yields ok (Node.Shaped ok false) (alternative fuel)
  whileLoop : Yields ok (Node.Shaped ok false) (whileLoop fuel)
  binary : ∀ least guarded, Yields ok (Node.Shaped ok false) (binary fuel least guarded)
  binaryRest : ∀ least guarded start left, Node.Shaped ok false left →
    Yields ok (Node.Shaped ok false) (binaryRest fuel least guarded start left)
  unary : ∀ guarded, Yields ok (Node.Shaped ok false) (unary fuel guarded)
  primary : ∀ guarded, Yields ok (Node.Shaped ok false) (primary fuel guarded)
  call : ∀ guarded start callee, Node.Shaped ok false callee →
    Yields ok (Node.Shaped ok false) (call fuel guarded start callee)
  parenthesized : Yields ok (Node.Shaped ok false) (parenthesized fuel)
  tupleRest : Yields ok (Node.ShapedAll ok false) (tupleRest fuel)
  sequence : ∀ close, Yields ok (Node.ShapedAll ok false) (sequence fuel close)

theorem productions_zero : Productions ok 0 := by
  constructor <;> intros <;> exact yields_exhaust

section Step

variable {fuel : Nat} (within : Productions ok fuel)

include within

theorem yields_statements (terminator : Token.Kind) :
    Yields ok (Node.ShapedAll ok true) (statements (fuel + 1) terminator) := by
  unfold statements
  refine yields_skipTerms.bind fun _ _ => (yields_sees _).bind fun _ _ => .ite (.pure trivial) ?_
  refine (yields_sees _).bind fun _ _ => .ite (yields_fail _) ?_
  refine within.statement.bind fun first shaped => ?_
  refine (yields_sees _).bind fun _ _ => (yields_sees _).bind fun _ _ => .ite ?_ (yields_fail _)
  exact (within.statements terminator).bind fun rest shapedRest => .pure ⟨shaped, shapedRest⟩

theorem yields_statement : Yields ok (Node.Shaped ok true) (statement (fuel + 1)) := by
  have expression := (within.binary 1 false).weaken fun _ => Node.Shaped.statement
  unfold statement
  refine yields_peek.bind fun kind good => ?_
  split
  next => exact within.declaration .val
  next => exact within.declaration .var
  next => exact within.function
  next =>
    refine yields_advance.bind fun _ _ => within.alternative.bind fun body shaped => ?_
    exact (yields_tagFrom _).bind fun _ _ => .pure shaped
  next name =>
    refine yields_get.bind fun c _ => .ite ?_ expression
    refine yields_advance.bind fun _ _ => yields_advance.bind fun _ _ => ?_
    refine (within.binary 1 false).bind fun value shaped => ?_
    exact (yields_tagFrom _).bind fun _ _ => .pure ⟨good name rfl, shaped⟩
  next => exact expression

theorem yields_block : Yields ok (Node.Shaped ok false) (block (fuel + 1)) := by
  unfold block
  refine (yields_expect _).bind fun _ _ => (within.statements _).bind fun body shaped => ?_
  exact (yields_expect _).bind fun _ _ => (yields_tagFrom _).bind fun _ _ => .pure shaped

theorem yields_declaration (mutability : Mutability) :
    Yields ok (Node.Shaped ok true) (declaration (fuel + 1) mutability) := by
  unfold declaration
  refine yields_advance.bind fun start _ => yields_valueName.bind fun name allowed => ?_
  refine yields_typeName?.bind fun type _ => yields_peek.bind fun kind _ => ?_
  have finish : ∀ value, Node.Shaped ok false value → Yields ok (Node.Shaped ok true) (do
      return Node.declare (← tagFrom start) mutability name type value) :=
    fun value shaped => (yields_tagFrom _).bind fun _ _ => .pure ⟨rfl, allowed, shaped⟩
  split
  next => exact yields_advance.bind fun _ _ => (within.binary 1 false).bind finish
  next => exact within.block.bind finish
  next => exact yields_missing.bind finish

theorem yields_function : Yields ok (Node.Shaped ok true) (function (fuel + 1)) := by
  unfold function
  refine yields_advance.bind fun _ _ => yields_valueName.bind fun name allowed => ?_
  refine (yields_expect _).bind fun _ _ => (yields_parameters fuel).bind fun params areParams => ?_
  refine (yields_expect _).bind fun _ _ => yields_typeName?.bind fun result _ => ?_
  refine within.block.bind fun body shaped => (yields_tagFrom _).bind fun _ _ => .pure ?_
  exact ⟨rfl, allowed, areParams, shaped⟩

theorem yields_conditional : Yields ok (Node.Shaped ok false) (conditional (fuel + 1)) := by
  unfold conditional
  refine yields_advance.bind fun start _ => (within.binary 1 true).bind fun pred shapedPred => ?_
  refine within.block.bind fun yes shapedYes => (yields_sees _).bind fun _ _ => ?_
  have finish : ∀ no, Node.Shaped ok false no → Yields ok (Node.Shaped ok false) (do
      return Node.branch (← tagFrom start) pred yes no) :=
    fun no shapedNo => (yields_tagFrom _).bind fun _ _ => .pure ⟨shapedPred, shapedYes, shapedNo⟩
  refine .ite ?_ (yields_missing.bind finish)
  exact yields_advance.bind fun _ _ => within.alternative.bind finish

theorem yields_alternative : Yields ok (Node.Shaped ok false) (alternative (fuel + 1)) := by
  unfold alternative
  exact (yields_sees _).bind fun _ _ => .ite within.conditional within.block

theorem yields_whileLoop : Yields ok (Node.Shaped ok false) (whileLoop (fuel + 1)) := by
  unfold whileLoop
  refine yields_advance.bind fun _ _ => (within.binary 1 true).bind fun pred shapedPred => ?_
  refine within.block.bind fun body shapedBody => (yields_tagFrom _).bind fun _ _ => .pure ?_
  exact ⟨shapedPred, shapedBody⟩

theorem yields_binary (least : Nat) (guarded : Bool) :
    Yields ok (Node.Shaped ok false) (binary (fuel + 1) least guarded) := by
  unfold binary
  refine yields_get.bind fun _ _ => (within.unary guarded).bind fun left shaped => ?_
  exact within.binaryRest least guarded _ left shaped

theorem yields_binaryRest (least : Nat) (guarded : Bool) (start : Span) (left : Tree)
    (shapedLeft : Node.Shaped ok false left) :
    Yields ok (Node.Shaped ok false) (binaryRest (fuel + 1) least guarded start left) := by
  unfold binaryRest
  refine yields_peek.bind fun kind _ => ?_
  split
  next =>
    refine .ite (.pure shapedLeft) (yields_advance.bind fun _ _ => ?_)
    refine (within.binary _ guarded).bind fun right shapedRight => ?_
    refine (yields_tagFrom _).bind fun span _ => ?_
    exact within.binaryRest least guarded start _ ⟨shapedLeft, shapedRight⟩
  next => exact .pure shapedLeft

theorem yields_unary (guarded : Bool) :
    Yields ok (Node.Shaped ok false) (unary (fuel + 1) guarded) := by
  unfold unary
  refine (yields_sees _).bind fun _ _ => .ite ?_ (within.primary guarded)
  refine yields_advance.bind fun start _ => (yields_tag start).bind fun _ _ => ?_
  refine (within.unary guarded).bind fun operand shaped => ?_
  exact (yields_tagFrom _).bind fun _ _ => .pure ⟨trivial, shaped⟩

theorem yields_primary (aggregates : ok.aggregates) (guarded : Bool) :
    Yields ok (Node.Shaped ok false) (primary (fuel + 1) guarded) := by
  unfold primary
  refine yields_peek.bind fun kind good => ?_
  split
  next text => exact yields_tokenLeaf (by simp)
  next text => exact yields_tokenLeaf (by simp)
  next => exact yields_tokenLeaf (by simp)
  next => exact yields_tokenLeaf (by simp)
  next name => exact yields_tokenLeaf (by simp)
  next text => exact yields_tokenLeaf (by simp)
  next name =>
    refine yields_get.bind fun _ _ => ?_
    have leaf : Yields ok (Node.Shaped ok false) (tokenLeaf (.valueId name)) :=
      yields_tokenLeaf fun other same => by
        cases same
        exact good name rfl
    exact leaf.bind fun callee shaped => (yields_sees _).bind fun _ _ =>
      .ite (within.call guarded _ callee shaped) (.pure shaped)
  next => exact within.parenthesized
  next =>
    refine yields_advance.bind fun start _ => (within.sequence _).bind fun elements shaped => ?_
    refine (yields_expect _).bind fun _ _ => (yields_tagFrom _).bind fun _ _ => .pure ?_
    exact ⟨aggregates, shaped⟩
  next => exact within.block
  next => exact within.conditional
  next => exact within.whileLoop
  next => exact yields_fail _

theorem yields_call (guarded : Bool) (start : Span) (callee : Tree)
    (shapedCallee : Node.Shaped ok false callee) :
    Yields ok (Node.Shaped ok false) (call (fuel + 1) guarded start callee) := by
  unfold call
  refine (yields_expect _).bind fun _ _ => (within.sequence _).bind fun args shapedArgs => ?_
  refine (yields_expect _).bind fun _ _ => (yields_sees _).bind fun _ _ => .ite ?_ ?_
  · refine within.block.bind fun trailing shaped => (yields_tagFrom _).bind fun _ _ => .pure ?_
    exact ⟨shapedCallee, shapedArgs, shaped⟩
  · exact (yields_tagFrom _).bind fun _ _ => .pure ⟨shapedCallee, shapedArgs⟩

theorem yields_parenthesized (aggregates : ok.aggregates) :
    Yields ok (Node.Shaped ok false) (parenthesized (fuel + 1)) := by
  unfold parenthesized
  refine yields_advance.bind fun start _ => (yields_sees _).bind fun _ _ => .ite ?_ ?_
  · exact yields_advance.bind fun _ _ => (yields_tagFrom _).bind fun _ _ => .pure trivial
  refine (within.binary 1 false).bind fun first shapedFirst => ?_
  refine (yields_sees _).bind fun _ _ => .ite ?_ ?_
  · refine within.tupleRest.bind fun others shapedOthers => (yields_expect _).bind fun _ _ => ?_
    exact (yields_tagFrom _).bind fun _ _ => .pure ⟨aggregates, shapedFirst, shapedOthers⟩
  · exact (yields_expect _).bind fun _ _ => .pure shapedFirst

theorem yields_tupleRest : Yields ok (Node.ShapedAll ok false) (tupleRest (fuel + 1)) := by
  unfold tupleRest
  refine (yields_sees _).bind fun _ _ => .ite ?_ (.pure trivial)
  refine yields_advance.bind fun _ _ => (yields_sees _).bind fun _ _ => .ite (.pure trivial) ?_
  refine (within.binary 1 false).bind fun next shaped => ?_
  exact within.tupleRest.bind fun others shapedOthers => .pure ⟨shaped, shapedOthers⟩

theorem yields_sequence (close : Token.Kind) :
    Yields ok (Node.ShapedAll ok false) (sequence (fuel + 1) close) := by
  unfold sequence
  refine (yields_sees _).bind fun _ _ => .ite (.pure trivial) ?_
  refine (within.binary 1 false).bind fun first shaped => ?_
  have others : Yields ok (Node.ShapedAll ok false) (do
      return first :: (← sequence fuel close)) :=
    (within.sequence close).bind fun rest shapedRest => .pure ⟨shaped, shapedRest⟩
  exact (yields_sees _).bind fun _ _ => .ite others ((yields_expect _).bind fun _ _ => others)

end Step

theorem productions (aggregates : ok.aggregates) (fuel : Nat) : Productions ok fuel := by
  induction fuel with
  | zero => exact productions_zero
  | succ fuel within =>
    exact ⟨yields_statements within, yields_statement within, yields_block within,
      yields_declaration within, yields_function within, yields_conditional within,
      yields_alternative within, yields_whileLoop within, yields_binary within,
      yields_binaryRest within, yields_unary within, yields_primary within aggregates,
      yields_call within, yields_parenthesized within aggregates, yields_tupleRest within,
      yields_sequence within⟩

theorem yields_moduleName (anonymous : String) :
    Yields ok (fun _ => True) (moduleName anonymous) := by
  refine yields_peek.bind fun kind _ => ?_
  split
  next => exact yields_advance.bind fun _ _ => .pure trivial
  next => exact yields_advance.bind fun _ _ => .pure trivial
  next => exact .pure trivial

/-- A program is its statements. -/
theorem yields_program (aggregates : ok.aggregates) (anonymous : String) :
    Yields ok (fun tree => ∃ span name body, tree = .program span name body ∧
      Node.ShapedAll ok true body) (program anonymous) := by
  unfold program
  refine yields_skipTerms.bind fun _ _ => yields_get.bind fun start _ => ?_
  refine yields_get.bind fun c _ => (yields_sees _).bind fun _ _ => .ite ?_ ?_
  · refine yields_advance.bind fun _ _ => (yields_moduleName anonymous).bind fun name _ => ?_
    refine (yields_sees _).bind fun _ _ => (yields_sees _).bind fun _ _ => .ite ?_ (yields_fail _)
    refine ((productions aggregates _).statements _).bind fun body shaped => ?_
    refine (yields_expect _).bind fun _ _ => yields_skipTerms.bind fun _ _ => ?_
    refine (yields_sees _).bind fun _ _ => .ite ?_ (yields_fail _)
    exact (yields_tagFrom _).bind fun span _ => .pure ⟨span, name, body, rfl, shaped⟩
  · refine ((productions aggregates _).statements _).bind fun body shaped => ?_
    exact (yields_tagFrom _).bind fun span _ => .pure ⟨span, anonymous, body, rfl, shaped⟩

end Parser

/-- A parsed tree is a program whose statements are of the right shape. -/
theorem Node.shaped_parse {ok : Node.Allowed} {anonymous source : String} {tree : Node Span}
    (parsed : Node.parse anonymous source = .ok tree) (aggregates : ok.aggregates)
    (allowed : ∀ token ∈ Token.tokenize source, Parser.KindOk ok.names token.kind) :
    ∃ span name body, tree = .program span name body ∧ ShapedAll ok true body := by
  have start : Parser.CursorOk ok (Parser.start (Token.tokenize source)) := by
    cases tokens : Token.tokenize source with
    | nil =>
      intro token member
      cases List.mem_singleton.mp member
      intro name same
      cases same
    | cons token rest =>
      intro other member
      exact allowed other (by rw [tokens]; exact member)
  rw [Node.parse_eq, Parser.plain] at parsed
  cases run : (Parser.program anonymous : Parser Parser.Tree) (Parser.start (Token.tokenize source)) with
  | error e =>
    simp [StateT.run', run, Functor.map, Except.map] at parsed
  | ok result =>
    obtain ⟨tree', c'⟩ := result
    have same : tree' = tree := by
      simpa [StateT.run', run, Functor.map, Except.map] using parsed
    subst same
    exact (Parser.yields_program aggregates anonymous _ _ _ start run).2

namespace Node

variable {ok : Allowed}

theorem isParameter_of_map {α β : Type} {f : α → β} {params : List (Node α)}
    (areParams : ∀ param ∈ mapAll f params, IsParameter ok param) :
    ∀ param ∈ params, IsParameter ok param := by
  induction params with
  | nil => simp
  | cons param params ih =>
    rw [mapAll, List.forall_mem_cons] at areParams
    obtain ⟨⟨_, name, type, isParam, allowed⟩, others⟩ := areParams
    refine List.forall_mem_cons.mpr ⟨?_, ih others⟩
    cases param with
    | param tag name' type' =>
      cases isParam
      exact ⟨tag, name, type, rfl, allowed⟩
    | call tag callee args trailing => cases trailing <;> cases isParam
    | _ => cases isParam

mutual

/-- The shape of a tree does not depend on its tags. -/
theorem shaped_of_map {α β : Type} {f : α → β} : ∀ {statement : Bool} (node : Node α),
    Shaped ok statement (node.map f) → Shaped ok statement node
  | _, leaf _ kind => by
    intro shaped
    cases kind <;> exact shaped
  | _, param .. | _, program .. => fun shaped => shaped.elim
  | _, block _ body => by
    intro shaped
    exact shapedAll_of_map body shaped
  | _, define _ _ params body _ => by
    intro shaped
    exact ⟨shaped.1, shaped.2.1, isParameter_of_map shaped.2.2.1, shaped_of_map body shaped.2.2.2⟩
  | _, declare _ _ _ _ value => by
    intro shaped
    exact ⟨shaped.1, shaped.2.1, shaped_of_map value shaped.2.2⟩
  | _, assign _ _ value => by
    intro shaped
    exact ⟨shaped.1, shaped_of_map value shaped.2⟩
  | _, branch _ pred yes no => by
    intro shaped
    exact ⟨shaped_of_map pred shaped.1, shaped_of_map yes shaped.2.1, shaped_of_map no shaped.2.2⟩
  | _, orElse _ body => by
    intro shaped
    exact shaped_of_map body shaped
  | _, loop _ left right | _, binary _ _ left right => by
    intro shaped
    exact ⟨shaped_of_map left shaped.1, shaped_of_map right shaped.2⟩
  | _, call _ callee args none => by
    intro shaped
    exact ⟨shaped_of_map callee shaped.1, shapedAll_of_map args shaped.2⟩
  | _, call _ callee args (some trailing) => by
    intro shaped
    exact ⟨shaped_of_map callee shaped.1, shapedAll_of_map args shaped.2.1,
      shaped_of_map trailing shaped.2.2⟩
  | _, aggregate _ _ elements => by
    intro shaped
    exact ⟨shaped.1, shapedAll_of_map elements shaped.2⟩

theorem shapedAll_of_map {α β : Type} {f : α → β} : ∀ {statement : Bool} (nodes : List (Node α)),
    ShapedAll ok statement (mapAll f nodes) → ShapedAll ok statement nodes
  | _, [] => fun _ => trivial
  | _, node :: rest => by
    intro shaped
    exact ⟨shaped_of_map node shaped.1, shapedAll_of_map rest shaped.2⟩

end

end Node

/-- A parsed document is a program whose statements are of the right shape, and nothing is known
about it yet. -/
theorem Document.shaped_parse {ok : Node.Allowed} {anonymous source : String} {document : Document}
    (parsed : Document.parse anonymous source = .ok document) (aggregates : ok.aggregates)
    (allowed : ∀ token ∈ Token.tokenize source, Parser.KindOk ok.names token.kind) :
    ∃ tag name body next, document = ⟨.program tag name body, next, {}, {}⟩ ∧
      Node.ShapedAll ok true body := by
  obtain ⟨plain, _, noScopes, nothing⟩ := Document.parse_ok parsed
  obtain ⟨span, name, body, isProgram, shaped⟩ := Node.shaped_parse plain aggregates allowed
  obtain ⟨root, next, scopes, annotations⟩ := document
  cases noScopes
  cases nothing
  cases root with
  | program tag name' body' =>
    cases isProgram
    exact ⟨tag, _, body', next, rfl, Node.shapedAll_of_map body' shaped⟩
  | call tag callee args trailing => cases trailing <;> cases isProgram
  | _ => cases isProgram

end ScriptVM
