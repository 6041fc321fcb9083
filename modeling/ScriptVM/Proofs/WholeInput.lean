import ScriptVM.Proofs.Consumption
import ScriptVM.Proofs.LiteralTokens
import ScriptVM.Proofs.TokenSpans

/-!
A program is read from the whole of its tokens.

The productions are treated together, by induction on the bound for their nesting: with eight
nested productions for every token that is left, and a few more for those that are entered before the
next one is taken, the bound is never reached. What they take accounts for the literals in their
trees.
-/
namespace ScriptVM

namespace Parser

open Token (Kind)
open Node (literalsAll)

section Posts

/-- An expression, read where an operand is expected. -/
def SpellsExpression (taken : List Token) (tree : Tree) (_ : Cursor) : Prop :=
  Spells false taken tree.literals true

/-- An operand that begins with a mark, wherever it is read. -/
def SpellsClosed (taken : List Token) (tree : Tree) (_ : Cursor) : Prop :=
  ∀ operand, Spells operand taken tree.literals true

/-- What goes on with an operand. -/
def SpellsRest (left : Tree) (taken : List Token) (tree : Tree) (_ : Cursor) : Prop :=
  ∃ leaves, Spells true taken leaves true ∧ tree.literals = left.literals ++ leaves

/-- A statement, read where an operand is expected. -/
def SpellsStatement (taken : List Token) (tree : Tree) (_ : Cursor) : Prop :=
  taken ≠ [] ∧ ∃ operand, Spells false taken tree.literals operand

/-- Trees one after the other. -/
def SpellsTrees (operand : Bool) (taken : List Token) (trees : List Tree) (_ : Cursor) : Prop :=
  ∃ operand', Spells operand taken (literalsAll trees) operand'

/-- Expressions up to a token of the given kind. Where no operand is expected, they are none. -/
def SpellsElements (close : Kind) (c : Cursor) (taken : List Token) (trees : List Tree)
    (c' : Cursor) : Prop :=
  ∀ operand, operand = false ∨ c.current.kind = close → SpellsTrees operand taken trees c'

/-- Statements up to a token of the given kind. Where no operand is expected, they begin with a
statement end or are none. -/
def SpellsStatements (terminator : Kind) (c : Cursor) (taken : List Token) (trees : List Tree)
    (c' : Cursor) : Prop :=
  c'.current.kind = terminator ∧
    ∀ operand, operand = false ∨ c.current.kind = .term ∨ c.current.kind = terminator →
      SpellsTrees operand taken trees c'

variable {taken : List Token} {tree : Tree} {c : Cursor}

theorem SpellsClosed.expression (closed : SpellsClosed taken tree c) :
    SpellsExpression taken tree c := closed false

theorem SpellsExpression.statement (spells : SpellsExpression taken tree c) :
    SpellsStatement taken tree c := ⟨spells.ne_nil, true, spells⟩

end Posts

/-- What the productions do with enough of a bound on their nesting. -/
structure Accounts (fuel : Nat) : Prop where
  statements : ∀ terminator c, 8 * c.tokens.length + 5 ≤ fuel →
    Meets (statements fuel terminator) (SpellsStatements terminator c) c
  statement : ∀ c, 8 * c.tokens.length + 4 ≤ fuel → Meets (statement fuel) SpellsStatement c
  block : ∀ c, 8 * c.tokens.length ≤ fuel → Meets (block fuel) SpellsClosed c
  declaration : ∀ mutability c, c.current.kind.isMark = true → 8 * c.tokens.length ≤ fuel →
    Meets (declaration fuel mutability) SpellsStatement c
  function : ∀ c, c.current.kind.isMark = true → 8 * c.tokens.length ≤ fuel →
    Meets (function fuel) SpellsStatement c
  conditional : ∀ c, c.current.kind.isMark = true → 8 * c.tokens.length ≤ fuel →
    Meets (conditional fuel) SpellsClosed c
  alternative : ∀ c, 8 * c.tokens.length + 1 ≤ fuel → Meets (alternative fuel) SpellsClosed c
  whileLoop : ∀ c, c.current.kind.isMark = true → 8 * c.tokens.length ≤ fuel →
    Meets (whileLoop fuel) SpellsClosed c
  binary : ∀ least guarded c, 8 * c.tokens.length + 3 ≤ fuel →
    Meets (binary fuel least guarded) SpellsExpression c
  binaryRest : ∀ least guarded start left c, 8 * c.tokens.length ≤ fuel →
    Meets (binaryRest fuel least guarded start left) (SpellsRest left) c
  unary : ∀ guarded c, 8 * c.tokens.length + 2 ≤ fuel → Meets (unary fuel guarded) SpellsExpression c
  primary : ∀ guarded c, c.current.kind ≠ .symbol "-" → 8 * c.tokens.length + 1 ≤ fuel →
    Meets (primary fuel guarded) SpellsExpression c
  call : ∀ guarded start callee c, 8 * c.tokens.length ≤ fuel →
    Meets (call fuel guarded start callee) (SpellsRest callee) c
  parenthesized : ∀ c, c.current.kind.isMark = true → 8 * c.tokens.length ≤ fuel →
    Meets (parenthesized fuel) SpellsClosed c
  tupleRest : ∀ operand c, 8 * c.tokens.length ≤ fuel → Meets (tupleRest fuel) (SpellsTrees operand) c
  sequence : ∀ close c, 8 * c.tokens.length + 4 ≤ fuel →
    Meets (sequence fuel close) (SpellsElements close c) c

theorem isTakable_of_isMark {kind : Kind} (isMark : kind.isMark = true) :
    kind.isTakable = true := by
  cases kind <;> first | rfl | cases isMark

/-- There is a token left, so a bound of nothing is never enough. -/
theorem accounts_zero : Accounts 0 := by
  have some : ∀ c : Cursor, ¬ 8 * c.tokens.length ≤ 0 := fun c => by
    simp [Cursor.tokens]
  constructor
  case statements | statement | alternative | binary | unary | primary | sequence =>
    intros
    omega
  all_goals
    intros
    exact absurd (by assumption) (some _)

theorem account_parameters (operand : Bool) (fuel : Nat) {c : Cursor}
    (enough : 8 * c.tokens.length ≤ fuel) :
    Meets (parameters fuel) (SpellsTrees operand) c := by
  induction fuel generalizing operand c with
  | zero => exact absurd enough (by simp [Cursor.tokens])
  | succ fuel ih =>
    unfold parameters
    refine .ifSees _ (fun _ => .pure ⟨operand, .nil⟩) fun _ => .get ?_
    refine meets_valueName.bind ?_
    rintro _ name c₁ took₁ ⟨token, rfl, isName⟩
    refine meets_typeName?.bind ?_
    intro types type c₂ took₂ areTypes
    have shorter := took₁.shorter
    have shorter' := took₂.length_le
    have first : Spells operand [token] [] true := .one isName
    obtain ⟨operand', typed⟩ : ∃ operand', Spells true types [] operand' :=
      Spells.of_typeIds areTypes
    refine .tagFrom _ fun span => .ifSees _ (fun _ => ?_) fun _ => ?_
    · refine (ih operand' (by omega)).bind ?_
      rintro taken params c₃ _ ⟨operand'', spells⟩
      refine .pure ⟨operand'', ?_⟩
      exact (first.append (typed.append (spells.append .nil))).of_eq (by simp)
    · refine (meets_expect rfl).bind ?_
      rintro _ _ c₃ took₃ ⟨comma, rfl, isComma⟩
      have shorter'' := took₃.length_le
      refine (ih false (by omega)).bind ?_
      rintro taken params c₄ _ ⟨operand'', spells⟩
      refine .pure ⟨operand'', ?_⟩
      exact (first.append (typed.append ((Spells.mark (isComma ▸ rfl)).append
        (spells.append .nil)))).of_eq (by simp)

section Step

variable {fuel : Nat} {c : Cursor} (within : Accounts fuel)

include within

/-- Where an operand had just ended, a statement end stands before the first statement. -/
theorem account_statements (terminator : Kind) (enough : 8 * c.tokens.length + 5 ≤ fuel + 1) :
    Meets (statements (fuel + 1) terminator) (SpellsStatements terminator c) c := by
  unfold statements
  refine meets_skipTerms.bind ?_
  rintro ends _ c₁ took₁ ⟨areTerms, notTerm⟩
  have shorter := took₁.length_le
  refine .ifSees terminator (fun atEnd => .pure ?_) fun notYet => ?_
  · exact ⟨atEnd, fun operand _ => ⟨_, (Spells.of_terms areTerms).append .nil⟩⟩
  refine .ifSees .eof (fun _ => .fail _) fun _ => ?_
  refine (within.statement c₁ (by omega)).bind ?_
  rintro taken first c₂ took₂ ⟨some, operand', spells⟩
  have shorter' := took₂.length_lt some
  refine .ifSeesEither .term terminator (fun either => ?_) (.fail _)
  refine (within.statements terminator c₂ (by omega)).bind ?_
  rintro taken' rest c₃ _ ⟨atEnd, spells'⟩
  refine .pure ⟨atEnd, fun operand starts => ?_⟩
  have expects : (operand && ends.isEmpty) = false := by
    cases took₁ with
    | nothing =>
      rcases starts with rfl | isTerm | atEnd
      · rfl
      · exact absurd isTerm notTerm
      · exact absurd atEnd notYet
    | one => exact Bool.and_false _
  have before : Spells operand ends [] (operand && ends.isEmpty) := .of_terms areTerms
  rw [expects] at before
  obtain ⟨operand'', spells'⟩ := spells' operand' (.inr either)
  exact ⟨operand'', (before.append (spells.append (spells'.append .nil))).of_eq (by simp)⟩

theorem account_statement (enough : 8 * c.tokens.length + 4 ≤ fuel + 1) :
    Meets (statement (fuel + 1)) SpellsStatement c := by
  have expression : Meets (binary fuel 1 false) SpellsStatement c :=
    (within.binary 1 false c (by omega)).weaken fun _ _ _ _ spells => spells.statement
  unfold statement
  refine .peek ?_
  split
  next isVal => exact within.declaration .val c (isVal ▸ rfl) (by omega)
  next isVar => exact within.declaration .var c (isVar ▸ rfl) (by omega)
  next isDefine => exact within.function c (isDefine ▸ rfl) (by omega)
  next isElse =>
    refine (meets_advance (isElse ▸ rfl)).bind ?_
    rintro _ _ _ took ⟨rfl, rfl, rfl⟩
    have shorter := took.shorter
    refine (within.alternative _ (by omega)).bind ?_
    intro taken body c₂ _ closed
    refine .tagFrom _ fun span => .pure ⟨by simp, true, ?_⟩
    refine ((Spells.mark (isElse ▸ rfl)).append ((closed false).append .nil)).of_eq ?_
    simp
  next name isName =>
    refine .get (.ite (fun isAssign => ?_) fun _ => expression)
    refine (meets_advance (isName ▸ rfl)).bind ?_
    rintro _ _ _ took ⟨rfl, rfl, rfl⟩
    have shorter := took.shorter
    have isAssign : c.advance.current.kind = .assign :=
      kind_advance isAssign (isName ▸ nofun)
    refine (meets_advance (isAssign ▸ rfl)).bind ?_
    rintro _ _ _ took' ⟨rfl, rfl, rfl⟩
    have shorter' := took'.shorter
    refine (within.binary 1 false _ (by omega)).bind ?_
    intro taken value c₂ _ spells
    refine .tagFrom _ fun span => .pure ⟨by simp, true, ?_⟩
    have first : Spells false [c.current] [] true := .one isName
    refine (first.append ((Spells.mark (isAssign ▸ rfl)).append (spells.append .nil))).of_eq ?_
    simp
  next => exact expression

theorem account_block (enough : 8 * c.tokens.length ≤ fuel + 1) :
    Meets (block (fuel + 1)) SpellsClosed c := by
  unfold block
  refine (meets_expect rfl).bind ?_
  rintro _ start c₁ took ⟨opening, rfl, isOpening⟩
  have shorter := took.shorter
  refine (within.statements _ c₁ (by omega)).bind ?_
  rintro taken body c₂ _ ⟨_, spells⟩
  refine (meets_expect rfl).bind ?_
  rintro _ _ c₃ _ ⟨closing, rfl, isClosing⟩
  refine .tagFrom _ fun span => .pure fun operand => ?_
  obtain ⟨operand', spells⟩ := spells false (.inl rfl)
  refine ((Spells.mark (isOpening ▸ rfl)).append
    (spells.append ((Spells.closing isClosing).append .nil))).of_eq ?_
  simp

theorem account_declaration (mutability : Mutability) (isMark : c.current.kind.isMark = true)
    (enough : 8 * c.tokens.length ≤ fuel + 1) :
    Meets (declaration (fuel + 1) mutability) SpellsStatement c := by
  unfold declaration
  refine (meets_advance (isTakable_of_isMark isMark)).bind ?_
  rintro _ _ _ took₁ ⟨rfl, rfl, rfl⟩
  refine meets_valueName.bind ?_
  rintro _ name c₂ took₂ ⟨token, rfl, isName⟩
  refine meets_typeName?.bind ?_
  intro types type c₃ took₃ areTypes
  have shorter := took₁.shorter
  have shorter' := took₂.shorter
  have shorter'' := took₃.length_le
  have named : Spells false [token] [] true := .one isName
  obtain ⟨operand, typed⟩ : ∃ operand, Spells true types [] operand :=
    Spells.of_typeIds areTypes
  have finish : ∀ taken value operand' c₄, Spells operand taken value.literals operand' →
      Meets (do return Node.declare (← tagFrom c.current.span) mutability name type value)
        (fun more => SpellsStatement ([c.current] ++ ([token] ++ (types ++ (taken ++ more))))) c₄ := by
    intro taken value operand' c₄ spells
    refine .tagFrom _ fun span => .pure ⟨by simp, operand', ?_⟩
    refine ((Spells.mark isMark).append
      (named.append (typed.append (spells.append .nil)))).of_eq ?_
    simp
  refine .peek ?_
  split
  next isAssign =>
    refine (meets_advance (isAssign ▸ rfl)).bind ?_
    rintro _ _ _ took₄ ⟨rfl, rfl, rfl⟩
    have shorter := took₄.shorter
    refine (within.binary 1 false _ (by omega)).bind ?_
    intro taken value c₅ _ spells
    exact finish ([c₃.current] ++ taken) value true c₅ ((Spells.mark (isAssign ▸ rfl)).append spells)
  next =>
    refine (within.block _ (by omega)).bind ?_
    intro taken value c₄ _ closed
    exact finish taken value true c₄ (closed operand)
  next => exact .missing fun span => finish [] _ operand c₃ .nil

theorem account_function (isMark : c.current.kind.isMark = true)
    (enough : 8 * c.tokens.length ≤ fuel + 1) :
    Meets (function (fuel + 1)) SpellsStatement c := by
  unfold function
  refine (meets_advance (isTakable_of_isMark isMark)).bind ?_
  rintro _ _ _ took₁ ⟨rfl, rfl, rfl⟩
  refine meets_valueName.bind ?_
  rintro _ name c₂ took₂ ⟨token, rfl, isName⟩
  refine (meets_expect rfl).bind ?_
  rintro _ _ c₃ took₃ ⟨opening, rfl, isOpening⟩
  have shorter := took₁.shorter
  have shorter' := took₂.length_le
  have shorter'' := took₃.length_le
  refine (account_parameters false fuel (by omega)).bind ?_
  rintro heading params c₄ took₄ ⟨operand, spells⟩
  refine (meets_expect rfl).bind ?_
  rintro _ _ c₅ took₅ ⟨closing, rfl, isClosing⟩
  refine meets_typeName?.bind ?_
  intro types result c₆ took₆ areTypes
  have := took₄.length_le
  have := took₅.length_le
  have := took₆.length_le
  obtain ⟨operand', typed⟩ : ∃ operand', Spells true types [] operand' :=
    Spells.of_typeIds areTypes
  refine (within.block _ (by omega)).bind ?_
  intro taken body c₇ _ closed
  refine .tagFrom _ fun span => .pure ⟨by simp, true, ?_⟩
  have named : Spells false [token] [] true := .one isName
  refine ((Spells.mark isMark).append (named.append ((Spells.mark (isOpening ▸ rfl)).append
    (spells.append ((Spells.closing isClosing).append
      (typed.append ((closed operand').append .nil))))))).of_eq ?_
  simp

theorem account_conditional (isMark : c.current.kind.isMark = true)
    (enough : 8 * c.tokens.length ≤ fuel + 1) :
    Meets (conditional (fuel + 1)) SpellsClosed c := by
  unfold conditional
  refine (meets_advance (isTakable_of_isMark isMark)).bind ?_
  rintro _ _ _ took₁ ⟨rfl, rfl, rfl⟩
  have shorter := took₁.shorter
  refine (within.binary 1 true _ (by omega)).bind ?_
  intro taken pred c₂ took₂ spells
  have shorter' := took₂.length_lt spells.ne_nil
  refine (within.block _ (by omega)).bind ?_
  intro taken' yes c₃ took₃ closed
  have shorter'' := took₃.length_le
  have front : ∀ operand, Spells operand ([c.current] ++ (taken ++ taken'))
      (pred.literals ++ yes.literals) true :=
    fun operand => (Spells.mark isMark).append (spells.append (closed true))
  refine .ifSees _ (fun isElse => ?_) fun _ => .missing fun span => ?_
  · refine (meets_advance (isElse ▸ rfl)).bind ?_
    rintro _ _ _ took₄ ⟨rfl, rfl, rfl⟩
    have := took₄.shorter
    refine (within.alternative _ (by omega)).bind ?_
    intro taken'' no c₅ _ closed'
    refine .tagFrom _ fun span => .pure fun operand => ?_
    have otherwise : Spells true [c₃.current] [] false := .mark (isElse ▸ rfl)
    simpa using (front operand).append (otherwise.append (closed' false))
  · refine .tagFrom _ fun span' => .pure fun operand => ?_
    simpa using front operand

theorem account_alternative (enough : 8 * c.tokens.length + 1 ≤ fuel + 1) :
    Meets (alternative (fuel + 1)) SpellsClosed c := by
  unfold alternative
  exact .ifSees _ (fun isIf => within.conditional c (isIf ▸ rfl) (by omega))
    fun _ => within.block c (by omega)

theorem account_whileLoop (isMark : c.current.kind.isMark = true)
    (enough : 8 * c.tokens.length ≤ fuel + 1) :
    Meets (whileLoop (fuel + 1)) SpellsClosed c := by
  unfold whileLoop
  refine (meets_advance (isTakable_of_isMark isMark)).bind ?_
  rintro _ _ _ took₁ ⟨rfl, rfl, rfl⟩
  have shorter := took₁.shorter
  refine (within.binary 1 true _ (by omega)).bind ?_
  intro taken pred c₂ took₂ spells
  have shorter' := took₂.length_le
  refine (within.block _ (by omega)).bind ?_
  intro taken' body c₃ _ closed
  refine .tagFrom _ fun span => .pure fun operand => ?_
  refine ((Spells.mark isMark).append (spells.append ((closed true).append .nil))).of_eq ?_
  simp

theorem account_binary (least : Nat) (guarded : Bool)
    (enough : 8 * c.tokens.length + 3 ≤ fuel + 1) :
    Meets (binary (fuel + 1) least guarded) SpellsExpression c := by
  unfold binary
  refine .get ((within.unary guarded c (by omega)).bind ?_)
  intro taken left c₁ took spells
  have shorter := took.length_lt spells.ne_nil
  refine (within.binaryRest least guarded _ left c₁ (by omega)).weaken ?_
  rintro more tree c₂ _ ⟨leaves, spells', same⟩
  exact (spells.append spells').of_eq same.symm

theorem account_binaryRest (least : Nat) (guarded : Bool) (start : Span) (left : Tree)
    (enough : 8 * c.tokens.length ≤ fuel + 1) :
    Meets (binaryRest (fuel + 1) least guarded start left) (SpellsRest left) c := by
  have stop : SpellsRest left [] left c := ⟨[], .nil, (List.append_nil _).symm⟩
  unfold binaryRest
  refine .peek ?_
  split
  next op isOperator =>
    refine .ite (fun _ => .pure stop) fun _ => ?_
    refine (meets_advance (isOperator ▸ rfl)).bind ?_
    rintro _ _ _ took₁ ⟨rfl, rfl, rfl⟩
    have shorter := took₁.shorter
    refine (within.binary _ guarded _ (by omega)).bind ?_
    intro taken right c₂ took₂ spells
    have shorter' := took₂.length_lt spells.ne_nil
    refine .tagFrom _ fun span => ?_
    refine (within.binaryRest least guarded start _ c₂ (by omega)).weaken ?_
    rintro more tree c₃ _ ⟨leaves, spells', same⟩
    refine ⟨_, (Spells.operator isOperator).append (spells.append spells'), ?_⟩
    rw [same]
    simp
  next => exact .pure stop

theorem account_unary (guarded : Bool) (enough : 8 * c.tokens.length + 2 ≤ fuel + 1) :
    Meets (unary (fuel + 1) guarded) SpellsExpression c := by
  unfold unary
  refine .ifSees _ (fun isMinus => ?_) fun notMinus => within.primary guarded c notMinus (by omega)
  refine (meets_advance (isMinus ▸ rfl)).bind ?_
  rintro _ _ _ took ⟨rfl, rfl, rfl⟩
  have shorter := took.shorter
  refine .tag ?_
  refine (within.unary guarded _ (by omega)).bind ?_
  intro taken operand c₂ _ spells
  refine .tagFrom _ fun span => .pure ?_
  have minus : Spells false [c.current] [.leaf c.current.span (.int "0")] false := .one isMinus
  refine (minus.append (spells.append .nil)).of_eq ?_
  simp

theorem account_primary (guarded : Bool) (notMinus : c.current.kind ≠ .symbol "-")
    (enough : 8 * c.tokens.length + 1 ≤ fuel + 1) :
    Meets (primary (fuel + 1) guarded) SpellsExpression c := by
  have alone : ∀ {kind leaf}, c.current.kind = kind → kind.isTakable = true →
      kind.operandAfter false = true →
      (Token.literal? false ⟨kind, c.current.span, c.current.lexeme⟩).toList =
        (Node.leaf c.current.span leaf).literals →
      Meets (tokenLeaf leaf) SpellsExpression c := by
    intro kind leaf isKind takable ends same
    refine (meets_tokenLeaf leaf (isKind ▸ takable)).weaken ?_
    rintro _ _ _ _ ⟨rfl, rfl⟩
    have spells : Spells false [c.current] _ _ := .one isKind
    rw [ends, same] at spells
    exact spells
  have expression : ∀ {p : Parser Tree}, Meets p SpellsClosed c → Meets p SpellsExpression c :=
    fun meets => meets.weaken fun _ _ _ _ closed => closed.expression
  unfold primary
  refine .peek ?_
  split
  next isInt => exact alone isInt rfl rfl rfl
  next isReal => exact alone isReal rfl rfl rfl
  next isTrue => exact alone isTrue rfl rfl rfl
  next isFalse => exact alone isFalse rfl rfl rfl
  next isType => exact alone isType rfl rfl rfl
  next text isSymbol =>
    have other : text ≠ "-" := fun same => notMinus (same ▸ isSymbol)
    exact alone isSymbol rfl (by simp [Kind.operandAfter, other])
      (by simp [Token.literal?, other, Node.literals, Node.preorder, Node.isLiteral])
  next name isName =>
    refine .get ((meets_tokenLeaf _ (isName ▸ rfl)).bind ?_)
    rintro _ _ c₁ took ⟨rfl, rfl⟩
    have shorter := took.shorter
    have named : Spells false [c.current] [] true := .one isName
    refine .ifSees _ (fun _ => ?_) fun _ => .pure ?_
    · refine (within.call guarded _ _ c₁ (by omega)).weaken ?_
      rintro taken tree c₂ _ ⟨leaves, spells, same⟩
      exact (named.append spells).of_eq same.symm
    · exact named
  next isOpening => exact expression (within.parenthesized c (isOpening ▸ rfl) (by omega))
  next isOpening =>
    refine (meets_advance (isOpening ▸ rfl)).bind ?_
    rintro _ _ _ took ⟨rfl, rfl, rfl⟩
    have shorter := took.shorter
    refine (within.sequence _ _ (by omega)).bind ?_
    intro taken elements c₂ _ spells
    obtain ⟨operand, spells⟩ := spells false (.inl rfl)
    refine (meets_expect rfl).bind ?_
    rintro _ _ c₃ _ ⟨closing, rfl, isClosing⟩
    refine .tagFrom _ fun span => .pure ?_
    refine ((Spells.mark (isOpening ▸ rfl)).append
      (spells.append ((Spells.closing isClosing).append .nil))).of_eq ?_
    simp
  next => exact expression (within.block c (by omega))
  next isIf => exact expression (within.conditional c (isIf ▸ rfl) (by omega))
  next isWhile => exact expression (within.whileLoop c (isWhile ▸ rfl) (by omega))
  next => exact .fail _

theorem account_call (guarded : Bool) (start : Span) (callee : Tree)
    (enough : 8 * c.tokens.length ≤ fuel + 1) :
    Meets (call (fuel + 1) guarded start callee) (SpellsRest callee) c := by
  unfold call
  refine (meets_expect rfl).bind ?_
  rintro _ _ c₁ took₁ ⟨opening, rfl, isOpening⟩
  have shorter := took₁.shorter
  refine (within.sequence _ _ (by omega)).bind ?_
  intro taken args c₂ took₂ spells
  obtain ⟨operand, spells⟩ := spells false (.inl rfl)
  have shorter' := took₂.length_le
  refine (meets_expect rfl).bind ?_
  rintro _ _ c₃ took₃ ⟨closing, rfl, isClosing⟩
  have shorter'' := took₃.length_le
  have inside : Spells true ([opening] ++ (taken ++ [closing])) (literalsAll args) true := by
    simpa using (Spells.mark (isOpening ▸ rfl)).append (spells.append (Spells.closing isClosing))
  refine .sees _ (.ite (fun _ => ?_) fun _ => ?_)
  · refine (within.block _ (by omega)).bind ?_
    intro taken' trailing c₄ _ closed
    refine .tagFrom _ fun span => .pure ⟨literalsAll args ++ trailing.literals, ?_, ?_⟩
    · simpa using inside.append (closed true)
    · simp
  · refine .tagFrom _ fun span => .pure ⟨literalsAll args, ?_, ?_⟩
    · simpa using inside
    · simp

theorem account_parenthesized (isMark : c.current.kind.isMark = true)
    (enough : 8 * c.tokens.length ≤ fuel + 1) :
    Meets (parenthesized (fuel + 1)) SpellsClosed c := by
  unfold parenthesized
  refine (meets_advance (isTakable_of_isMark isMark)).bind ?_
  rintro _ _ _ took₁ ⟨rfl, rfl, rfl⟩
  have shorter := took₁.shorter
  refine .ifSees _ (fun isClosing => ?_) fun _ => ?_
  · refine (meets_advance (isClosing ▸ rfl)).bind ?_
    rintro _ _ _ _ ⟨rfl, rfl, rfl⟩
    refine .tagFrom _ fun span => .pure fun operand => ?_
    exact (Spells.mark isMark).append ((Spells.closing isClosing).append .nil)
  refine (within.binary 1 false _ (by omega)).bind ?_
  intro taken first c₂ took₂ spells
  have shorter' := took₂.length_le
  refine .ifSees _ (fun _ => ?_) fun _ => ?_
  · refine (within.tupleRest true _ (by omega)).bind ?_
    rintro taken' others c₃ _ ⟨operand', spells'⟩
    refine (meets_expect rfl).bind ?_
    rintro _ _ c₄ _ ⟨closing, rfl, isClosing⟩
    refine .tagFrom _ fun span => .pure fun operand => ?_
    refine ((Spells.mark isMark).append (spells.append (spells'.append
      ((Spells.closing isClosing).append .nil)))).of_eq ?_
    simp
  · refine (meets_expect rfl).bind ?_
    rintro _ _ c₃ _ ⟨closing, rfl, isClosing⟩
    refine .pure fun operand => ?_
    refine ((Spells.mark isMark).append (spells.append
      ((Spells.closing isClosing).append .nil))).of_eq ?_
    simp

theorem account_tupleRest (operand : Bool) (enough : 8 * c.tokens.length ≤ fuel + 1) :
    Meets (tupleRest (fuel + 1)) (SpellsTrees operand) c := by
  unfold tupleRest
  refine .ifSees _ (fun isComma => ?_) fun _ => .pure ⟨operand, .nil⟩
  refine (meets_advance (isComma ▸ rfl)).bind ?_
  rintro _ _ _ took₁ ⟨rfl, rfl, rfl⟩
  have shorter := took₁.shorter
  have comma : Spells operand [c.current] [] false := .mark (isComma ▸ rfl)
  refine .ifSees _ (fun _ => .pure ⟨false, comma.append .nil⟩) fun _ => ?_
  refine (within.binary 1 false _ (by omega)).bind ?_
  intro taken next c₂ took₂ spells
  have shorter' := took₂.length_lt spells.ne_nil
  refine (within.tupleRest true _ (by omega)).bind ?_
  rintro taken' others c₃ _ ⟨operand', spells'⟩
  refine .pure ⟨operand', (comma.append (spells.append (spells'.append .nil))).of_eq ?_⟩
  simp

theorem account_sequence (close : Kind) (enough : 8 * c.tokens.length + 4 ≤ fuel + 1) :
    Meets (sequence (fuel + 1) close) (SpellsElements close c) c := by
  unfold sequence
  refine .ifSees _ (fun _ => .pure fun operand _ => ⟨operand, .nil⟩) fun notClosed => ?_
  have expects : ∀ {operand}, operand = false ∨ c.current.kind = close → operand = false :=
    fun starts => starts.resolve_right notClosed
  refine (within.binary 1 false _ (by omega)).bind ?_
  intro taken first c₁ took₁ spells
  have shorter := took₁.length_lt spells.ne_nil
  refine .ifSees _ (fun isClosed => ?_) fun _ => ?_
  · refine (within.sequence close _ (by omega)).bind ?_
    intro taken' rest c₂ _ elements
    refine .pure fun operand starts => ?_
    obtain rfl := expects starts
    obtain ⟨operand', spells'⟩ := elements true (.inr isClosed)
    exact ⟨operand', (spells.append (spells'.append .nil)).of_eq (by simp)⟩
  · refine (meets_expect rfl).bind ?_
    rintro _ _ c₂ took₂ ⟨comma, rfl, isComma⟩
    have shorter' := took₂.length_le
    refine (within.sequence close _ (by omega)).bind ?_
    intro taken' rest c₃ _ elements
    refine .pure fun operand starts => ?_
    obtain rfl := expects starts
    obtain ⟨operand', spells'⟩ := elements false (.inl rfl)
    exact ⟨operand', (spells.append ((Spells.mark (isComma ▸ rfl)).append
      (spells'.append .nil))).of_eq (by simp)⟩

end Step

theorem accounts (fuel : Nat) : Accounts fuel := by
  induction fuel with
  | zero => exact accounts_zero
  | succ fuel within =>
    exact {
      statements := fun terminator _ => account_statements within terminator
      statement := fun _ => account_statement within
      block := fun _ => account_block within
      declaration := fun mutability _ => account_declaration within mutability
      function := fun _ => account_function within
      conditional := fun _ => account_conditional within
      alternative := fun _ => account_alternative within
      whileLoop := fun _ => account_whileLoop within
      binary := fun least guarded _ => account_binary within least guarded
      binaryRest := fun least guarded start left _ =>
        account_binaryRest within least guarded start left
      unary := fun guarded _ => account_unary within guarded
      primary := fun guarded _ => account_primary within guarded
      call := fun guarded start callee _ => account_call within guarded start callee
      parenthesized := fun _ => account_parenthesized within
      tupleRest := fun operand _ => account_tupleRest within operand
      sequence := fun close _ => account_sequence within close }

theorem meets_moduleName (anonymous : String) {c : Cursor} :
    Meets (moduleName anonymous) (fun taken _ _ => ∃ operand, Spells false taken [] operand) c := by
  refine .peek ?_
  split
  next isName =>
    refine (meets_advance (isName ▸ rfl)).bind ?_
    rintro _ _ _ _ ⟨rfl, _⟩
    exact .pure ⟨true, (Spells.one isName).append .nil⟩
  next isName =>
    refine (meets_advance (isName ▸ rfl)).bind ?_
    rintro _ _ _ _ ⟨rfl, _⟩
    exact .pure ⟨true, (Spells.one isName).append .nil⟩
  next => exact .pure ⟨false, .nil⟩

/-- A program takes everything before the end of input. -/
theorem meets_program (anonymous : String) (c : Cursor) :
    Meets (program anonymous) (fun taken tree c' => c'.current.kind = .eof ∧
      ∃ operand, Spells false taken tree.literals operand) c := by
  unfold program
  refine meets_skipTerms.bind ?_
  rintro ends _ c₁ took₁ ⟨areTerms, _⟩
  have before : Spells false ends [] false := Spells.of_terms areTerms
  have enough : 8 * c₁.tokens.length + 5 ≤ fuelFor c₁ := by
    simp only [Cursor.tokens, List.length_cons, fuelFor]
    omega
  refine .get (.get (.ifSees _ (fun isModule => ?_) fun _ => ?_))
  · refine (meets_advance (isModule ▸ rfl)).bind ?_
    rintro _ _ _ took₂ ⟨rfl, rfl, rfl⟩
    refine (meets_moduleName anonymous).bind ?_
    rintro named name c₃ took₃ ⟨operand, spellsName⟩
    have shorter := took₂.length_le
    have shorter' := took₃.length_le
    refine .ifSeesEither _ _ (fun either => ?_) (.fail _)
    refine ((accounts _).statements _ c₃ (by omega)).bind ?_
    rintro taken body c₄ _ ⟨_, spells⟩
    obtain ⟨operand', spells⟩ := spells operand (.inr either)
    refine (meets_expect rfl).bind ?_
    rintro _ _ c₅ _ ⟨closing, rfl, isEnd⟩
    refine meets_skipTerms.bind ?_
    rintro ends' _ c₆ _ ⟨areTerms', _⟩
    have after : Spells false ends' [] false := Spells.of_terms areTerms'
    refine .ifSees _ (fun atEnd => .tagFrom _ fun span => .pure ⟨atEnd, false, ?_⟩) fun _ => .fail _
    refine (before.append ((Spells.mark (isModule ▸ rfl)).append (spellsName.append
      (spells.append ((Spells.mark (isEnd ▸ rfl)).append (after.append .nil)))))).of_eq ?_
    simp
  · refine ((accounts _).statements _ c₁ enough).bind ?_
    rintro taken body c₂ _ ⟨atEnd, spells⟩
    obtain ⟨operand, spells⟩ := spells false (.inl rfl)
    refine .tagFrom _ fun span => .pure ⟨atEnd, operand, ?_⟩
    exact (before.append (spells.append .nil)).of_eq (by simp)

theorem tokens_start {tokens : List Token} (some : tokens ≠ []) : (start tokens).tokens = tokens := by
  cases tokens with
  | nil => exact absurd rfl some
  | cons token rest => rfl

end Parser

section Run

variable {anonymous source : String} {tree : Node Span} {c : Cursor} {failure : Parser.Failure}

theorem Node.parse_of_ok (run : (Parser.program anonymous : Parser Parser.Tree)
      (Parser.start (Token.tokenize source)) = .ok (tree, c)) :
    Node.parse anonymous source = .ok tree := by
  rw [Node.parse_eq]
  simp [Parser.plain, StateT.run', run, Functor.map, Except.map]

theorem Node.parse_of_error (run : (Parser.program anonymous : Parser Parser.Tree)
      (Parser.start (Token.tokenize source)) = .error failure) :
    Node.parse anonymous source = .error ⟨failure.cause, failure.token,
      ParseError.snippetAt source failure.token.span.start.offset⟩ := by
  rw [Node.parse_eq]
  simp [Parser.plain, StateT.run', run, Functor.map, Except.map]

end Run

/-- Reading a source text always ends, and a text that is read is read as a whole. The last token,
and no other, is the end of input. A program takes every token before it, one after the other and
none of them an error, and its literals are those that the tokens give: one for each literal token,
in source order, and a zero for each minus sign where an operand is expected. A text that is refused
is refused at one of its tokens, since something else was expected there: the bound on nested
productions is never reached and the end of input never taken. -/
theorem Node.parse_reads_whole (anonymous source : String) :
    ∃ front last, Token.tokenize source = front ++ [last] ∧ last.kind = .eof ∧
      (∀ token ∈ front, token.kind ≠ .eof) ∧
      (match Node.parse anonymous source with
        | .ok tree =>
          (∃ numbered next c, (Parser.program anonymous : Parser.Dealing (Node Tag)) 1
              (Parser.start (Token.tokenize source)) = .ok ((numbered, next), c) ∧
            tree = numbered.map Tag.span ∧
            Parser.Took (Parser.start (Token.tokenize source)) front c ∧ c.tokens = [last]) ∧
          (∀ token ∈ front, token.kind.isError = false) ∧
          tree.literals = Token.literals false front
        | .error error =>
          (∃ what, error.cause = .expected what) ∧ error.token ∈ Token.tokenize source) ∧
      ((∃ token ∈ Token.tokenize source, ∃ reason, token.kind = .error reason) →
        ∃ error, Node.parse anonymous source = .error error) := by
  have laid := Token.laid_scan .initial [] source.toList
  obtain ⟨front, split, others⟩ := laid.ends
  replace split : Token.tokenize source = front ++ [_] := split
  have sameTokens : (Parser.start (Token.tokenize source)).tokens = Token.tokenize source :=
    Parser.tokens_start (by simp [split])
  have ended : Parser.Ended (Parser.start (Token.tokenize source)) :=
    ⟨front, _, sameTokens.trans split, rfl, others⟩
  have meets := Parser.meets_program anonymous _ ended
  refine ⟨front, _, split, rfl, others, ?_⟩
  cases run : (Parser.program anonymous : Parser Parser.Tree)
      (Parser.start (Token.tokenize source)) with
  | error failure =>
    rw [run] at meets
    rw [Node.parse_of_error run]
    exact ⟨⟨meets.1, sameTokens ▸ meets.2⟩, fun _ => ⟨_, rfl⟩⟩
  | ok result =>
    obtain ⟨tree, c⟩ := result
    rw [run] at meets
    obtain ⟨taken, took, atEnd, operand, spells⟩ := meets
    have last : c.tokens = [c.current] :=
      congrArg (c.current :: ·) ((ended.after took).rest_eq_nil atEnd)
    have whole := took.tokens_eq
    rw [sameTokens, split, last] at whole
    obtain ⟨rfl, same⟩ := List.append_inj' whole rfl
    rw [← same] at last
    have noError := took.isError_eq
    obtain ⟨numbered, next, dealt, isPlain, _⟩ :=
      Parser.Deals.exists_of_ok (Parser.deals_program anonymous 1) run
    rw [Node.parse_of_ok run]
    refine ⟨⟨⟨numbered, next, c, dealt, isPlain, took, last⟩, noError, spells.leaves_eq.symm⟩, ?_⟩
    rintro ⟨token, member, reason, isError⟩
    rw [split] at member
    rcases List.mem_append.mp member with inFront | isLast
    · cases (isError ▸ noError token inFront : (Token.Kind.error reason).isError = false)
    · cases List.mem_singleton.mp isLast
      cases isError

end ScriptVM
