import ScriptVM.Proofs.TokenSpans
import ScriptVM.Proofs.Walks
import ScriptVM.Proofs.WholeInput

/-!
Where the nodes of a parsed tree stand in the source text.

The span of a node runs from the first to the last token of some stretch of the text's tokens, and
the children of the node stand in this stretch in the same way. So what a production gives stands in
the tokens that it took; a node made up for what the source leaves out stands at a token that was
taken before. Only the root may stand at no token at all. As tokens are in order, the span of a child
lies within that of its parent.
-/
namespace ScriptVM

/-- The span that begins at the current token and goes on to the last of the tokens taken. -/
def Cursor.spanPast (c : Cursor) (taken : List Token) : Span :=
  c.current.span.merge ((taken.getLast?.map Token.span).getD c.previous)

namespace Parser

open Token (Kind)

/-! ### Trees and stretches of tokens -/

/-- The span from the first to the last of some tokens. -/
def Covers (stretch : List Token) (span : Span) : Prop :=
  ∃ first last, stretch.head? = some first ∧ stretch.getLast? = some last ∧
    span = first.span.merge last.span

/-- A tree stands in some tokens: its span covers a stretch of them, in which its children stand. -/
inductive StandsIn : List Token → Tree → Prop
  | intro {tokens stretch : List Token} {node : Tree} (part : stretch <:+: tokens)
      (covers : Covers stretch node.tag) (children : ∀ child ∈ node.children, StandsIn stretch child) :
      StandsIn tokens node

/-- The same for several trees. -/
def StandIn (tokens : List Token) (trees : List Tree) : Prop :=
  ∀ tree ∈ trees, StandsIn tokens tree

section Stretches

variable {taken more tokens : List Token} {tree node : Tree} {trees : List Tree} {token : Token}

theorem Covers.one (token : Token) : Covers [token] token.span :=
  ⟨token, token, rfl, rfl, (merge_self _).symm⟩

theorem Covers.head_mem {span : Span} (covers : Covers taken span) : ∃ token, token ∈ taken := by
  obtain ⟨first, _, isFirst, _⟩ := covers
  exact ⟨first, List.mem_of_head? isFirst⟩

theorem StandsIn.widen (stands : StandsIn taken tree) (part : taken <:+: tokens) :
    StandsIn tokens tree := by
  obtain ⟨part', covers, children⟩ := stands
  exact ⟨part'.trans part, covers, children⟩

theorem StandsIn.left (stands : StandsIn taken tree) : StandsIn (taken ++ more) tree :=
  stands.widen (List.prefix_append ..).isInfix

theorem StandsIn.right (stands : StandsIn more tree) : StandsIn (taken ++ more) tree :=
  stands.widen (List.suffix_append ..).isInfix

theorem StandIn.left (stand : StandIn taken trees) : StandIn (taken ++ more) trees :=
  fun tree member => (stand tree member).left

theorem StandIn.right (stand : StandIn more trees) : StandIn (taken ++ more) trees :=
  fun tree member => (stand tree member).right

theorem StandIn.nil (taken : List Token) : StandIn taken [] := nofun

theorem StandIn.cons (stands : StandsIn taken tree) (stand : StandIn taken trees) :
    StandIn taken (tree :: trees) :=
  List.forall_mem_cons.mpr ⟨stands, stand⟩

theorem StandIn.one (stands : StandsIn taken tree) : StandIn taken [tree] :=
  .cons stands (.nil _)

theorem StandIn.append {others : List Tree} (one : StandIn taken trees)
    (two : StandIn taken others) : StandIn taken (trees ++ others) :=
  List.forall_mem_append.mpr ⟨one, two⟩

/-- A tree whose span covers all the tokens. -/
theorem StandsIn.whole (covers : Covers tokens node.tag) (children : StandIn tokens node.children) :
    StandsIn tokens node :=
  ⟨List.infix_refl _, covers, children⟩

/-- A leaf at the last token. -/
theorem StandsIn.leaf (isLast : taken.getLast? = some token) (kind : Leaf) :
    StandsIn taken (.leaf token.span kind) := by
  refine ⟨?_, Covers.one token, nofun⟩
  obtain ⟨before, rfl⟩ := List.getLast?_eq_some_iff.mp isLast
  exact (List.suffix_append ..).isInfix

/-- No tree stands in no tokens. -/
theorem not_standsIn_nil : ¬ StandsIn [] tree := by
  rintro ⟨part, covers, _⟩
  obtain ⟨token, member⟩ := covers.head_mem
  rw [List.eq_nil_of_infix_nil part] at member
  cases member

/-- What stands below a tree stands where the tree does. -/
theorem StandsIn.inner (stands : StandsIn tokens tree) (inside : node ∈ tree.preorder) :
    StandsIn tokens node := by
  induction tree using Node.childInduction generalizing tokens with
  | step tree ih =>
    rcases Node.mem_preorder.mp inside with rfl | ⟨child, member, inChild⟩
    · exact stands
    · obtain ⟨part, _, children⟩ := stands
      exact (ih child member (children child member) inChild).widen part

end Stretches

/-! ### What productions take -/

/-- The cursor moves past some tokens and knows the span of the last one. -/
structure Moved (c : Cursor) (taken : List Token) (c' : Cursor) : Prop where
  tokens : c.tokens = taken ++ c'.tokens
  previous : c'.previous = (taken.getLast?.map Token.span).getD c.previous

namespace Moved

variable {c c₁ c' : Cursor} {taken more : List Token}

theorem refl (c : Cursor) : Moved c [] c := ⟨rfl, rfl⟩

theorem trans (first : Moved c taken c₁) (second : Moved c₁ more c') :
    Moved c (taken ++ more) c' := by
  refine ⟨by rw [first.tokens, second.tokens, List.append_assoc], ?_⟩
  rw [second.previous, first.previous, List.getLast?_append]
  cases more.getLast? <;> rfl

theorem one (goesOn : c.rest ≠ []) : Moved c [c.current] c.advance := by
  refine ⟨tokens_advance goesOn, ?_⟩
  obtain ⟨current, _ | ⟨next, rest⟩, previous⟩ := c
  · exact absurd rfl goesOn
  · rfl

/-- The span from the token where the cursor stood to the last one taken covers them all. -/
theorem covers (moved : Moved c taken c') (some : taken ≠ []) :
    Covers taken (c.current.span.merge c'.previous) := by
  obtain ⟨first, rest, rfl⟩ := List.exists_cons_of_ne_nil some
  have isFirst : c.current = first := (List.cons.inj moved.tokens).1
  refine ⟨first, (first :: rest).getLast some, rfl, List.getLast?_eq_some_getLast some, ?_⟩
  rw [moved.previous, List.getLast?_eq_some_getLast some, isFirst]
  rfl

end Moved

/-- What holds of the tokens that a production takes and of what it gives, if it gives anything. -/
def Marks {α : Type} (p : Parser α) (post : List Token → α → Prop) (c : Cursor) : Prop :=
  ∀ a c', p c = .ok (a, c') → ∃ taken, Moved c taken c' ∧ post taken a

/-- The same of the end of a production: some tokens were taken since it stood at `c₀`. -/
def After {α : Type} (c₀ : Cursor) (read : List Token) (p : Parser α)
    (post : List Token → α → Prop) (c : Cursor) : Prop :=
  Moved c₀ read c → ∀ a c', p c = .ok (a, c') → ∃ taken, Moved c₀ taken c' ∧ post taken a

theorem Marks.of_after {α : Type} {p : Parser α} {post : List Token → α → Prop} {c : Cursor}
    (after : After c [] p post c) : Marks p post c := after (.refl c)

namespace After

variable {α β : Type} {c₀ c : Cursor} {read : List Token} {p q : Parser α}
  {post : List Token → α → Prop}

theorem pure {a : α} (holds : post read a) : After c₀ read (Pure.pure a) post c := by
  intro moved a' c' parsed
  cases parsed
  exact ⟨read, moved, holds⟩

theorem fail (what : String) : After c₀ read (Parser.fail what : Parser α) post c := by
  intro _ a c' parsed
  cases parsed

theorem andThen {f : β → Parser α} {first : Parser β} {mid : List Token → β → Prop}
    (marks : Marks first mid c)
    (rest : ∀ more b c₁, mid more b → After c₀ (read ++ more) (f b) post c₁) :
    After c₀ read (first >>= f) post c := by
  intro moved a c' parsed
  obtain ⟨b, c₁, parsedFirst, parsedRest⟩ := Walks.bind_ok.mp parsed
  obtain ⟨more, movedOn, holds⟩ := marks b c₁ parsedFirst
  exact rest more b c₁ holds (moved.trans movedOn) a c' parsedRest

/-- What another production gives is what this one gives. -/
theorem last {mid : List Token → α → Prop} (marks : Marks p mid c)
    (holds : ∀ more a, mid more a → post (read ++ more) a) : After c₀ read p post c := by
  intro moved a c' parsed
  obtain ⟨more, movedOn, isMid⟩ := marks a c' parsed
  exact ⟨read ++ more, moved.trans movedOn, holds more a isMid⟩

theorem ite {condition : Prop} [Decidable condition] (yes : After c₀ read p post c)
    (no : After c₀ read q post c) : After c₀ read (if condition then p else q) post c := by
  split
  · exact yes
  · exact no

theorem get {f : Cursor → Parser α} (rest : After c₀ read (f c) post c) :
    After c₀ read (MonadState.get >>= f) post c := rest

theorem peek {f : Kind → Parser α} (rest : After c₀ read (f c.current.kind) post c) :
    After c₀ read (Parser.peek >>= f) post c := rest

theorem sees {f : Bool → Parser α} (kind : Kind) (rest : ∀ seen, After c₀ read (f seen) post c) :
    After c₀ read (Parser.sees kind >>= f) post c := rest _

/-- The span from where the production stood to the last token taken. -/
theorem tagFrom {f : Span → Parser α} (some : read ≠ [])
    (rest : ∀ span, Covers read span → After c₀ read (f span) post c) :
    After c₀ read (Parser.tagFrom c₀.current.span >>= f) post c :=
  fun moved => rest _ (moved.covers some) moved

/-- The same where nothing need have been taken. -/
theorem tagFromStart {f : Span → Parser α}
    (rest : After c₀ read (f (c₀.spanPast read)) post c) :
    After c₀ read (Parser.tagFrom c₀.current.span >>= f) post c := by
  intro moved
  have same : c₀.spanPast read = c₀.current.span.merge c.previous := by
    rw [moved.previous, Cursor.spanPast]
  rw [same] at rest
  exact rest moved

theorem tag {f : Span → Parser α} {start : Span} (rest : After c₀ read (f start) post c) :
    After c₀ read (Parser.Tagging.tag start >>= f) post c := rest

/-- What the source leaves out stands at the last token taken. -/
theorem missing {f : Tree → Parser α} (some : read ≠ [])
    (rest : ∀ value, StandsIn read value → After c₀ read (f value) post c) :
    After c₀ read (Parser.missing >>= f) post c := by
  intro moved
  refine rest _ ?_ moved
  rw [moved.previous, List.getLast?_eq_some_getLast some]
  exact .leaf (List.getLast?_eq_some_getLast some) .unit

end After

section Primitives

variable {c : Cursor}

theorem marks_exhaust {α : Type} {post : List Token → α → Prop} : Marks (exhaust : Parser α) post c := by
  intro a c' parsed
  cases parsed

theorem marks_advance :
    Marks advance (fun taken span => taken = [c.current] ∧ span = c.current.span) c := by
  intro span c' parsed
  obtain ⟨current, _ | ⟨next, rest⟩, previous⟩ := c
  · cases parsed
  · cases parsed
    exact ⟨[current], .one nofun, rfl, rfl⟩

/-- A production goes on past the current token. -/
theorem After.advance {α : Type} {c₀ : Cursor} {read : List Token} {f : Span → Parser α}
    {post : List Token → α → Prop}
    (rest : ∀ c₁, After c₀ (read ++ [c.current]) (f c.current.span) post c₁) :
    After c₀ read (Parser.advance >>= f) post c := by
  refine .andThen marks_advance ?_
  rintro _ _ c₁ ⟨rfl, rfl⟩
  exact rest c₁

theorem marks_expect (kind : Kind) :
    Marks (expect kind) (fun taken span => taken = [c.current] ∧ span = c.current.span) c :=
  .of_after (.sees _ fun _ => .ite (.last marks_advance fun _ _ same => same) (.fail _))

theorem marks_valueName : Marks valueName (fun taken _ => taken ≠ []) c := by
  refine .of_after (.peek ?_)
  split
  · refine .advance fun _ => ?_
    exact .pure (by simp)
  · exact .fail _

theorem marks_typeName? : Marks typeName? (fun _ _ => True) c := by
  refine .of_after (.peek ?_)
  split
  · exact .advance fun _ => .pure trivial
  · exact .pure trivial

theorem marks_moduleName (anonymous : String) : Marks (moduleName anonymous) (fun _ _ => True) c := by
  refine .of_after (.peek ?_)
  split
  · exact .advance fun _ => .pure trivial
  · exact .advance fun _ => .pure trivial
  · exact .pure trivial

theorem moved_skipTerms (c : Cursor) :
    ∃ taken, Moved c taken (Cursor.skipTerms c.previous c.current c.rest) := by
  obtain ⟨current, rest, previous⟩ := c
  induction rest generalizing current previous with
  | nil => exact ⟨[], .refl _⟩
  | cons next rest ih =>
    by_cases isTerm : current.kind = .term
    · obtain ⟨taken, moved⟩ := ih next current.span
      rw [Cursor.skipTerms, if_pos isTerm]
      have first : Moved ⟨current, next :: rest, previous⟩ [current] ⟨next, rest, current.span⟩ :=
        .one (List.cons_ne_nil _ _)
      exact ⟨_, first.trans moved⟩
    · rw [Cursor.skipTerms, if_neg isTerm]
      exact ⟨[], .refl _⟩

theorem marks_skipTerms : Marks skipTerms (fun _ _ => True) c := by
  intro _ c' parsed
  cases parsed
  obtain ⟨taken, moved⟩ := moved_skipTerms c
  exact ⟨taken, moved, trivial⟩

theorem marks_tokenLeaf (kind : Leaf) : Marks (tokenLeaf kind) StandsIn c := by
  exact .of_after (.advance fun _ =>
    .tagFrom (by simp) fun span covers => .pure (.whole covers (.nil _)))

theorem marks_parameters (fuel : Nat) : Marks (parameters fuel) StandIn c := by
  induction fuel generalizing c with
  | zero => exact marks_exhaust
  | succ fuel ih =>
    refine .of_after ?_
    unfold parameters
    refine .sees _ fun _ => .ite (.pure (.nil _)) (.get (.andThen marks_valueName ?_))
    intro named name c₁ some
    refine .andThen marks_typeName? fun typed type c₂ _ => ?_
    refine .tagFrom (by simp [some]) fun span covers => ?_
    have param : StandsIn ([] ++ named ++ typed) (.param span name type) := .whole covers (.nil _)
    refine .sees _ fun _ => .ite ?_ ?_
    · refine .andThen ih fun others params c₃ stand => .pure ?_
      exact .cons param.left stand.right
    · refine .andThen (marks_expect _) fun comma _ c₃ _ => ?_
      refine .andThen ih fun others params c₄ stand => .pure ?_
      exact .cons param.left.left stand.right

end Primitives

/-- Where the trees stand that the productions give under a bound on their nesting. Two productions go
on with a tree that stands in what was read before. -/
structure Placings (fuel : Nat) : Prop where
  statements : ∀ terminator c, Marks (statements fuel terminator) StandIn c
  statement : ∀ c, Marks (statement fuel) StandsIn c
  block : ∀ c, Marks (block fuel) StandsIn c
  declaration : ∀ mutability c, Marks (declaration fuel mutability) StandsIn c
  function : ∀ c, Marks (function fuel) StandsIn c
  conditional : ∀ c, Marks (conditional fuel) StandsIn c
  alternative : ∀ c, Marks (alternative fuel) StandsIn c
  whileLoop : ∀ c, Marks (whileLoop fuel) StandsIn c
  binary : ∀ least guarded c, Marks (binary fuel least guarded) StandsIn c
  binaryRest : ∀ least guarded c₀ read left c, StandsIn read left →
    After c₀ read (binaryRest fuel least guarded c₀.current.span left) StandsIn c
  unary : ∀ guarded c, Marks (unary fuel guarded) StandsIn c
  primary : ∀ guarded c, Marks (primary fuel guarded) StandsIn c
  call : ∀ guarded c₀ read callee c, StandsIn read callee →
    After c₀ read (call fuel guarded c₀.current.span callee) StandsIn c
  parenthesized : ∀ c, Marks (parenthesized fuel) StandsIn c
  tupleRest : ∀ c, Marks (tupleRest fuel) StandIn c
  sequence : ∀ close c, Marks (sequence fuel close) StandIn c

theorem placings_zero : Placings 0 := by
  constructor
  case binaryRest =>
    intro _ _ _ _ _ _ _ _ _ _ parsed
    cases parsed
  case call =>
    intro _ _ _ _ _ _ _ _ _ parsed
    cases parsed
  all_goals
    intros
    exact marks_exhaust

section Step

variable {fuel : Nat} {c : Cursor} (within : Placings fuel)

include within

theorem place_statements (terminator : Kind) :
    Marks (statements (fuel + 1) terminator) StandIn c := by
  refine .of_after ?_
  unfold statements
  refine .andThen marks_skipTerms fun ends _ c₁ _ => ?_
  refine .sees _ fun _ => .ite (.pure (.nil _)) (.sees _ fun _ => .ite (.fail _) ?_)
  refine .andThen (within.statement c₁) fun taken first c₂ stands => ?_
  refine .sees _ fun _ => .sees _ fun _ => .ite ?_ (.fail _)
  refine .andThen (within.statements terminator c₂) fun taken' rest c₃ stand => ?_
  exact .pure (.cons stands.right.left stand.right)

theorem place_statement : Marks (statement (fuel + 1)) StandsIn c := by
  have whole (p : Parser Tree) (marks : Marks p StandsIn c) : After c [] p StandsIn c :=
    .last marks fun _ _ stands => stands
  have expression := whole _ (within.binary 1 false c)
  refine .of_after ?_
  unfold statement
  refine .peek ?_
  split
  next => exact whole _ (within.declaration .val c)
  next => exact whole _ (within.declaration .var c)
  next => exact whole _ (within.function c)
  next =>
    refine .advance fun c₁ => ?_
    refine .andThen (within.alternative c₁) fun taken body c₂ stands => ?_
    exact .tagFrom (by simp) fun span covers => .pure (.whole covers (.one stands.right))
  next name =>
    refine .get (.ite ?_ expression)
    refine .advance fun c₁ => ?_
    refine .advance fun c₂ => ?_
    refine .andThen (within.binary 1 false c₂) fun taken value c₃ stands => ?_
    exact .tagFrom (by simp) fun span covers => .pure (.whole covers (.one stands.right))
  next => exact expression

theorem place_block : Marks (block (fuel + 1)) StandsIn c := by
  refine .of_after ?_
  unfold block
  refine .andThen (marks_expect _) ?_
  rintro _ _ c₁ ⟨rfl, rfl⟩
  refine .andThen (within.statements _ c₁) fun taken body c₂ stand => ?_
  refine .andThen (marks_expect _) fun closing _ c₃ _ => ?_
  exact .tagFrom (by simp) fun span covers => .pure (.whole covers stand.right.left)

theorem place_declaration (mutability : Mutability) :
    Marks (declaration (fuel + 1) mutability) StandsIn c := by
  refine .of_after ?_
  unfold declaration
  refine .advance fun c₁ => ?_
  refine .andThen marks_valueName fun named name c₂ _ => ?_
  refine .andThen marks_typeName? fun typed type c₃ _ => .peek ?_
  have finish (read : List Token) (value : Tree) (c₄ : Cursor) (some : read ≠ [])
      (stands : StandsIn read value) : After c read (do
        return Node.declare (← tagFrom c.current.span) mutability name type value) StandsIn c₄ :=
    .tagFrom some fun span covers => .pure (.whole covers (.one stands))
  split
  next =>
    refine .advance fun c₄ => ?_
    refine .andThen (within.binary 1 false c₄) fun taken value c₅ stands => ?_
    exact finish _ value c₅ (by simp) stands.right
  next =>
    refine .andThen (within.block c₃) fun taken value c₄ stands => ?_
    exact finish _ value c₄ (by simp) stands.right
  next => exact .missing (by simp) fun value stands => finish _ value c₃ (by simp) stands

theorem place_function : Marks (function (fuel + 1)) StandsIn c := by
  refine .of_after ?_
  unfold function
  refine .advance fun c₁ => ?_
  refine .andThen marks_valueName fun named name c₂ _ => ?_
  refine .andThen (marks_expect _) fun opening _ c₃ _ => ?_
  refine .andThen (marks_parameters fuel) fun heading params c₄ stand => ?_
  refine .andThen (marks_expect _) fun closing _ c₅ _ => ?_
  refine .andThen marks_typeName? fun typed result c₆ _ => ?_
  refine .andThen (within.block c₆) fun taken body c₇ stands => ?_
  refine .tagFrom (by simp) fun span covers => .pure (.whole covers ?_)
  exact stand.right.left.left.left.append (.one stands.right)

theorem place_conditional : Marks (conditional (fuel + 1)) StandsIn c := by
  refine .of_after ?_
  unfold conditional
  refine .advance fun c₁ => ?_
  refine .andThen (within.binary 1 true c₁) fun taken pred c₂ inPred => ?_
  refine .andThen (within.block c₂) fun taken' yes c₃ inYes => ?_
  refine .sees _ fun _ => .ite ?_ ?_
  · refine .advance fun c₄ => ?_
    refine .andThen (within.alternative c₄) fun taken'' no c₅ inNo => ?_
    refine .tagFrom (by simp) fun span covers => .pure (.whole covers ?_)
    exact .cons inPred.right.left.left.left (.cons inYes.right.left.left (.one inNo.right))
  · refine .missing (by simp) fun no inNo => ?_
    refine .tagFrom (by simp) fun span covers => .pure (.whole covers ?_)
    exact .cons inPred.right.left (.cons inYes.right (.one inNo))

theorem place_alternative : Marks (alternative (fuel + 1)) StandsIn c := by
  refine .of_after ?_
  unfold alternative
  refine .sees _ fun _ => .ite ?_ ?_
  · exact .last (within.conditional c) fun _ _ stands => stands
  · exact .last (within.block c) fun _ _ stands => stands

theorem place_whileLoop : Marks (whileLoop (fuel + 1)) StandsIn c := by
  refine .of_after ?_
  unfold whileLoop
  refine .advance fun c₁ => ?_
  refine .andThen (within.binary 1 true c₁) fun taken pred c₂ inPred => ?_
  refine .andThen (within.block c₂) fun taken' body c₃ inBody => ?_
  refine .tagFrom (by simp) fun span covers => .pure (.whole covers ?_)
  exact .cons inPred.right.left (.one inBody.right)

theorem place_binary (least : Nat) (guarded : Bool) :
    Marks (binary (fuel + 1) least guarded) StandsIn c := by
  refine .of_after ?_
  unfold binary
  refine .get (.andThen (within.unary guarded c) fun taken left c₁ stands => ?_)
  exact within.binaryRest least guarded c _ left c₁ stands.right

theorem place_binaryRest (least : Nat) (guarded : Bool) (c₀ : Cursor) (read : List Token)
    (left : Tree) (inLeft : StandsIn read left) :
    After c₀ read (binaryRest (fuel + 1) least guarded c₀.current.span left) StandsIn c := by
  unfold binaryRest
  refine .peek ?_
  split
  next op =>
    refine .ite (.pure inLeft) ?_
    refine .advance fun c₁ => ?_
    refine .andThen (within.binary _ guarded c₁) fun taken right c₂ inRight => ?_
    refine .tagFrom (by simp) fun span covers => ?_
    refine within.binaryRest least guarded c₀ _ _ c₂ (.whole covers ?_)
    exact .cons inLeft.left.left (.one inRight.right)
  next => exact .pure inLeft

theorem place_unary (guarded : Bool) : Marks (unary (fuel + 1) guarded) StandsIn c := by
  refine .of_after ?_
  unfold unary
  refine .sees _ fun _ => .ite ?_ ?_
  · refine .advance fun c₁ => ?_
    have zero : StandsIn ([] ++ [c.current]) (.leaf c.current.span (.int "0")) := .leaf rfl _
    refine .tag (.andThen (within.unary guarded c₁) fun taken operand c₂ stands => ?_)
    refine .tagFrom (by simp) fun span covers => .pure (.whole covers ?_)
    exact .cons zero.left (.one stands.right)
  · exact .last (within.primary guarded c) fun _ _ stands => stands

theorem place_primary (guarded : Bool) : Marks (primary (fuel + 1) guarded) StandsIn c := by
  have whole (p : Parser Tree) (marks : Marks p StandsIn c) : After c [] p StandsIn c :=
    .last marks fun _ _ stands => stands
  refine .of_after ?_
  unfold primary
  refine .peek ?_
  split
  next => exact whole _ (marks_tokenLeaf _)
  next => exact whole _ (marks_tokenLeaf _)
  next => exact whole _ (marks_tokenLeaf _)
  next => exact whole _ (marks_tokenLeaf _)
  next => exact whole _ (marks_tokenLeaf _)
  next => exact whole _ (marks_tokenLeaf _)
  next name =>
    refine .get (.andThen (marks_tokenLeaf _) fun taken callee c₁ stands => ?_)
    refine .sees _ fun _ => .ite ?_ (.pure stands.right)
    exact within.call guarded c _ callee c₁ stands.right
  next => exact whole _ (within.parenthesized c)
  next =>
    refine .advance fun c₁ => ?_
    refine .andThen (within.sequence _ c₁) fun taken elements c₂ stand => ?_
    refine .andThen (marks_expect _) fun closing _ c₃ _ => ?_
    exact .tagFrom (by simp) fun span covers => .pure (.whole covers stand.right.left)
  next => exact whole _ (within.block c)
  next => exact whole _ (within.conditional c)
  next => exact whole _ (within.whileLoop c)
  next => exact .fail _

theorem place_call (guarded : Bool) (c₀ : Cursor) (read : List Token) (callee : Tree)
    (inCallee : StandsIn read callee) :
    After c₀ read (call (fuel + 1) guarded c₀.current.span callee) StandsIn c := by
  unfold call
  refine .andThen (marks_expect _) ?_
  rintro _ _ c₁ ⟨rfl, _⟩
  refine .andThen (within.sequence _ c₁) fun taken args c₂ stand => ?_
  refine .andThen (marks_expect _) fun closing _ c₃ _ => ?_
  refine .sees _ fun _ => .ite ?_ ?_
  · refine .andThen (within.block c₃) fun taken' trailing c₄ stands => ?_
    refine .tagFrom (by simp) fun span covers => .pure (.whole covers ?_)
    exact .cons inCallee.left.left.left.left (stand.right.left.left.append (.one stands.right))
  · refine .tagFrom (by simp) fun span covers => .pure (.whole covers ?_)
    exact .cons inCallee.left.left.left (stand.right.left.append (.nil _))

theorem place_parenthesized : Marks (parenthesized (fuel + 1)) StandsIn c := by
  refine .of_after ?_
  unfold parenthesized
  refine .advance fun c₁ => ?_
  refine .sees _ fun _ => .ite ?_ ?_
  · refine .advance fun c₂ => ?_
    exact .tagFrom (by simp) fun span covers => .pure (.whole covers (.nil _))
  · refine .andThen (within.binary 1 false c₁) fun taken first c₂ stands => ?_
    refine .sees _ fun _ => .ite ?_ ?_
    · refine .andThen (within.tupleRest c₂) fun taken' others c₃ stand => ?_
      refine .andThen (marks_expect _) fun closing _ c₄ _ => ?_
      refine .tagFrom (by simp) fun span covers => .pure (.whole covers ?_)
      exact .cons stands.right.left.left stand.right.left
    · refine .andThen (marks_expect _) fun closing _ c₃ _ => ?_
      exact .pure stands.right.left

theorem place_tupleRest : Marks (tupleRest (fuel + 1)) StandIn c := by
  refine .of_after ?_
  unfold tupleRest
  refine .sees _ fun _ => .ite ?_ (.pure (.nil _))
  refine .advance fun c₁ => ?_
  refine .sees _ fun _ => .ite (.pure (.nil _)) ?_
  refine .andThen (within.binary 1 false c₁) fun taken next c₂ stands => ?_
  refine .andThen (within.tupleRest c₂) fun taken' rest c₃ stand => ?_
  exact .pure (.cons stands.right.left stand.right)

theorem place_sequence (close : Kind) : Marks (sequence (fuel + 1) close) StandIn c := by
  refine .of_after ?_
  unfold sequence
  refine .sees _ fun _ => .ite (.pure (.nil _)) ?_
  refine .andThen (within.binary 1 false c) fun taken first c₁ stands => ?_
  refine .sees _ fun _ => .ite ?_ ?_
  · refine .andThen (within.sequence close c₁) fun taken' rest c₂ stand => ?_
    exact .pure (.cons stands.right.left stand.right)
  · refine .andThen (marks_expect _) fun comma _ c₂ _ => ?_
    refine .andThen (within.sequence close c₂) fun taken' rest c₃ stand => ?_
    exact .pure (.cons stands.right.left.left stand.right)

end Step

theorem placings (fuel : Nat) : Placings fuel := by
  induction fuel with
  | zero => exact placings_zero
  | succ fuel within =>
    exact {
      statements := fun terminator c => place_statements within terminator
      statement := fun c => place_statement within
      block := fun c => place_block within
      declaration := fun mutability c => place_declaration within mutability
      function := fun c => place_function within
      conditional := fun c => place_conditional within
      alternative := fun c => place_alternative within
      whileLoop := fun c => place_whileLoop within
      binary := fun least guarded c => place_binary within least guarded
      binaryRest := fun least guarded c₀ read left c =>
        place_binaryRest within least guarded c₀ read left
      unary := fun guarded c => place_unary within guarded
      primary := fun guarded c => place_primary within guarded
      call := fun guarded c₀ read callee c => place_call within guarded c₀ read callee
      parenthesized := fun c => place_parenthesized within
      tupleRest := fun c => place_tupleRest within
      sequence := fun close c => place_sequence within close }

/-- A tree that begins where a production stood, whether or not that took a token. -/
def BeginsAt (c : Cursor) (taken : List Token) (tree : Tree) : Prop :=
  StandIn taken tree.children ∧ tree.tag = c.spanPast taken

/-- A program begins where the statement ends at the front are taken. -/
theorem marks_program (anonymous : String) {c c' : Cursor} {tree : Tree}
    (parsed : (program anonymous : Parser Tree) c = .ok (tree, c')) :
    ∃ ends c₁ taken, Moved c ends c₁ ∧ Moved c₁ taken c' ∧ BeginsAt c₁ taken tree := by
  obtain ⟨_, c₁, first, rest⟩ := Walks.bind_ok.mp parsed
  obtain ⟨ends, moved, _⟩ := marks_skipTerms _ _ first
  suffices placed : ∃ taken, Moved c₁ taken c' ∧ BeginsAt c₁ taken tree by
    obtain ⟨taken, placed⟩ := placed
    exact ⟨ends, c₁, taken, moved, placed⟩
  refine Marks.of_after ?_ tree c' rest
  refine .get (.get (.sees _ fun _ => .ite ?_ ?_))
  · refine .advance fun c₂ => ?_
    refine .andThen (marks_moduleName anonymous) fun named name c₃ _ => ?_
    refine .sees _ fun _ => .sees _ fun _ => .ite ?_ (.fail _)
    refine .andThen ((placings _).statements _ c₃) fun inner body c₄ stand => ?_
    refine .andThen (marks_expect _) fun closing _ c₅ _ => ?_
    refine .andThen marks_skipTerms fun ends' _ c₆ _ => ?_
    refine .sees _ fun _ => .ite (.tagFromStart (.pure ⟨?_, rfl⟩)) (.fail _)
    exact stand.right.left.left
  · refine .andThen ((placings _).statements _ c₁) fun inner body c₂ stand => ?_
    exact .tagFromStart (.pure ⟨stand.right, rfl⟩)

end Parser

/-! ### Spans in a text -/

namespace Span

/-- A span between two places of a text: after some characters each, and in order. -/
structure InText (span : Span) (text : List Char) : Prop where
  start : ∃ before, before <+: text ∧ span.start = .past before
  stop : ∃ before, before <+: text ∧ span.stop = .past before
  ordered : span.start.offset ≤ span.stop.offset

/-- One span lies within another. -/
def Within (inner outer : Span) : Prop :=
  outer.start.offset ≤ inner.start.offset ∧ inner.stop.offset ≤ outer.stop.offset

variable {text : List Char} {left right outer : Span}

theorem InText.merge (one : left.InText text) (two : right.InText text) :
    (left.merge right).InText text := by
  have := one.ordered
  have := two.ordered
  refine ⟨?_, ?_, ?_⟩
  · simp only [Span.merge]
    split
    · exact two.start
    · exact one.start
  · simp only [Span.merge]
    split
    · exact one.stop
    · exact two.stop
  · simp only [Span.merge]
    split <;> split <;> omega

theorem InText.origin (text : List Char) : Span.origin.InText text :=
  ⟨⟨[], List.nil_prefix, rfl⟩, ⟨[], List.nil_prefix, rfl⟩, Nat.le_refl _⟩

/-- A span in a text goes no further than the text. -/
theorem InText.stop_le {source : String} {span : Span} (inText : span.InText source.toList) :
    span.stop.offset ≤ source.utf8ByteSize := by
  obtain ⟨before, ⟨rest, split⟩, stop⟩ := inText.stop
  have whole := Token.offset_past_append before rest
  have size : (Pos.past source.toList).offset = source.utf8ByteSize := by
    rw [Pos.past, String.ofList_toList]
  rw [split, size] at whole
  rw [stop]
  omega

theorem Within.merge (one : left.Within outer) (two : right.Within outer) :
    (left.merge right).Within outer := by
  obtain ⟨starts, stops⟩ := one
  obtain ⟨starts', stops'⟩ := two
  simp only [Within, Span.merge]
  constructor
  · split <;> assumption
  · split <;> assumption

end Span

namespace Token.Lossless

variable {text : List Char} {tokens stretch : List Token} {token : Token} {span : Span}
  {node : Node Span}

theorem inText (lossless : Lossless text tokens) (member : token ∈ tokens) :
    token.span.InText text := by
  by_cases isEnd : token.kind = .eof
  · obtain ⟨front, rfl, others⟩ := lossless.ends
    rcases List.mem_append.mp member with inFront | isLast
    · exact absurd isEnd (others token inFront)
    · rw [List.mem_singleton.mp isLast]
      exact ⟨⟨text, List.prefix_refl _, rfl⟩, ⟨text, List.prefix_refl _, rfl⟩, Nat.le_refl _⟩
  · obtain ⟨before, after, split, _, isSpan, ordered⟩ := lossless.lexemes token member isEnd
    refine ⟨⟨before, ⟨token.lexeme.toList ++ after, ?_⟩, ?_⟩,
      ⟨before ++ token.lexeme.toList, ⟨after, split.symm⟩, ?_⟩, Nat.le_of_lt ordered⟩
    · rw [split, List.append_assoc]
    · rw [isSpan]
    · rw [isSpan]

/-- Where the last token was taken, or where none has been taken before. -/
theorem inText_previous (lossless : Lossless text tokens) (part : stretch <:+: tokens)
    {previous : Span} (before : previous.InText text) :
    ((stretch.getLast?.map Token.span).getD previous).InText text := by
  cases isLast : stretch.getLast? with
  | none => exact before
  | some last => exact lossless.inText (part.subset (List.mem_of_getLast? isLast))

/-- A span that covers a stretch of tokens is one of the text, and each of them lies in it. -/
theorem covers (lossless : Lossless text tokens) (part : stretch <:+: tokens)
    (covers : Parser.Covers stretch span) :
    span.InText text ∧ ∀ token ∈ stretch, token.span.Within span := by
  obtain ⟨first, last, isFirst, isLast, rfl⟩ := covers
  have each (token : Token) (member : token ∈ stretch) : token.span.InText text :=
    lossless.inText (part.subset member)
  have inFirst := each first (List.mem_of_head? isFirst)
  have inLast := each last (List.mem_of_getLast? isLast)
  refine ⟨inFirst.merge inLast, fun token member => ?_⟩
  have inToken := (each token member).ordered
  have := inFirst.ordered
  have := inLast.ordered
  have ordered := lossless.ordered.sublist part.sublist
  have starts : first.span.start.offset ≤ token.span.start.offset := by
    obtain ⟨rest, rfl⟩ := List.head?_eq_some_iff.mp isFirst
    rcases List.mem_cons.mp member with rfl | later
    · exact Nat.le_refl _
    · have := (List.pairwise_cons.mp ordered).1 token later
      omega
  have stops : token.span.stop.offset ≤ last.span.stop.offset := by
    obtain ⟨front, rfl⟩ := List.getLast?_eq_some_iff.mp isLast
    rcases List.mem_append.mp member with earlier | same
    · have := (List.pairwise_append.mp ordered).2.2 token earlier last (by simp)
      omega
    · rw [List.mem_singleton.mp same]
  simp only [Span.Within, Span.merge]
  constructor <;> split <;> omega

/-- What stands in a stretch of tokens lies within the span that covers it. -/
theorem within (lossless : Lossless text tokens) (part : stretch <:+: tokens)
    (covers : Parser.Covers stretch span) (stands : Parser.StandsIn stretch node) :
    node.tag.Within span := by
  obtain ⟨_, inside⟩ := lossless.covers part covers
  obtain ⟨part', ⟨first, last, isFirst, isLast, isTag⟩, _⟩ := stands
  rw [isTag]
  exact (inside first (part'.subset (List.mem_of_head? isFirst))).merge
    (inside last (part'.subset (List.mem_of_getLast? isLast)))

end Token.Lossless

namespace Node

variable {anonymous source : String} {tree : Node Span}

theorem run_of_parse (parsed : Node.parse anonymous source = .ok tree) :
    ∃ c, (Parser.program anonymous : Parser Parser.Tree) (Parser.start (Token.tokenize source)) =
      .ok (tree, c) := by
  cases run : (Parser.program anonymous : Parser Parser.Tree)
      (Parser.start (Token.tokenize source)) with
  | error failure =>
    rw [parse_of_error run] at parsed
    cases parsed
  | ok result =>
    obtain ⟨tree', c⟩ := result
    rw [parse_of_ok run] at parsed
    cases parsed
    exact ⟨c, rfl⟩

/-- The root of a parsed text has a span of the text. If it has any children, its span covers a stretch
of tokens, in which they stand, and the end of input is not among these. -/
theorem exists_stretch (parsed : Node.parse anonymous source = .ok tree) :
    ∃ taken, taken <:+: Token.tokenize source ∧ (∀ token ∈ taken, token.kind ≠ .eof) ∧
      Parser.StandIn taken tree.children ∧ (taken ≠ [] → Parser.Covers taken tree.tag) ∧
      tree.tag.InText source.toList := by
  have lossless := Token.tokenize_lossless source
  obtain ⟨front, split, others⟩ := lossless.ends
  have start : (Parser.start (Token.tokenize source)).tokens = Token.tokenize source :=
    Parser.tokens_start (by simp [split])
  have before : (Parser.start (Token.tokenize source)).previous.InText source.toList := by
    unfold Parser.start
    split <;> exact .origin _
  obtain ⟨c', run⟩ := run_of_parse parsed
  obtain ⟨ends, c₁, taken, moved, movedOn, stand, isTag⟩ := Parser.marks_program anonymous run
  have whole : Token.tokenize source = ends ++ (taken ++ c'.tokens) := by
    rw [← start, moved.tokens, movedOn.tokens]
  have part : taken <:+: Token.tokenize source := ⟨ends, c'.tokens, by simp [whole]⟩
  refine ⟨taken, part, ?_, stand, fun some => ?_, ?_⟩
  · intro token member
    refine others token ?_
    have same : front = ends ++ (taken ++ c'.tokens.dropLast) := by
      have := congrArg List.dropLast (split.symm.trans whole)
      simpa [List.dropLast_append_of_ne_nil, Cursor.tokens] using this
    rw [same]
    simp [member]
  · rw [isTag, Cursor.spanPast, ← movedOn.previous]
    exact movedOn.covers some
  · have first : c₁.current ∈ Token.tokenize source := by
      rw [← start, moved.tokens]
      exact List.mem_append_right _ (List.mem_cons_self ..)
    rw [isTag, Cursor.spanPast]
    have front : ends <:+: Token.tokenize source :=
      ⟨[], taken ++ c'.tokens, by simp [whole]⟩
    have reached := lossless.inText_previous front before
    rw [← moved.previous] at reached
    exact (lossless.inText first).merge (lossless.inText_previous part reached)

/-- Spans nest. Every node of a parsed text has a span between two places of the text, counted in the
bytes, lines and columns of what stands before them, and not beyond its end. The span of every node
below the root has a whole token in it, and the span of a child lies within that of its parent. -/
theorem parse_spans_nest (parsed : Node.parse anonymous source = .ok tree) :
    (∀ node ∈ tree.preorder, node.tag.InText source.toList ∧
      node.tag.stop.offset ≤ source.utf8ByteSize) ∧
    (∀ node ∈ preorderAll tree.children, ∃ token ∈ Token.tokenize source, token.kind ≠ .eof ∧
      token.span.start.offset < token.span.stop.offset ∧ token.span.Within node.tag) ∧
    ∀ node ∈ tree.preorder, ∀ child ∈ node.children, child.tag.Within node.tag := by
  have lossless := Token.tokenize_lossless source
  obtain ⟨taken, part, notEnd, stand, coversRoot, inText⟩ := exists_stretch parsed
  have below (node : Node Span) (inside : node ∈ preorderAll tree.children) :
      Parser.StandsIn taken node := by
    obtain ⟨child, member, inChild⟩ := mem_preorderAll.mp inside
    exact (stand child member).inner inChild
  refine ⟨fun node inside => ?_, fun node inside => ?_, fun node inside child member => ?_⟩
  · have placed : node.tag.InText source.toList := by
      rw [preorder_eq] at inside
      rcases List.mem_cons.mp inside with rfl | inside
      · exact inText
      · obtain ⟨part', covers, _⟩ := below node inside
        exact (lossless.covers (part'.trans part) covers).1
    exact ⟨placed, placed.stop_le⟩
  · obtain ⟨part', covers, _⟩ := below node inside
    obtain ⟨token, inStretch⟩ := covers.head_mem
    have isToken := part.subset (part'.subset inStretch)
    have isReal := notEnd token (part'.subset inStretch)
    obtain ⟨_, _, _, _, _, nonempty⟩ := lossless.lexemes token isToken isReal
    exact ⟨token, isToken, isReal, nonempty,
      (lossless.covers (part'.trans part) covers).2 token inStretch⟩
  · rw [preorder_eq] at inside
    rcases List.mem_cons.mp inside with rfl | inside
    · have inTaken := stand child member
      have some : taken ≠ [] := by
        rintro rfl
        exact Parser.not_standsIn_nil inTaken
      exact lossless.within part (coversRoot some) inTaken
    · obtain ⟨part', covers, children⟩ := below node inside
      exact lossless.within (part'.trans part) covers (children child member)

/-- What a source leaves out stands at the token before: the value of the variable at its name, the
other half of the branch at the brace. The zero stands at the minus sign. -/
theorem parse_spans_nest_of_omitted :
    ∃ tree, Node.parse "main" "var y # é\nif -x \x7b 1 \x7d" = .ok tree ∧
      (tree.preorder.map fun node =>
          (node.kindName, node.tag.start.offset, node.tag.stop.offset)) =
        [("Module", 0, 22), ("Var", 0, 5), ("Unit", 4, 5), ("If", 11, 22), ("BinOp", 14, 16),
          ("Int", 14, 15), ("ValueId", 15, 16), ("Block", 17, 22), ("Int", 19, 20),
          ("Unit", 21, 22)] ∧
      ∀ node ∈ tree.preorder, ∀ child ∈ node.children, child.tag.Within node.tag := by
  have reads : (Node.parse "main" "var y # é\nif -x \x7b 1 \x7d").toOption.map (fun tree =>
      tree.preorder.map fun node =>
        (node.kindName, node.tag.start.offset, node.tag.stop.offset)) =
      some [("Module", 0, 22), ("Var", 0, 5), ("Unit", 4, 5), ("If", 11, 22), ("BinOp", 14, 16),
        ("Int", 14, 15), ("ValueId", 15, 16), ("Block", 17, 22), ("Int", 19, 20),
        ("Unit", 21, 22)] := by
    decide +kernel
  obtain ⟨tree, parse, spans⟩ := Option.map_eq_some_iff.mp reads
  have parsed := ok_of_toOption parse
  exact ⟨tree, parsed, spans, (parse_spans_nest parsed).2.2⟩

end Node

end ScriptVM
