import ScriptVM.Proofs.Trees
import ScriptVM.Proofs.Walks

/-!
What numbers do in a parse: every node is dealt one of its own, and nothing else depends on them.

A text is read with numbers dealt to its nodes, and it can be read with plain spans for tags. Both
refuse alike and move the cursor alike, production by production. The tree of the one is that of the
other with numbers added, none of which occurs twice.
-/
namespace ScriptVM

namespace Parser

open Walks (Agree)

/-- The trees of a parse with spans for tags. -/
abbrev Tree : Type := Node Span

/-- Reads a token list as a program, with spans for tags. -/
def plain (anonymous : String) (tokens : List Token) : Except Failure Tree :=
  (program anonymous : Parser Tree).run' (start tokens)

/-- Nodes whose identities were dealt between two states of the counter, each to one of them. -/
structure Fresh (first : Nat) (nodes : List (Node Tag)) (next : Nat) : Prop where
  le : first ≤ next
  counted : ∀ id, idCount id nodes ≤ taken first next id

namespace Fresh

variable {first middle next : Nat} {nodes others : List (Node Tag)}

theorem nil (next : Nat) : Fresh next [] next :=
  ⟨Nat.le_refl _, fun _ => Nat.zero_le _⟩

theorem append (one : Fresh first nodes middle) (two : Fresh middle others next) :
    Fresh first (nodes ++ others) next := by
  refine ⟨Nat.le_trans one.le two.le, fun id => ?_⟩
  have := one.counted id
  have := two.counted id
  rw [idCount_append, taken_add one.le two.le]
  omega

theorem cons {node : Node Tag} (one : Fresh first [node] middle) (two : Fresh middle others next) :
    Fresh first (node :: others) next :=
  one.append two

/-- A node is dealt its number after those below it. -/
theorem parent {node : Node Tag} (children : Fresh first node.children next) (isNext : node.id = next) :
    Fresh first [node] (next + 1) := by
  refine ⟨Nat.le_succ_of_le children.le, fun id => ?_⟩
  have := children.counted id
  rw [idCount_node, taken_add children.le (Nat.le_succ _), taken_one]
  simp only [idCountHere, isNext, List.count_singleton, beq_iff_eq]
  omega

end Fresh

section Deals

variable {α β α' β' : Type}

/-- Two productions, one of which deals numbers from `next` on: both refuse alike, or both move the
cursor alike and have results that go together, given the first number that is left. -/
def Deals (next : Nat) (p : Dealing α) (q : Parser β) (post : α → β → Nat → Prop) : Prop :=
  ∀ c, Agree (fun one two => one.2 = two.2 ∧ post one.1.1 two.1 one.1.2) (p next c) (q c)

/-- What is read without numbers is read with them. -/
theorem Deals.exists_of_ok {p : Dealing α} {q : Parser β} {next : Nat} {post : α → β → Nat → Prop}
    (deals : Deals next p q post) {c c' : Cursor} {b : β} (read : q c = .ok (b, c')) :
    ∃ a next', p next c = .ok ((a, next'), c') ∧ post a b next' := by
  have both := deals c
  rw [read] at both
  generalize p next c = numbered at both
  cases both with
  | @ok dealt _ values =>
    obtain ⟨⟨a, next'⟩, c''⟩ := dealt
    obtain ⟨rfl, holds⟩ := values
    exact ⟨a, next', rfl, holds⟩

/-- A production that deals nothing has the same result either way. -/
def Alike (p : Dealing α) (q : Parser α) : Prop :=
  ∀ next, Deals next p q fun a b next' => a = b ∧ next' = next

variable {next : Nat} {post : α → β → Nat → Prop} {post' : α' → β' → Nat → Prop}

theorem Deals.bind {p : Dealing α} {q : Parser β} {f : α → Dealing α'} {g : β → Parser β'}
    (first : Deals next p q post)
    (rest : ∀ a b next', post a b next' → Deals next' (f a) (g b) post') :
    Deals next (p >>= f) (q >>= g) post' := by
  intro c
  refine (first c).bind ?_
  rintro ⟨⟨a, next'⟩, c'⟩ ⟨b, _⟩ ⟨rfl, holds⟩
  exact rest a b next' holds c'

theorem Deals.pure {a : α} {b : β} (holds : post a b next) :
    Deals next (Pure.pure a) (Pure.pure b) post :=
  fun _ => .ok ⟨rfl, holds⟩

theorem Deals.ite {condition : Prop} [Decidable condition] {p p' : Dealing α} {q q' : Parser β}
    (yes : Deals next p q post) (no : Deals next p' q' post) :
    Deals next (if condition then p else p') (if condition then q else q') post := by
  split
  · exact yes
  · exact no

theorem Alike.bind {p : Dealing α} {q : Parser α} {f : α → Dealing α'} {g : α → Parser β'}
    (first : Alike p q) (rest : ∀ a, Deals next (f a) (g a) post') :
    Deals next (p >>= f) (q >>= g) post' := by
  refine (first next).bind ?_
  rintro a _ _ ⟨rfl, rfl⟩
  exact rest a

theorem alike_get : Alike (getThe Cursor) (getThe Cursor) :=
  fun _ _ => .ok ⟨rfl, rfl, rfl⟩

theorem alike_sees (kind : Token.Kind) : Alike (sees kind) (sees kind) :=
  fun _ _ => .ok ⟨rfl, rfl, rfl⟩

theorem alike_peek : Alike peek peek :=
  fun _ _ => .ok ⟨rfl, rfl, rfl⟩

theorem alike_skipTerms : Alike skipTerms skipTerms :=
  fun _ _ => .ok ⟨rfl, rfl, rfl⟩

theorem deals_fail (what : String) : Deals next (fail what) (fail what) post :=
  fun _ => .error _

theorem deals_exhaust : Deals next exhaust exhaust post :=
  fun _ => .error _

theorem alike_advance : Alike advance advance := by
  intro next
  refine alike_get.bind fun c => ?_
  cases c.rest with
  | nil => exact fun _ => .error _
  | cons => exact fun _ => .ok ⟨rfl, rfl, rfl⟩

theorem alike_expect (kind : Token.Kind) : Alike (expect kind) (expect kind) :=
  fun _ => (alike_sees kind).bind fun _ => .ite (alike_advance _) (deals_fail _)

theorem alike_valueName : Alike valueName valueName := by
  intro next
  refine alike_peek.bind fun kind => ?_
  cases kind with
  | valueId name => exact alike_advance.bind fun _ => .pure ⟨rfl, rfl⟩
  | _ => exact deals_fail _

theorem alike_typeName? : Alike typeName? typeName? := by
  intro next
  refine alike_peek.bind fun kind => ?_
  cases kind with
  | typeId name => exact alike_advance.bind fun _ => .pure ⟨rfl, rfl⟩
  | _ => exact .pure ⟨rfl, rfl⟩

/-- A tag with the next number goes with a plain span. -/
theorem deals_tag {span : Span} {f : Tag → Dealing α'} {g : Span → Parser β'}
    (rest : Deals (next + 1) (f ⟨next, span⟩) (g span) post') :
    Deals next (Tagging.tag span >>= f) (Tagging.tag span >>= g) post' :=
  rest

theorem deals_tagFrom {start : Span} {f : Tag → Dealing α'} {g : Span → Parser β'}
    (rest : ∀ span, Deals (next + 1) (f ⟨next, span⟩) (g span) post') :
    Deals next (tagFrom start >>= f) (tagFrom start >>= g) post' :=
  fun c => rest (start.merge c.previous) c

end Deals

/-- A tree with numbers dealt from `first` on, and the same tree without them. -/
def Numbers (first : Nat) (tree : Node Tag) (plain : Tree) (next : Nat) : Prop :=
  plain = tree.map Tag.span ∧ Fresh first [tree] next

/-- Trees with numbers dealt from `first` on, and the same trees without them. -/
def NumbersAll (first : Nat) (trees : List (Node Tag)) (plain : List Tree) (next : Nat) : Prop :=
  plain = Node.mapAll Tag.span trees ∧ Fresh first trees next

/-- What holds of all productions with this bound. -/
structure Numberings (fuel : Nat) : Prop where
  statements terminator next :
    Deals next (statements fuel terminator) (statements fuel terminator) (NumbersAll next)
  statement next : Deals next (statement fuel) (statement fuel) (Numbers next)
  block next : Deals next (block fuel) (block fuel) (Numbers next)
  declaration mutability next :
    Deals next (declaration fuel mutability) (declaration fuel mutability) (Numbers next)
  function next : Deals next (function fuel) (function fuel) (Numbers next)
  conditional next : Deals next (conditional fuel) (conditional fuel) (Numbers next)
  alternative next : Deals next (alternative fuel) (alternative fuel) (Numbers next)
  whileLoop next : Deals next (whileLoop fuel) (whileLoop fuel) (Numbers next)
  binary least guarded next :
    Deals next (binary fuel least guarded) (binary fuel least guarded) (Numbers next)
  binaryRest least guarded start {first next : Nat} {left : Node Tag} {plain : Tree} :
    Numbers first left plain next →
      Deals next (binaryRest fuel least guarded start left)
        (binaryRest fuel least guarded start plain) (Numbers first)
  unary guarded next : Deals next (unary fuel guarded) (unary fuel guarded) (Numbers next)
  primary guarded next : Deals next (primary fuel guarded) (primary fuel guarded) (Numbers next)
  call guarded start {first next : Nat} {callee : Node Tag} {plain : Tree} :
    Numbers first callee plain next →
      Deals next (call fuel guarded start callee) (call fuel guarded start plain) (Numbers first)
  parenthesized next : Deals next (parenthesized fuel) (parenthesized fuel) (Numbers next)
  tupleRest next : Deals next (tupleRest fuel) (tupleRest fuel) (NumbersAll next)
  sequence close next : Deals next (sequence fuel close) (sequence fuel close) (NumbersAll next)

theorem numberings_zero : Numberings 0 := by
  constructor <;> intros <;> exact deals_exhaust

section Step

variable {fuel : Nat}

theorem deals_missing (next : Nat) : Deals next missing missing (Numbers next) :=
  alike_get.bind fun _ => deals_tag (.pure ⟨rfl, .parent (.nil next) rfl⟩)

theorem deals_tokenLeaf (kind : Leaf) (next : Nat) :
    Deals next (tokenLeaf kind) (tokenLeaf kind) (Numbers next) :=
  alike_advance.bind fun _ => deals_tagFrom fun _ => .pure ⟨rfl, .parent (.nil next) rfl⟩

theorem deals_parameters (fuel next : Nat) :
    Deals next (parameters fuel) (parameters fuel) (NumbersAll next) := by
  induction fuel generalizing next with
  | zero => exact deals_exhaust
  | succ fuel ih =>
    simp only [parameters]
    refine (alike_sees _).bind fun _ => .ite (.pure ⟨rfl, .nil _⟩) ?_
    refine alike_get.bind fun _ => alike_valueName.bind fun name => ?_
    refine alike_typeName?.bind fun type => deals_tagFrom fun span => ?_
    have fresh : Fresh next [.param ⟨next, span⟩ name type] (next + 1) := .parent (.nil next) rfl
    have others : Deals (next + 1)
        (do return Node.param ⟨next, span⟩ name type :: (← parameters fuel))
        (do return Node.param span name type :: (← parameters fuel)) (NumbersAll next) := by
      refine (ih (next + 1)).bind ?_
      rintro rest _ _ ⟨rfl, freshRest⟩
      exact .pure ⟨rfl, fresh.cons freshRest⟩
    exact (alike_sees _).bind fun _ => .ite others ((alike_expect _).bind fun _ => others)

variable (within : Numberings fuel)

include within

theorem deals_statements (terminator : Token.Kind) (next : Nat) :
    Deals next (statements (fuel + 1) terminator) (statements (fuel + 1) terminator)
      (NumbersAll next) := by
  simp only [statements]
  refine alike_skipTerms.bind fun _ => (alike_sees _).bind fun _ => .ite (.pure ⟨rfl, .nil _⟩) ?_
  refine (alike_sees _).bind fun _ => .ite (deals_fail _) ((within.statement next).bind ?_)
  rintro first _ _ ⟨rfl, fresh⟩
  refine (alike_sees _).bind fun _ => (alike_sees _).bind fun _ => .ite ?_ (deals_fail _)
  refine (within.statements terminator _).bind ?_
  rintro rest _ _ ⟨rfl, freshRest⟩
  exact .pure ⟨rfl, fresh.cons freshRest⟩

theorem deals_block (next : Nat) :
    Deals next (block (fuel + 1)) (block (fuel + 1)) (Numbers next) := by
  simp only [block]
  refine (alike_expect _).bind fun _ => (within.statements _ next).bind ?_
  rintro body _ _ ⟨rfl, fresh⟩
  exact (alike_expect _).bind fun _ => deals_tagFrom fun _ => .pure ⟨rfl, fresh.parent rfl⟩

theorem deals_declaration (mutability : Mutability) (next : Nat) :
    Deals next (declaration (fuel + 1) mutability) (declaration (fuel + 1) mutability)
      (Numbers next) := by
  simp only [declaration]
  refine alike_advance.bind fun start => alike_valueName.bind fun name => ?_
  refine alike_typeName?.bind fun type => alike_peek.bind fun kind => ?_
  have value : ∀ {p : Dealing (Node Tag)} {q : Parser Tree}, Deals next p q (Numbers next) →
      Deals next
        (do
          let value ← p
          return Node.declare (← tagFrom start) mutability name type value)
        (do
          let value ← q
          return Node.declare (← tagFrom start) mutability name type value) (Numbers next) := by
    intro p q deals
    refine deals.bind ?_
    rintro value _ _ ⟨rfl, fresh⟩
    exact deals_tagFrom fun _ => .pure ⟨rfl, fresh.parent rfl⟩
  cases kind with
  | assign => exact alike_advance.bind fun _ => value (within.binary 1 false next)
  | opening bracket =>
    cases bracket with
    | curly => exact value (within.block next)
    | round | square => exact value (deals_missing next)
  | _ => exact value (deals_missing next)

theorem deals_statement (next : Nat) :
    Deals next (statement (fuel + 1)) (statement (fuel + 1)) (Numbers next) := by
  simp only [statement]
  refine alike_peek.bind fun kind => ?_
  cases kind with
  | word keyword =>
    cases keyword with
    | val => exact within.declaration .val next
    | var => exact within.declaration .var next
    | define => exact within.function next
    | otherwise =>
      refine alike_advance.bind fun _ => (within.alternative next).bind ?_
      rintro body _ _ ⟨rfl, fresh⟩
      exact deals_tagFrom fun _ => .pure ⟨rfl, fresh.parent rfl⟩
    | _ => exact within.binary 1 false next
  | valueId name =>
    refine alike_get.bind fun _ => .ite ?_ (within.binary 1 false next)
    refine alike_advance.bind fun _ => alike_advance.bind fun _ => (within.binary 1 false next).bind ?_
    rintro value _ _ ⟨rfl, fresh⟩
    exact deals_tagFrom fun _ => .pure ⟨rfl, fresh.parent rfl⟩
  | _ => exact within.binary 1 false next

theorem deals_function (next : Nat) :
    Deals next (function (fuel + 1)) (function (fuel + 1)) (Numbers next) := by
  simp only [function]
  refine alike_advance.bind fun _ => alike_valueName.bind fun name => ?_
  refine (alike_expect _).bind fun _ => (deals_parameters fuel next).bind ?_
  rintro params _ _ ⟨rfl, freshParams⟩
  refine (alike_expect _).bind fun _ => alike_typeName?.bind fun type => (within.block _).bind ?_
  rintro body _ _ ⟨rfl, fresh⟩
  exact deals_tagFrom fun _ => .pure ⟨rfl, (freshParams.append fresh).parent rfl⟩

theorem deals_conditional (next : Nat) :
    Deals next (conditional (fuel + 1)) (conditional (fuel + 1)) (Numbers next) := by
  simp only [conditional]
  refine alike_advance.bind fun start => (within.binary 1 true next).bind ?_
  rintro pred _ _ ⟨rfl, freshPred⟩
  refine (within.block _).bind ?_
  rintro yes _ _ ⟨rfl, freshYes⟩
  refine (alike_sees _).bind fun _ => .ite (alike_advance.bind fun _ => ?_) ?_
  · refine (within.alternative _).bind ?_
    rintro no _ _ ⟨rfl, freshNo⟩
    exact deals_tagFrom fun _ => .pure ⟨rfl, (freshPred.cons (freshYes.cons freshNo)).parent rfl⟩
  · refine (deals_missing _).bind ?_
    rintro no _ _ ⟨rfl, freshNo⟩
    exact deals_tagFrom fun _ => .pure ⟨rfl, (freshPred.cons (freshYes.cons freshNo)).parent rfl⟩

theorem deals_alternative (next : Nat) :
    Deals next (alternative (fuel + 1)) (alternative (fuel + 1)) (Numbers next) := by
  simp only [alternative]
  exact (alike_sees _).bind fun _ => .ite (within.conditional next) (within.block next)

theorem deals_whileLoop (next : Nat) :
    Deals next (whileLoop (fuel + 1)) (whileLoop (fuel + 1)) (Numbers next) := by
  simp only [whileLoop]
  refine alike_advance.bind fun _ => (within.binary 1 true next).bind ?_
  rintro pred _ _ ⟨rfl, freshPred⟩
  refine (within.block _).bind ?_
  rintro body _ _ ⟨rfl, fresh⟩
  exact deals_tagFrom fun _ => .pure ⟨rfl, (freshPred.cons fresh).parent rfl⟩

theorem deals_binary (least : Nat) (guarded : Bool) (next : Nat) :
    Deals next (binary (fuel + 1) least guarded) (binary (fuel + 1) least guarded)
      (Numbers next) := by
  simp only [binary]
  refine alike_get.bind fun _ => (within.unary guarded next).bind ?_
  exact fun left _ _ numbers => within.binaryRest least guarded _ numbers

theorem deals_binaryRest (least : Nat) (guarded : Bool) (start : Span) {first next : Nat}
    {left : Node Tag} {plain : Tree} (numbers : Numbers first left plain next) :
    Deals next (binaryRest (fuel + 1) least guarded start left)
      (binaryRest (fuel + 1) least guarded start plain) (Numbers first) := by
  simp only [binaryRest]
  refine alike_peek.bind fun kind => ?_
  cases kind with
  | symbol op =>
    refine .ite (.pure numbers) (alike_advance.bind fun _ => (within.binary _ guarded next).bind ?_)
    rintro right _ _ ⟨rfl, freshRight⟩
    obtain ⟨rfl, fresh⟩ := numbers
    exact deals_tagFrom fun _ => within.binaryRest least guarded start
      ⟨rfl, (fresh.cons freshRight).parent rfl⟩
  | _ => exact .pure numbers

theorem deals_unary (guarded : Bool) (next : Nat) :
    Deals next (unary (fuel + 1) guarded) (unary (fuel + 1) guarded) (Numbers next) := by
  simp only [unary]
  refine (alike_sees _).bind fun _ => .ite (alike_advance.bind fun start => ?_)
    (within.primary guarded next)
  refine deals_tag ((within.unary guarded _).bind ?_)
  rintro operand _ _ ⟨rfl, fresh⟩
  have zero : Fresh next [.leaf ⟨next, start⟩ (.int "0")] (next + 1) := .parent (.nil next) rfl
  exact deals_tagFrom fun _ => .pure ⟨rfl, (zero.cons fresh).parent rfl⟩

theorem deals_primary (guarded : Bool) (next : Nat) :
    Deals next (primary (fuel + 1) guarded) (primary (fuel + 1) guarded) (Numbers next) := by
  simp only [primary]
  refine alike_peek.bind fun kind => ?_
  cases kind with
  | int text => exact deals_tokenLeaf (.int text) next
  | real text => exact deals_tokenLeaf (.real text) next
  | typeId name => exact deals_tokenLeaf (.typeId name) next
  | symbol text => exact deals_tokenLeaf (.symbolId text) next
  | valueId name =>
    refine alike_get.bind fun _ => (deals_tokenLeaf (.valueId name) next).bind ?_
    intro callee _ _ numbers
    exact (alike_sees _).bind fun _ => .ite (within.call guarded _ numbers) (.pure numbers)
  | opening bracket =>
    cases bracket with
    | round => exact within.parenthesized next
    | curly => exact within.block next
    | square =>
      refine alike_advance.bind fun _ => (within.sequence _ next).bind ?_
      rintro elements _ _ ⟨rfl, fresh⟩
      exact (alike_expect _).bind fun _ => deals_tagFrom fun _ => .pure ⟨rfl, fresh.parent rfl⟩
  | word keyword =>
    cases keyword with
    | yes => exact deals_tokenLeaf (.bool _) next
    | no => exact deals_tokenLeaf (.bool _) next
    | cond => exact within.conditional next
    | loop => exact within.whileLoop next
    | _ => exact deals_fail _
  | _ => exact deals_fail _

theorem deals_call (guarded : Bool) (start : Span) {first next : Nat} {callee : Node Tag}
    {plain : Tree} (numbers : Numbers first callee plain next) :
    Deals next (call (fuel + 1) guarded start callee) (call (fuel + 1) guarded start plain)
      (Numbers first) := by
  obtain ⟨rfl, freshCallee⟩ := numbers
  simp only [call]
  refine (alike_expect _).bind fun _ => (within.sequence _ next).bind ?_
  rintro args _ _ ⟨rfl, freshArgs⟩
  have inCall := freshCallee.cons freshArgs
  refine (alike_expect _).bind fun _ => (alike_sees _).bind fun _ => .ite ?_ ?_
  · refine (within.block _).bind ?_
    rintro trailing _ _ ⟨rfl, fresh⟩
    exact deals_tagFrom fun _ => .pure ⟨rfl, (inCall.append fresh).parent rfl⟩
  · refine deals_tagFrom fun _ => .pure ⟨rfl, (inCall.append (.nil _)).parent rfl⟩

theorem deals_parenthesized (next : Nat) :
    Deals next (parenthesized (fuel + 1)) (parenthesized (fuel + 1)) (Numbers next) := by
  simp only [parenthesized]
  refine alike_advance.bind fun _ => (alike_sees _).bind fun _ => .ite ?_ ?_
  · exact alike_advance.bind fun _ => deals_tagFrom fun _ =>
      .pure ⟨rfl, .parent (.nil next) rfl⟩
  refine (within.binary 1 false next).bind ?_
  rintro first _ _ ⟨rfl, fresh⟩
  refine (alike_sees _).bind fun _ => .ite ((within.tupleRest _).bind ?_) ?_
  · rintro others _ _ ⟨rfl, freshOthers⟩
    exact (alike_expect _).bind fun _ => deals_tagFrom fun _ =>
      .pure ⟨rfl, (fresh.cons freshOthers).parent rfl⟩
  · exact (alike_expect _).bind fun _ => .pure ⟨rfl, fresh⟩

theorem deals_tupleRest (next : Nat) :
    Deals next (tupleRest (fuel + 1)) (tupleRest (fuel + 1)) (NumbersAll next) := by
  simp only [tupleRest]
  refine (alike_sees _).bind fun _ => .ite (alike_advance.bind fun _ => ?_) (.pure ⟨rfl, .nil _⟩)
  refine (alike_sees _).bind fun _ => .ite (.pure ⟨rfl, .nil _⟩) ((within.binary 1 false next).bind ?_)
  rintro first _ _ ⟨rfl, fresh⟩
  refine (within.tupleRest _).bind ?_
  rintro rest _ _ ⟨rfl, freshRest⟩
  exact .pure ⟨rfl, fresh.cons freshRest⟩

theorem deals_sequence (close : Token.Kind) (next : Nat) :
    Deals next (sequence (fuel + 1) close) (sequence (fuel + 1) close) (NumbersAll next) := by
  simp only [sequence]
  refine (alike_sees _).bind fun _ => .ite (.pure ⟨rfl, .nil _⟩) ((within.binary 1 false next).bind ?_)
  rintro first _ middle ⟨rfl, fresh⟩
  have others : Deals middle (do return first :: (← sequence fuel close))
      (do return first.map Tag.span :: (← sequence fuel close)) (NumbersAll next) := by
    refine (within.sequence close middle).bind ?_
    rintro rest _ _ ⟨rfl, freshRest⟩
    exact .pure ⟨rfl, fresh.cons freshRest⟩
  exact (alike_sees _).bind fun _ => .ite others ((alike_expect _).bind fun _ => others)

end Step

theorem numberings (fuel : Nat) : Numberings fuel := by
  induction fuel with
  | zero => exact numberings_zero
  | succ fuel within =>
    exact ⟨deals_statements within, deals_statement within, deals_block within,
      deals_declaration within, deals_function within, deals_conditional within,
      deals_alternative within, deals_whileLoop within, deals_binary within,
      deals_binaryRest within, deals_unary within, deals_primary within, deals_call within,
      deals_parenthesized within, deals_tupleRest within, deals_sequence within⟩

theorem alike_moduleName (anonymous : String) :
    Alike (moduleName anonymous) (moduleName anonymous) := by
  intro next
  refine alike_peek.bind fun kind => ?_
  cases kind with
  | valueId name | typeId name => exact alike_advance.bind fun _ => .pure ⟨rfl, rfl⟩
  | _ => exact .pure ⟨rfl, rfl⟩

theorem deals_program (anonymous : String) (next : Nat) :
    Deals next (program anonymous) (program anonymous) (Numbers next) := by
  simp only [program]
  refine alike_skipTerms.bind fun _ => alike_get.bind fun _ => alike_get.bind fun c => ?_
  refine (alike_sees _).bind fun _ => .ite ?_ ?_
  · refine alike_advance.bind fun _ => (alike_moduleName anonymous).bind fun name => ?_
    refine (alike_sees _).bind fun _ => (alike_sees _).bind fun _ => .ite ?_ (deals_fail _)
    refine ((numberings _).statements _ next).bind ?_
    rintro body _ _ ⟨rfl, fresh⟩
    refine (alike_expect _).bind fun _ => alike_skipTerms.bind fun _ => ?_
    refine (alike_sees _).bind fun _ => .ite ?_ (deals_fail _)
    exact deals_tagFrom fun _ => .pure ⟨rfl, fresh.parent rfl⟩
  · refine ((numberings _).statements _ next).bind ?_
    rintro body _ _ ⟨rfl, fresh⟩
    exact deals_tagFrom fun _ => .pure ⟨rfl, fresh.parent rfl⟩

/-- A text is read with numbers just as it is read without them, and its nodes have distinct ones. -/
theorem agree_ofTokens (anonymous : String) (tokens : List Token) :
    Agree (fun result plain => Numbers 1 result.1 plain result.2) (ofTokens anonymous tokens)
      (plain anonymous tokens) :=
  (deals_program anonymous 1 (start tokens)).map fun _ _ values => values.2

end Parser

/-- The tree of a text without numbers can be read without dealing any. -/
theorem Node.parse_eq (anonymous source : String) :
    Node.parse anonymous source =
      match Parser.plain anonymous (Token.tokenize source) with
      | .ok tree => .ok tree
      | .error failure =>
        .error ⟨failure.cause, failure.token,
          ParseError.snippetAt source failure.token.span.start.offset⟩ := by
  have both := Parser.agree_ofTokens anonymous (Token.tokenize source)
  unfold Node.parse Node.parseNumbered
  generalize Parser.ofTokens anonymous (Token.tokenize source) = numbered,
    Parser.plain anonymous (Token.tokenize source) = plain at both ⊢
  cases both with
  | error failure => rfl
  | ok values => exact congrArg Except.ok values.1.symm

/-- A parsed document has the tree of its text, with numbers below the next one that occur once. -/
theorem Document.parse_ok {anonymous source : String} {document : Document}
    (parsed : Document.parse anonymous source = .ok document) :
    Node.parse anonymous source = .ok (document.root.map Tag.span) ∧
      Parser.Fresh 1 [document.root] document.next ∧
      document.scopes = {} ∧ document.annotations = {} := by
  have both := Parser.agree_ofTokens anonymous (Token.tokenize source)
  unfold Document.parse Node.parseNumbered at parsed
  unfold Node.parse Node.parseNumbered
  generalize Parser.ofTokens anonymous (Token.tokenize source) = numbered,
    Parser.plain anonymous (Token.tokenize source) = plain at both parsed ⊢
  cases both with
  | error failure => cases parsed
  | ok values =>
    cases parsed
    exact ⟨rfl, values.2, rfl, rfl⟩

end ScriptVM
