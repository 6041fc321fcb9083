import ScriptVM.Proofs.Numbering

/-!
The literals of a tree, and those that tokens give.

Each literal token gives a leaf, each minus sign where an operand is expected gives the zero that it
subtracts from, and no other token gives any. Whether an operand is expected is told by the tokens
alone: one bit, whether an operand has just ended, is carried from token to token.
-/
namespace ScriptVM

namespace Node

variable {α : Type}

/-- Whether the node is a literal. -/
def isLiteral : Node α → Bool
  | leaf _ (.int _) | leaf _ (.real _) | leaf _ (.bool _) => true
  | _ => false

/-- The literals in a tree, in source order. -/
def literals (node : Node α) : List (Node α) :=
  node.preorder.filter isLiteral

/-- The literals in several trees. -/
def literalsAll (nodes : List (Node α)) : List (Node α) :=
  (preorderAll nodes).filter isLiteral

@[simp] theorem literalsAll_nil : literalsAll ([] : List (Node α)) = [] := rfl

@[simp] theorem literalsAll_cons (node : Node α) (rest : List (Node α)) :
    literalsAll (node :: rest) = node.literals ++ literalsAll rest := by
  simp [literalsAll, literals, preorderAll]

@[simp] theorem literalsAll_append (first second : List (Node α)) :
    literalsAll (first ++ second) = literalsAll first ++ literalsAll second := by
  simp [literalsAll, preorderAll_append]

theorem literals_of_inner {node : Node α} (inner : node.isLiteral = false) :
    node.literals = literalsAll node.children := by
  simp [literals, literalsAll, preorder_eq node, inner]

section Constructors

variable (tag : α) (name op : String) (type result : Option String) (mutability : Mutability)
  (kind : Aggregate) (nodes : List (Node α)) (node left right : Node α)

@[simp] theorem literals_unit : (leaf tag .unit).literals = [] := rfl

@[simp] theorem literals_int (text : String) :
    (leaf tag (.int text)).literals = [leaf tag (.int text)] := rfl

@[simp] theorem literals_param : (param tag name type).literals = [] := rfl

@[simp] theorem literals_program : (program tag name nodes).literals = literalsAll nodes :=
  literals_of_inner rfl

@[simp] theorem literals_block : (block tag nodes).literals = literalsAll nodes :=
  literals_of_inner rfl

@[simp] theorem literals_define :
    (define tag name nodes node result).literals = literalsAll nodes ++ node.literals :=
  (literals_of_inner rfl).trans (by simp [children])

@[simp] theorem literals_declare :
    (declare tag mutability name type node).literals = node.literals :=
  (literals_of_inner rfl).trans (by simp [children])

@[simp] theorem literals_assign : (assign tag name node).literals = node.literals :=
  (literals_of_inner rfl).trans (by simp [children])

@[simp] theorem literals_branch :
    (branch tag node left right).literals = node.literals ++ (left.literals ++ right.literals) :=
  (literals_of_inner rfl).trans (by simp [children])

@[simp] theorem literals_orElse : (orElse tag node).literals = node.literals :=
  (literals_of_inner rfl).trans (by simp [children])

@[simp] theorem literals_loop : (loop tag left right).literals = left.literals ++ right.literals :=
  (literals_of_inner rfl).trans (by simp [children])

@[simp] theorem literals_binary :
    (binary tag op left right).literals = left.literals ++ right.literals :=
  (literals_of_inner rfl).trans (by simp [children])

@[simp] theorem literals_call (trailing : Option (Node α)) :
    (call tag node nodes trailing).literals =
      node.literals ++ (literalsAll nodes ++ literalsAll trailing.toList) :=
  (literals_of_inner rfl).trans (by simp [children])

@[simp] theorem literals_aggregate : (aggregate tag kind nodes).literals = literalsAll nodes :=
  literals_of_inner rfl

end Constructors

end Node

namespace Token

/-- Whether an operand has just ended after a token of this kind, if one had or had not before it.
-/
def Kind.operandAfter (operand : Bool) : Kind → Bool
  | .symbol text => !operand && text != "-"
  | kind => kind.endsOperand

/-- Punctuation before an operand, and the reserved words that are no truth values. -/
def Kind.isMark : Kind → Bool
  | .word .yes | .word .no => false
  | .word _ | .assign | .comma | .term | .opening _ => true
  | _ => false

/-- The literal that a token gives. A minus sign where an operand is expected gives the zero that it
subtracts from. -/
def literal? (operand : Bool) (token : Token) : Option (Node Span) :=
  match token.kind with
  | .int text => some (.leaf token.span (.int text))
  | .real text => some (.leaf token.span (.real text))
  | .word .yes => some (.leaf token.span (.bool Keyword.yes.spelling))
  | .word .no => some (.leaf token.span (.bool Keyword.no.spelling))
  | .symbol text =>
    if operand = false ∧ text = "-" then some (.leaf token.span (.int "0")) else none
  | _ => none

/-- The literals that tokens give. -/
def literals (operand : Bool) : List Token → List (Node Span)
  | [] => []
  | token :: rest =>
    (token.literal? operand).toList ++ literals (token.kind.operandAfter operand) rest

end Token

namespace Parser

open Token (Kind)

/-- Tokens give these literals, and an operand has then just ended or has not. -/
structure Spells (operand : Bool) (taken : List Token) (leaves : List Tree) (operand' : Bool) :
    Prop where
  leaves_eq : Token.literals operand taken = leaves
  operand_eq : taken.foldl (fun operand token => token.kind.operandAfter operand) operand = operand'

namespace Spells

variable {operand middle operand' : Bool} {taken more : List Token} {leaves leaves' : List Tree}
variable {token : Token} {kind : Kind}

theorem nil : Spells operand [] [] operand := ⟨rfl, rfl⟩

theorem append (first : Spells operand taken leaves middle)
    (second : Spells middle more leaves' operand') :
    Spells operand (taken ++ more) (leaves ++ leaves') operand' := by
  obtain ⟨rfl, rfl⟩ := first
  obtain ⟨rfl, rfl⟩ := second
  refine ⟨?_, List.foldl_append⟩
  induction taken generalizing operand with
  | nil => rfl
  | cons token rest ih =>
    rw [List.cons_append, Token.literals, ih, Token.literals, List.append_assoc]
    rfl

theorem one (isKind : token.kind = kind) :
    Spells operand [token] (Token.literal? operand ⟨kind, token.span, token.lexeme⟩).toList
      (kind.operandAfter operand) := by
  obtain ⟨found, span, lexeme⟩ := token
  cases isKind
  exact ⟨List.append_nil _, rfl⟩

theorem of_eq (spells : Spells operand taken leaves operand') (same : leaves = leaves') :
    Spells operand taken leaves' operand' :=
  same ▸ spells

/-- Tokens that end with an operand are some. -/
theorem ne_nil (spells : Spells false taken leaves true) : taken ≠ [] := by
  rintro rfl
  cases spells.operand_eq

theorem of_terms (areTerms : ∀ token ∈ taken, token.kind = .term) :
    Spells operand taken [] (operand && taken.isEmpty) := by
  induction taken generalizing operand with
  | nil =>
    rw [List.isEmpty_nil, Bool.and_true]
    exact .nil
  | cons token rest ih =>
    rw [List.forall_mem_cons] at areTerms
    have first : Spells operand [token] [] false := .one areTerms.1
    have both := first.append (ih areTerms.2)
    simpa using both

theorem of_typeIds (areTypes : ∀ token ∈ taken, ∃ name, token.kind = .typeId name) :
    ∃ operand', Spells operand taken [] operand' := by
  induction taken generalizing operand with
  | nil => exact ⟨operand, .nil⟩
  | cons token rest ih =>
    rw [List.forall_mem_cons] at areTypes
    obtain ⟨⟨name, isType⟩, areTypes⟩ := areTypes
    obtain ⟨operand', spells⟩ := ih areTypes
    have first : Spells operand [token] [] true := .one isType
    exact ⟨operand', first.append spells⟩

theorem mark (isMark : token.kind.isMark = true) : Spells operand [token] [] false := by
  obtain ⟨kind, span, lexeme⟩ := token
  cases kind with
  | word keyword => cases keyword <;> first | exact .one rfl | cases isMark
  | assign | comma | term | opening => exact .one rfl
  | _ => cases isMark

theorem closing {bracket : Bracket} (isClosing : token.kind = .closing bracket) :
    Spells operand [token] [] true := .one isClosing

theorem operator {op : String} (isOperator : token.kind = .symbol op) :
    Spells true [token] [] false := by
  simpa [Token.literal?, Kind.operandAfter] using (one isOperator : Spells true [token] _ _)

end Spells

end Parser

end ScriptVM
