import ScriptVM.Document
import ScriptVM.Value

/-!
The constant pool and the values of literals.

The pool always begins with zero and one, which is what the truth values are. Every number literal
of a tree gets a place of its own, in preorder, and a note of it.
-/
namespace ScriptVM

/-- The kinds of number literal. -/
inductive Literal where
  | integer
  | real
deriving DecidableEq, Repr

/-- The name of a kind of literal in diagnostics. -/
def Literal.name : Literal → String
  | integer => "integer"
  | real => "real"

/-- Why the pool of a tree cannot be built. -/
inductive ConstantError where
  | invalid (literal : Literal) (text : String) (span : Span)
  | note (error : NoteError)
deriving DecidableEq, Repr

/-- The diagnostic for a pool that cannot be built. -/
def ConstantError.message : ConstantError → String
  | invalid literal text span =>
    span.render ++ ": invalid " ++ literal.name ++ " literal `" ++ text ++ "`"
  | note error => error.message

namespace Literal

/-- The text without separators. -/
def clean (text : String) : List Char :=
  text.toList.filter (· ≠ '_')

/-- The base of an integer's digits, and the digits after the mark of the base. -/
def base : List Char → Nat × List Char
  | '0' :: 'x' :: digits | '0' :: 'X' :: digits => (16, digits)
  | digits => (10, digits)

/-- The whole number that a text denotes: an optional minus sign, an optional mark of base sixteen,
then digits, which may have a sign of their own. -/
def wholeNumber? (text : String) : Option Int :=
  match clean text with
  | '-' :: digits => (Decimal.ofSigned? (base digits).1 (base digits).2).map fun n => -n
  | digits => Decimal.ofSigned? (base digits).1 (base digits).2

/-- The value of an integer literal, if it fits. -/
def int? (text : String) : Option Value :=
  ((wholeNumber? text).bind Value.fit?).map Value.int

/-- The value of a real literal. -/
def real? (text : String) : Option Value :=
  (Decimal.parse? (String.ofList (clean text))).map Value.real

/-- The value of a literal. -/
def value (text : String) (span : Span) : Literal → Except ConstantError Value
  | integer =>
    match int? text with
    | some value => .ok value
    | none => .error (.invalid integer text span)
  | real =>
    match real? text with
    | some value => .ok value
    | none => .error (.invalid real text span)

end Literal

/-- Values that instructions refer to by their place. -/
structure Pool where
  values : Array Value := #[.int 0, .int 1]
deriving DecidableEq, Repr, Inhabited

namespace Pool

/-- The place of the truth value that does not hold. -/
def falseIndex : Nat := 0

/-- The place of the truth value that holds. -/
def trueIndex : Nat := 1

/-- Appends a value. Its place is the former size. -/
def push (pool : Pool) (value : Value) : Pool :=
  ⟨pool.values.push value⟩

/-- The number of values. -/
def size (pool : Pool) : Nat :=
  pool.values.size

/-- The value at a place. -/
def get? (pool : Pool) (index : Nat) : Option Value :=
  pool.values[index]?

end Pool

namespace Constants

/-- What the walk has found so far. -/
structure State where
  pool : Pool
  annotations : Annotations

/-- Gives a literal its place in the pool. -/
def place (state : State) (node : Node Tag) : Except ConstantError (Option Nat × Pool) :=
  match node with
  | .leaf tag (.int text) => do
    let value ← Literal.integer.value text tag.span
    return (some state.pool.size, state.pool.push value)
  | .leaf tag (.real text) => do
    let value ← Literal.real.value text tag.span
    return (some state.pool.size, state.pool.push value)
  | .leaf _ (.bool text) =>
    .ok (some (if text = "true" then Pool.trueIndex else Pool.falseIndex), state.pool)
  | _ => .ok (none, state.pool)

/-- Places one node, and notes where. -/
def step (state : State) (node : Node Tag) : Except ConstantError State := do
  match ← place state node with
  | (none, pool) => return { state with pool }
  | (some index, pool) =>
    match state.annotations.set node.id (.constant index) with
    | .ok annotations => return ⟨pool, annotations⟩
    | .error e => throw (.note e)

end Constants

/-- Collects the literals of a document. -/
def Document.collectConstants (document : Document) : Except ConstantError (Document × Pool) := do
  let state ← document.root.preorder.foldlM Constants.step ⟨{}, document.annotations⟩
  return ({ document with annotations := state.annotations }, state.pool)

end ScriptVM
