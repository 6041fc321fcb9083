import ScriptVM.Source.Span

/-!
Lexical scopes.

Scopes are numbered in the order they are opened. A scope knows the one around it, which was opened
before it, and the declarations made in it so far.
-/
namespace ScriptVM

/-- How a scope is written. -/
def renderScope (scope : Nat) : String :=
  "ns" ++ toString scope

/-- Why a name cannot be declared or used. -/
inductive NameError where
  | duplicate (name : String) (span : Span)
  | unresolved (name : String) (span : Span)
deriving DecidableEq, Repr

/-- The diagnostic for a name. -/
def NameError.message : NameError → String
  | duplicate name span => span.render ++ ": `" ++ name ++ "` is already declared in this scope"
  | unresolved name span => span.render ++ ": unresolved identifier `" ++ name ++ "`"

/-- One scope: the scope around it and its declarations, the latest first. -/
structure Scope where
  parent : Option Nat
  members : List (String × Nat)
deriving DecidableEq, Repr

/-- All scopes of a document. -/
structure Scopes where
  all : Array Scope := #[]
deriving DecidableEq, Repr, Inhabited

namespace Scopes

/-- The number of scopes opened. -/
def size (scopes : Scopes) : Nat :=
  scopes.all.size

/-- Opens a scope. -/
def create (scopes : Scopes) (parent : Option Nat) : Nat × Scopes :=
  (scopes.size, ⟨scopes.all.push ⟨parent, []⟩⟩)

/-- The scope around a scope. -/
def parent? (scopes : Scopes) (scope : Nat) : Option Nat :=
  scopes.all[scope]?.bind Scope.parent

/-- The declaration that a scope itself makes of a name. -/
def member? (scopes : Scopes) (scope : Nat) (name : String) : Option Nat :=
  scopes.all[scope]?.bind fun entry => entry.members.lookup name

/-- A scope with one more declaration. -/
def addMember (name : String) (node : Nat) (scope : Scope) : Scope :=
  { scope with members := (name, node) :: scope.members }

/-- Declares a name in a scope, once. -/
def declare (scopes : Scopes) (scope : Nat) (name : String) (node : Nat) (span : Span) :
    Except NameError Scopes :=
  match scopes.member? scope name with
  | some _ => .error (.duplicate name span)
  | none => .ok ⟨scopes.all.modify scope (addMember name node)⟩

/-- The innermost declaration of a name, looking outward from a scope. -/
def resolve (scopes : Scopes) (scope : Nat) (name : String) : Option (Nat × Nat) :=
  match scopes.member? scope name with
  | some node => some (scope, node)
  | none =>
    match scopes.parent? scope with
    | some parent => if parent < scope then scopes.resolve parent name else none
    | none => none
termination_by scope

/-- The declaration of a name that must have one. -/
def lookup (scopes : Scopes) (scope : Nat) (name : String) (span : Span) :
    Except NameError Nat :=
  match scopes.resolve scope name with
  | some (_, node) => .ok node
  | none => .error (.unresolved name span)

theorem parent?_push (scopes : Scopes) (entry : Scope) (scope : Nat) :
    parent? ⟨scopes.all.push entry⟩ scope =
      if scope = scopes.size then entry.parent else scopes.parent? scope := by
  by_cases isNew : scope = scopes.all.size
  · simp [parent?, size, isNew]
  · simp [parent?, size, isNew, Array.getElem?_push]

theorem member?_push (scopes : Scopes) (parent : Option Nat) (scope : Nat) (name : String) :
    member? ⟨scopes.all.push ⟨parent, []⟩⟩ scope name = scopes.member? scope name := by
  simp only [member?, Array.getElem?_push]
  split
  next isNew => simp [isNew]
  next => rfl

theorem parent?_modify (scopes : Scopes) (home : Nat) (name : String) (node scope : Nat) :
    parent? ⟨scopes.all.modify home (addMember name node)⟩ scope =
      scopes.parent? scope := by
  simp only [parent?, Array.getElem?_modify]
  split
  · cases scopes.all[scope]? <;> rfl
  · rfl

theorem member?_modify (scopes : Scopes) (home : Nat) (name : String) (node scope : Nat)
    (other : String) :
    member? ⟨scopes.all.modify home (addMember name node)⟩ scope other =
      if home = scope ∧ other = name ∧ scope < scopes.size then some node
      else scopes.member? scope other := by
  simp only [member?, size, Array.getElem?_modify]
  by_cases isHome : home = scope
  · subst isHome
    cases found : scopes.all[home]? with
    | none =>
      have outside := Array.getElem?_eq_none_iff.mp found
      simp [Nat.not_lt.mpr outside]
    | some entry =>
      obtain ⟨inside, _⟩ := Array.getElem?_eq_some_iff.mp found
      by_cases isName : other = name
      · simp [addMember, isName, inside]
      · simp [addMember, isName, List.lookup_cons, beq_false_of_ne isName]
  · simp [isHome]

end Scopes

/-- A name together with the scope that declares it; no two declarations of a document share one. -/
def qualify (scope : Nat) (name : String) : String :=
  renderScope scope ++ "." ++ name

end ScriptVM
