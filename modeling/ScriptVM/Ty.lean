/-!
Static types.

`any` stands for whatever is not known, and is compatible with everything in any position. Two types
without `any` in them are compatible just when they are equal.
-/
namespace ScriptVM

/-- A static type. -/
inductive Ty where
  | int
  | real
  | bool
  | unit
  | any
  | tuple (items : List Ty)
  | list (item : Ty)
  | function (params : List Ty) (result : Ty)
deriving Repr, Inhabited

namespace Ty

mutual

/-- Whether two types are the same. -/
def same : Ty → Ty → Bool
  | int, int | real, real | bool, bool | unit, unit | any, any => true
  | tuple left, tuple right => sameAll left right
  | list left, list right => left.same right
  | function params result, function params' result' =>
    sameAll params params' && result.same result'
  | _, _ => false

/-- Whether two lists hold the same types. -/
def sameAll : List Ty → List Ty → Bool
  | [], [] => true
  | left :: lefts, right :: rights => left.same right && sameAll lefts rights
  | _, _ => false

end

mutual

theorem same_iff : ∀ left right : Ty, left.same right = true ↔ left = right
  | tuple left, right => by cases right <;> simp [same, sameAll_iff left]
  | list left, right => by cases right <;> simp [same, same_iff left]
  | function params result, right => by
    cases right <;> simp [same, sameAll_iff params, same_iff result]
  | int, right | real, right | bool, right | unit, right | any, right => by
    cases right <;> simp [same]

theorem sameAll_iff : ∀ lefts rights : List Ty, sameAll lefts rights = true ↔ lefts = rights
  | [], rights => by cases rights <;> simp [sameAll]
  | left :: lefts, rights => by
    cases rights <;> simp [sameAll, same_iff left, sameAll_iff lefts]

end

instance : DecidableEq Ty := fun left right =>
  decidable_of_iff (left.same right = true) (same_iff left right)

/-- The type with this name in a source text. -/
def ofName? (name : String) : Option Ty :=
  if name = "Int" then some int
  else if name = "Real" then some real
  else if name = "Bool" then some bool
  else if name = "Unit" then some unit
  else if name = "Any" then some any
  else none

/-- Whether arithmetic accepts the type. -/
def isNumeric : Ty → Bool
  | int | real | any => true
  | _ => false

mutual

/-- Whether a value of one type may stand where the other is expected: equal up to `any`. -/
def compatible : Ty → Ty → Bool
  | any, _ => true
  | _, any => true
  | tuple left, tuple right => compatibleAll left right
  | list left, list right => left.compatible right
  | function params result, function params' result' =>
    compatibleAll params params' && result.compatible result'
  | int, int | real, real | bool, bool | unit, unit => true
  | _, _ => false

/-- Whether two lists have the same length and are compatible item by item. -/
def compatibleAll : List Ty → List Ty → Bool
  | [], [] => true
  | left :: lefts, right :: rights => left.compatible right && compatibleAll lefts rights
  | _, _ => false

end

/-- The type of a value that comes from one of two branches. -/
def join (left right : Ty) : Ty :=
  if left = right then left else any

mutual

/-- How diagnostics write a type. -/
def render : Ty → String
  | int => "Int"
  | real => "Real"
  | bool => "Bool"
  | unit => "Unit"
  | any => "Any"
  | tuple items => "(" ++ renderAll items ++ ")"
  | list item => "[" ++ item.render ++ "]"
  | function params result => "(" ++ renderAll params ++ ") -> " ++ result.render

/-- Types with commas between them. -/
def renderAll : List Ty → String
  | [] => ""
  | item :: rest => item.render ++ renderRest rest

/-- Types with a comma before each. -/
def renderRest : List Ty → String
  | [] => ""
  | item :: rest => ", " ++ item.render ++ renderRest rest

end

end Ty

end ScriptVM
