import ScriptVM.Ty

/-!
Compatible types as types that have an instance in common.

A type with `any` in it stands for its instances: the types that are left when each `any` is replaced
by a type without `any`, each on its own. Two types are compatible exactly if one type is an instance
of both. It follows that compatibility does not depend on the order, that it is equality between types
without `any`, and that it is kept when a part of a type is forgotten.
-/
namespace ScriptVM

namespace Ty

mutual

/-- Whether `any` occurs nowhere in a type. -/
def isAnyFree : Ty → Bool
  | any => false
  | int | real | bool | unit => true
  | tuple items => isAnyFreeAll items
  | list item => item.isAnyFree
  | function params result => isAnyFreeAll params && result.isAnyFree

/-- Whether `any` occurs in none of several types. -/
def isAnyFreeAll : List Ty → Bool
  | [] => true
  | item :: rest => item.isAnyFree && isAnyFreeAll rest

end

theorem isAnyFreeAll_iff {items : List Ty} :
    isAnyFreeAll items = true ↔ ∀ item ∈ items, item.isAnyFree = true := by
  induction items with
  | nil => simp [isAnyFreeAll]
  | cons item rest ih => simp [isAnyFreeAll, ih]

mutual

/-- The second type is an instance of the first: each `any` is replaced by a type without `any`, and
nothing else is. -/
inductive Admits : Ty → Ty → Prop where
  | int : Admits .int .int
  | real : Admits .real .real
  | bool : Admits .bool .bool
  | unit : Admits .unit .unit
  | any {filling : Ty} (free : filling.isAnyFree = true) : Admits .any filling
  | tuple {items filled : List Ty} (each : AdmitsAll items filled) :
    Admits (.tuple items) (.tuple filled)
  | list {item filled : Ty} (inner : Admits item filled) : Admits (.list item) (.list filled)
  | function {params filled : List Ty} {result filledResult : Ty} (each : AdmitsAll params filled)
    (inner : Admits result filledResult) :
    Admits (.function params result) (.function filled filledResult)

/-- The types of the second list are instances of those of the first, item by item. -/
inductive AdmitsAll : List Ty → List Ty → Prop where
  | nil : AdmitsAll [] []
  | cons {item filled : Ty} {rest filledRest : List Ty} (first : Admits item filled)
    (others : AdmitsAll rest filledRest) : AdmitsAll (item :: rest) (filled :: filledRest)

end

mutual

/-- The second type is the first with one of its components, at any depth, replaced by `any`. The
whole type counts as a component. -/
inductive Forgets : Ty → Ty → Prop where
  | whole (type : Ty) : Forgets type .any
  | tuple {items items' : List Ty} (one : ForgetsOne items items') :
    Forgets (.tuple items) (.tuple items')
  | list {item item' : Ty} (inner : Forgets item item') : Forgets (.list item) (.list item')
  | param {params params' : List Ty} {result : Ty} (one : ForgetsOne params params') :
    Forgets (.function params result) (.function params' result)
  | result {params : List Ty} {result result' : Ty} (inner : Forgets result result') :
    Forgets (.function params result) (.function params result')

/-- The second list is the first with a component of one of its types replaced by `any`. -/
inductive ForgetsOne : List Ty → List Ty → Prop where
  | head {item item' : Ty} {rest : List Ty} (inner : Forgets item item') :
    ForgetsOne (item :: rest) (item' :: rest)
  | tail {item : Ty} {rest rest' : List Ty} (one : ForgetsOne rest rest') :
    ForgetsOne (item :: rest) (item :: rest')

end

mutual

/-- No `any` is left in an instance. -/
theorem Admits.isAnyFree : ∀ {type filled : Ty}, type.Admits filled → filled.isAnyFree = true
  | _, _, .int | _, _, .real | _, _, .bool | _, _, .unit => rfl
  | _, _, .any free => free
  | _, _, .tuple each => each.isAnyFreeAll
  | _, _, .list inner => inner.isAnyFree
  | _, _, .function each inner => Bool.and_eq_true_iff.mpr ⟨each.isAnyFreeAll, inner.isAnyFree⟩

theorem AdmitsAll.isAnyFreeAll : ∀ {items filled : List Ty}, AdmitsAll items filled →
    isAnyFreeAll filled = true
  | _, _, .nil => rfl
  | _, _, .cons first others => Bool.and_eq_true_iff.mpr ⟨first.isAnyFree, others.isAnyFreeAll⟩

end

mutual

/-- Every type has an instance: `unit` may fill in each `any`. -/
theorem exists_admits : ∀ type : Ty, ∃ filled, type.Admits filled
  | .int => ⟨_, .int⟩
  | .real => ⟨_, .real⟩
  | .bool => ⟨_, .bool⟩
  | .unit => ⟨_, .unit⟩
  | .any => ⟨unit, .any rfl⟩
  | .tuple items =>
    have ⟨_, each⟩ := exists_admitsAll items
    ⟨_, .tuple each⟩
  | .list item =>
    have ⟨_, inner⟩ := exists_admits item
    ⟨_, .list inner⟩
  | .function params result =>
    have ⟨_, each⟩ := exists_admitsAll params
    have ⟨_, inner⟩ := exists_admits result
    ⟨_, .function each inner⟩

theorem exists_admitsAll : ∀ items : List Ty, ∃ filled, AdmitsAll items filled
  | [] => ⟨_, .nil⟩
  | item :: rest =>
    have ⟨_, first⟩ := exists_admits item
    have ⟨_, others⟩ := exists_admitsAll rest
    ⟨_, .cons first others⟩

end

mutual

/-- A type without `any` has no other instance than itself. -/
theorem Admits.eq : ∀ {type filled : Ty}, type.Admits filled → type.isAnyFree = true →
    filled = type
  | _, _, .int, _ | _, _, .real, _ | _, _, .bool, _ | _, _, .unit, _ => rfl
  | _, _, .any _, free => nomatch free
  | _, _, .tuple each, free => congrArg tuple (each.eq free)
  | _, _, .list inner, free => congrArg list (inner.eq free)
  | _, _, .function each inner, free => by
    obtain ⟨freeParams, freeResult⟩ := Bool.and_eq_true_iff.mp free
    rw [each.eq freeParams, inner.eq freeResult]

theorem AdmitsAll.eq : ∀ {items filled : List Ty}, AdmitsAll items filled →
    Ty.isAnyFreeAll items = true → filled = items
  | _, _, .nil, _ => rfl
  | _, _, .cons first others, free => by
    obtain ⟨freeFirst, freeOthers⟩ := Bool.and_eq_true_iff.mp free
    rw [first.eq freeFirst, others.eq freeOthers]

end

mutual

/-- What is an instance of a type is one of the type with a component forgotten. -/
theorem Forgets.admits : ∀ {type looser filled : Ty}, type.Forgets looser → type.Admits filled →
    looser.Admits filled
  | _, _, _, .whole _, admits => .any admits.isAnyFree
  | _, _, _, .tuple one, .tuple each => .tuple (one.admitsAll each)
  | _, _, _, .list forgets, .list inner => .list (forgets.admits inner)
  | _, _, _, .param one, .function each inner => .function (one.admitsAll each) inner
  | _, _, _, .result forgets, .function each inner => .function each (forgets.admits inner)

theorem ForgetsOne.admitsAll : ∀ {items looser filled : List Ty}, ForgetsOne items looser →
    AdmitsAll items filled → AdmitsAll looser filled
  | _, _, _, .head forgets, .cons first others => .cons (forgets.admits first) others
  | _, _, _, .tail one, .cons first others => .cons first (one.admitsAll others)

end

@[simp]
theorem compatible_any (type : Ty) : type.compatible .any = true := by
  cases type <;> rfl

mutual

/-- Types with a common instance are compatible. -/
theorem Admits.compatible : ∀ {left right common : Ty}, left.Admits common → right.Admits common →
    left.compatible right = true
  | _, _, _, .any _, _ => rfl
  | _, _, _, _, .any _ => compatible_any _
  | _, _, _, .int, .int | _, _, _, .real, .real | _, _, _, .bool, .bool
  | _, _, _, .unit, .unit => rfl
  | _, _, _, .tuple each, .tuple each' => each.compatibleAll each'
  | _, _, _, .list inner, .list inner' => inner.compatible inner'
  | _, _, _, .function each inner, .function each' inner' =>
    Bool.and_eq_true_iff.mpr ⟨each.compatibleAll each', inner.compatible inner'⟩

theorem AdmitsAll.compatibleAll : ∀ {lefts rights common : List Ty}, AdmitsAll lefts common →
    AdmitsAll rights common → compatibleAll lefts rights = true
  | _, _, _, .nil, .nil => rfl
  | _, _, _, .cons first others, .cons first' others' =>
    Bool.and_eq_true_iff.mpr ⟨first.compatible first', others.compatibleAll others'⟩

end

mutual

/-- Compatible types have a common instance. Where one side is `any`, each instance of the other side
will do; otherwise it is put together from the components, which are compatible in pairs. -/
theorem exists_common : ∀ {left right : Ty}, left.compatible right = true →
    ∃ common, left.Admits common ∧ right.Admits common
  | .any, right, _ =>
    have ⟨filled, admits⟩ := exists_admits right
    ⟨filled, .any admits.isAnyFree, admits⟩
  | left, .any, _ =>
    have ⟨filled, admits⟩ := exists_admits left
    ⟨filled, admits, .any admits.isAnyFree⟩
  | .int, .int, _ => ⟨_, .int, .int⟩
  | .real, .real, _ => ⟨_, .real, .real⟩
  | .bool, .bool, _ => ⟨_, .bool, .bool⟩
  | .unit, .unit, _ => ⟨_, .unit, .unit⟩
  | .tuple _, .tuple _, sameItems =>
    have ⟨_, each, each'⟩ := exists_commonAll sameItems
    ⟨_, .tuple each, .tuple each'⟩
  | .list item, .list item', sameItem =>
    have sameItem : item.compatible item' = true := sameItem
    have ⟨_, inner, inner'⟩ := exists_common sameItem
    ⟨_, .list inner, .list inner'⟩
  | .function _ _, .function _ _, same =>
    have ⟨sameParams, sameResult⟩ := Bool.and_eq_true_iff.mp same
    have ⟨_, each, each'⟩ := exists_commonAll sameParams
    have ⟨_, inner, inner'⟩ := exists_common sameResult
    ⟨_, .function each inner, .function each' inner'⟩

theorem exists_commonAll : ∀ {lefts rights : List Ty}, compatibleAll lefts rights = true →
    ∃ common, AdmitsAll lefts common ∧ AdmitsAll rights common
  | [], [], _ => ⟨_, .nil, .nil⟩
  | _ :: _, _ :: _, same =>
    have ⟨sameFirst, sameOthers⟩ := Bool.and_eq_true_iff.mp same
    have ⟨_, first, first'⟩ := exists_common sameFirst
    have ⟨_, others, others'⟩ := exists_commonAll sameOthers
    ⟨_, .cons first others, .cons first' others'⟩

end

variable {left right looser : Ty}

theorem compatible_iff_common : left.compatible right = true ↔
    ∃ common : Ty, common.isAnyFree = true ∧ left.Admits common ∧ right.Admits common := by
  constructor
  · intro compatible
    obtain ⟨common, admits, admits'⟩ := exists_common compatible
    exact ⟨common, admits.isAnyFree, admits, admits'⟩
  · rintro ⟨common, _, admits, admits'⟩
    exact admits.compatible admits'

theorem compatible_self (type : Ty) : type.compatible type = true := by
  obtain ⟨filled, admits⟩ := exists_admits type
  exact admits.compatible admits

theorem compatible_comm (left right : Ty) : left.compatible right = right.compatible left := by
  rw [Bool.eq_iff_iff, compatible_iff_common, compatible_iff_common]
  exact exists_congr fun common => and_congr_right fun _ => and_comm

/-- Without `any`, compatible types are equal. -/
theorem eq_of_compatible (free : left.isAnyFree = true) (free' : right.isAnyFree = true)
    (compatible : left.compatible right = true) : left = right := by
  obtain ⟨common, admits, admits'⟩ := exists_common compatible
  calc
    left = common := (admits.eq free).symm
    _ = right := admits'.eq free'

/-- Forgetting a component of one side refuses nothing. -/
theorem Forgets.compatible (forgets : left.Forgets looser)
    (compatible : left.compatible right = true) : looser.compatible right = true := by
  obtain ⟨common, admits, admits'⟩ := exists_common compatible
  exact (forgets.admits admits).compatible admits'

/-- Compatibility is consistency: two types are compatible exactly if a type without `any` is an
instance of both. So each type is compatible with itself, the order of the two does not count, types
without `any` are compatible exactly if they are equal, and compatible types stay compatible when a
component of either of them is replaced by `any`. -/
theorem compatible_up_to_any (left right : Ty) :
    (left.compatible right = true ↔
      ∃ common : Ty, common.isAnyFree = true ∧ left.Admits common ∧ right.Admits common) ∧
    left.compatible left = true ∧
    left.compatible right = right.compatible left ∧
    (left.isAnyFree = true → right.isAnyFree = true →
      (left.compatible right = true ↔ left = right)) ∧
    (left.compatible right = true →
      (∀ looser, left.Forgets looser → looser.compatible right = true) ∧
      ∀ looser, right.Forgets looser → left.compatible looser = true) := by
  refine ⟨compatible_iff_common, compatible_self left, compatible_comm left right, ?_, ?_⟩
  · intro free free'
    constructor
    · exact eq_of_compatible free free'
    · rintro rfl
      exact compatible_self left
  · intro compatible
    refine ⟨fun looser forgets => forgets.compatible compatible, fun looser forgets => ?_⟩
    rw [compatible_comm] at compatible ⊢
    exact forgets.compatible compatible

/-- Functions that take a list and a pair, each of which knows a part that the other does not. -/
theorem compatible_up_to_any_of_callback :
    let left := function [list any, tuple [int, any]] any
    let right := function [any, tuple [any, bool]] (list real)
    let looser := function [any, tuple [any, any]] (list real)
    left.compatible right = true ∧
      (∃ common : Ty, common.isAnyFree = true ∧ left.Admits common ∧ right.Admits common) ∧
      right.Forgets looser ∧ left.compatible looser = true ∧
      (list int).isAnyFree = true ∧ (list real).isAnyFree = true ∧
      (list int).compatible (list real) = false := by
  intro left right looser
  have compatible : left.compatible right = true := by decide
  have forgets : right.Forgets looser :=
    .param (.tail (.head (.tuple (.tail (.head (.whole bool))))))
  have free : (list int).isAnyFree = true := by decide
  have free' : (list real).isAnyFree = true := by decide
  obtain ⟨instances, _, _, _, loosened⟩ := compatible_up_to_any left right
  obtain ⟨_, _, _, equal, _⟩ := compatible_up_to_any (list int) (list real)
  refine ⟨compatible, instances.mp compatible, forgets, (loosened compatible).2 looser forgets,
    free, free', ?_⟩
  exact Bool.eq_false_iff.mpr fun same => absurd ((equal free free').mp same) (by decide)

end Ty

end ScriptVM
