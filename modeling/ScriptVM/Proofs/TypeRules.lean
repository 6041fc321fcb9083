import ScriptVM.Proofs.Consistency
import ScriptVM.Proofs.Passes
import ScriptVM.Proofs.Scoping

/-!
What the type of a node has to do with the types around it.

Types are noted bottom up, and the type of a declaration may not be known yet where it is used: then
it is `any`, or for a function what is written of it. Where `any` occurs in no type that is noted in
the end, all of this is known after all, compatible types are equal, and every node has the type
that a rule gives it from the types of its children and of the declaration it refers to.
-/
namespace ScriptVM

open Annotations (Extends)
open Scoping (InScope InScopeAll InScopeStatements introduced)

namespace Ty

theorem eq_of_join {left right : Ty} (free : (left.join right).isAnyFree = true) :
    left = left.join right ∧ right = left.join right := by
  unfold join at free ⊢
  split at free
  next same => simp [same]
  next => cases free

end Ty

namespace Typing

/-- Arguments that no parameter refuses have the types of the parameters. -/
theorem eq_of_mismatch? {params args : List Ty} (sameLength : params.length = args.length)
    (freeParams : Ty.isAnyFreeAll params = true) (freeArgs : Ty.isAnyFreeAll args = true)
    (accepted : mismatch? params args = none) : params = args := by
  induction params generalizing args with
  | nil =>
    cases args with
    | nil => rfl
    | cons => cases sameLength
  | cons param params ih =>
    cases args with
    | nil => cases sameLength
    | cons arg args =>
      simp only [Ty.isAnyFreeAll, Bool.and_eq_true] at freeParams freeArgs
      simp only [mismatch?] at accepted
      split at accepted
      next compatible =>
        rw [Ty.eq_of_compatible freeParams.1 freeArgs.1 compatible,
          ih (by simpa using sameLength) freeParams.2 freeArgs.2 accepted]
      next => cases accepted

/-- A call that is accepted has the arguments and the result of the function. -/
theorem application_ok {callee type : Ty} {args : List Ty} (free : callee.isAnyFree = true)
    (freeArgs : Ty.isAnyFreeAll args = true) (accepted : application callee args = .ok type) :
    callee = .function args type := by
  cases callee with
  | function params result =>
    simp only [Ty.isAnyFree, Bool.and_eq_true] at free
    simp only [application] at accepted
    split at accepted
    next sameLength =>
      split at accepted
      next => cases accepted
      next none =>
        cases accepted
        rw [eq_of_mismatch? sameLength free.1 freeArgs none]
    next => cases accepted
  | any => cases free
  | _ => cases accepted

/-- A variable with a value has the type of the value. -/
theorem variableType_ok {name : String} {value type : Ty} {declared : Option Ty}
    (free : value.isAnyFree = true) (freeType : type.isAnyFree = true)
    (accepted : variableType name true value declared = .ok type) : type = value := by
  cases declared with
  | none =>
    cases accepted
    rfl
  | some declared =>
    simp only [variableType, Bool.true_and, Bool.not_eq_true'] at accepted
    split at accepted
    next => cases accepted
    next compatible =>
      cases accepted
      exact Ty.eq_of_compatible freeType free (by simpa using compatible)

section Rules

variable (types : Nat → Option Ty) (binding : Nat → Option Nat) (variableIds : List Nat)

/-- The type of the last statement that is not the rest of a merged one. -/
def statementsType (last : Option Ty) : List (Node Tag) → Option Ty
  | [] => last
  | node :: rest => statementsType (if node.isNoop then last else types node.id) rest

/-- The type of a node follows from the types of its children and of what it refers to. -/
def Ruled : Node Tag → Prop
  | .leaf tag (.int _) => types tag.id = some .int
  | .leaf tag (.real _) => types tag.id = some .real
  | .leaf tag (.bool _) => types tag.id = some .bool
  | .leaf tag .unit | .leaf tag .noop => types tag.id = some .unit
  | .leaf tag (.valueId _) => ∃ declaration type, binding tag.id = some declaration ∧
      types declaration = some type ∧ types tag.id = some type
  | .leaf _ (.typeId _) | .leaf _ (.symbolId _) | .param .. | .orElse .. => True
  | .program tag _ body | .block tag body =>
    types tag.id = statementsType types (some .unit) body
  | .define tag _ params body _ => ∃ paramTypes result,
      types tag.id = some (.function paramTypes result) ∧
      params.map (fun param => types param.id) = paramTypes.map some ∧
      types body.id = some result
  | .declare tag _ _ _ value => types tag.id = types value.id
  | .assign tag _ value => types tag.id = types value.id ∧
      ∀ declaration, binding tag.id = some declaration → declaration ∈ variableIds →
        types declaration = types value.id
  | .branch tag _ yes no => types tag.id = types yes.id ∧ types tag.id = types no.id
  | .loop tag _ _ => types tag.id = some .unit
  | .binary tag op left right => ∃ leftType rightType type, types left.id = some leftType ∧
      types right.id = some rightType ∧ operation op leftType rightType = .ok type ∧
      types tag.id = some type
  | .call tag callee args _ => ∃ argTypes result,
      types callee.id = some (.function argTypes result) ∧
      args.map (fun arg => types arg.id) = argTypes.map some ∧ types tag.id = some result
  | .aggregate tag _ _ => (∃ items, types tag.id = some (.tuple items)) ∨
      ∃ item, types tag.id = some (.list item)

end Rules

section Steps

variable {tag : Tag} {st st' : State}

theorem declared_ok {type : Option String} {found : Option Ty}
    (success : declared tag type st = .ok (found, st')) : st' = st := by
  cases type with
  | none => exact (Walks.pure_ok.mp success).2
  | some name =>
    cases known : Ty.ofName? name with
    | none =>
      rw [declared, known] at success
      exact absurd success Walks.throw_ok
    | some found =>
      rw [declared, known] at success
      exact (Walks.pure_ok.mp success).2

theorem declarationOf_ok {node : Node Tag} {declaration : Nat}
    (success : declarationOf node st = .ok (declaration, st')) :
    (st.annotations.get node.id).binding = some declaration ∧ st' = st := by
  rw [declarationOf, Walks.get_bind] at success
  cases bound : (st.annotations.get node.id).binding with
  | none =>
    rw [bound] at success
    exact absurd success Walks.throw_ok
  | some found =>
    rw [bound] at success
    obtain ⟨rfl, rfl⟩ := Walks.pure_ok.mp success
    exact ⟨rfl, rfl⟩

theorem typeOf_ok {declaration : Nat} {type : Ty}
    (success : typeOf declaration st = .ok (type, st')) :
    st' = st ∧ ((st.annotations.get declaration).type = some type ∨
      (st.annotations.get declaration).type = none ∧
        type = (st.signatures.lookup declaration).getD .any) := by
  rw [typeOf, Walks.get_bind] at success
  cases known : (st.annotations.get declaration).type with
  | none =>
    rw [known] at success
    obtain ⟨rfl, rfl⟩ := Walks.pure_ok.mp success
    exact ⟨rfl, .inr ⟨rfl, rfl⟩⟩
  | some found =>
    rw [known] at success
    obtain ⟨rfl, rfl⟩ := Walks.pure_ok.mp success
    exact ⟨rfl, .inl rfl⟩

theorem accept_ok {α : Type} {result : Except TypeError.Cause α} {a : α}
    (success : accept tag result st = .ok (a, st')) : result = .ok a ∧ st' = st := by
  cases result with
  | error cause => exact absurd success Walks.throw_ok
  | ok b =>
    obtain ⟨rfl, rfl⟩ := Walks.pure_ok.mp success
    exact ⟨rfl, rfl⟩

theorem checkPredicate_ok {pred : Node Tag} {type : Ty} {u : Unit}
    (success : checkPredicate pred type st = .ok (u, st')) : st' = st := by
  unfold checkPredicate at success
  split at success
  · exact (Walks.pure_ok.mp success).2
  · exact absurd success Walks.throw_ok

end Steps

section Walk

variable {last : Annotations} {binding : Nat → Option Nat} {variableIds : List Nat}
  {all : List (Node Tag)} {known : List Nat} {st st' : State} {type : Ty}

/-- The types that are noted. -/
def noted (annotations : Annotations) (id : Nat) : Option Ty :=
  (annotations.get id).type

theorem noted_of_extends {before after : Annotations} (extended : before.Extends after) {id : Nat}
    (found : noted before id = some type) : noted after id = some type := by
  have there : (before.get id).get? .type = some (.type type) := by
    rw [Notes.get?, show (before.get id).type = some type from found]
    rfl
  simpa [Notes.get?, noted] using extended id .type _ there

theorem map_noted_of_extends {before after : Annotations} (extended : before.Extends after)
    {nodes : List (Node Tag)} {types : List Ty}
    (found : nodes.map (fun node => noted before node.id) = types.map some) :
    nodes.map (fun node => noted after node.id) = types.map some := by
  rw [← found]
  refine List.map_congr_left fun node member => ?_
  have among : noted before node.id ∈ types.map some := by
    rw [← found]
    exact List.mem_map.mpr ⟨node, member, rfl⟩
  obtain ⟨type, _, isType⟩ := List.mem_map.mp among
  rw [← isType, noted_of_extends extended isType.symm]

theorem noted_of_set {before after : Annotations} {id : Nat}
    (written : before.set id (.type type) = .ok after) : noted after id = some type := by
  simpa [Notes.get?, Note.key, noted] using Annotations.some_of_set written

/-- What is known of a tree in the end, and of the order in which its variables are met. -/
structure Settled (last : Annotations) (binding : Nat → Option Nat) (variableIds : List Nat)
    (all : List (Node Tag)) : Prop where
  bound : ∀ use declaration, (last.get use).binding = some declaration →
    binding use = some declaration
  anyFree : ∀ node ∈ all, ∀ type, noted last node.id = some type → type.isAnyFree = true
  initialised : ∀ tag mutability name type value,
    .declare tag mutability name type value ∈ all → value.isUnit = false
  params : ∀ tag name params body type, .define tag name params body type ∈ all →
    ∀ param ∈ params, ∃ tag' name' type', param = .param tag' name' type'
  inScope : ∀ tag name params body type, .define tag name params body type ∈ all →
    InScope binding variableIds (params.map Node.id) body
  variableIds : ∀ id ∈ variableIds, ∃ node ∈ all, node.id = id

/-- A function that has been announced without `any` has that type in the end. -/
def Signed (last : Annotations) (signatures : List (Nat × Ty)) : Prop :=
  ∀ id type, signatures.lookup id = some type → type.isAnyFree = true → noted last id = some type

/-- Where a walk starts, the variables that are known have types. -/
structure Ready (last : Annotations) (known : List Nat) (st : State) : Prop where
  known : ∀ id ∈ known, noted st.annotations id ≠ none
  signed : Signed last st.signatures

theorem Ready.later (ready : Ready last known st)
    (extended : st.annotations.Extends st'.annotations) (signed : Signed last st'.signatures) :
    Ready last known st' := by
  refine ⟨fun id isKnown => ?_, signed⟩
  obtain ⟨type, found⟩ := Option.ne_none_iff_exists'.mp (ready.known id isKnown)
  rw [noted_of_extends extended found]
  nofun

/-- What a walk over nodes leaves. -/
structure Found (last : Annotations) (binding : Nat → Option Nat) (variableIds : List Nat)
    (nodes : List (Node Tag)) (st' : State) : Prop where
  signed : Signed last st'.signatures
  ruled : ∀ node ∈ nodes, Ruled (noted last) binding variableIds node

/-- The type that a walk gives a node is noted with it. -/
structure Given (last : Annotations) (binding : Nat → Option Nat) (variableIds : List Nat)
    (node : Node Tag) (type : Ty) (st' : State) : Prop
    extends Found last binding variableIds node.preorder st' where
  noted : noted st'.annotations node.id = some type

/-- Whatever walk comes to a node gives it a type by the rules. -/
def FollowsRules (last : Annotations) (binding : Nat → Option Nat) (variableIds : List Nat)
    (node : Node Tag) : Prop :=
  ∀ ⦃known : List Nat⦄ ⦃st st' : State⦄ ⦃type : Ty⦄, InScope binding variableIds known node →
    Ready last known st → visit node st = .ok (type, st') → st'.annotations.Extends last →
    Given last binding variableIds node type st'

theorem ruled_of_children {node : Node Tag} (own : Ruled (noted last) binding variableIds node)
    (below : ∀ child ∈ node.children, ∀ inner ∈ child.preorder,
      Ruled (noted last) binding variableIds inner) :
    ∀ inner ∈ node.preorder, Ruled (noted last) binding variableIds inner := by
  intro inner inside
  rcases Node.mem_preorder.mp inside with rfl | ⟨child, isChild, inChild⟩
  · exact own
  · exact below child isChild inner inChild

/-- The last step of a walk over a node notes its type. -/
theorem given_of_record (node : Node Tag) {recorded : Ty}
    (success : record node.tag recorded st = .ok (type, st')) (signed : Signed last st.signatures)
    (extended : st'.annotations.Extends last)
    (own : noted last node.id = some recorded → Ruled (noted last) binding variableIds node)
    (below : ∀ child ∈ node.children, ∀ inner ∈ child.preorder,
      Ruled (noted last) binding variableIds inner) :
    Given last binding variableIds node type st' := by
  obtain ⟨rfl, written, same⟩ := record_ok.mp success
  have here := noted_of_set written
  refine ⟨⟨same ▸ signed, ?_⟩, here⟩
  exact ruled_of_children (own (noted_of_extends extended here)) below

section Lists

variable {nodes : List (Node Tag)}
  (each : ∀ node ∈ nodes, FollowsRules last binding variableIds node)

include each

theorem found_visitAll {types : List Ty} (inScope : InScopeAll binding variableIds known nodes)
    (ready : Ready last known st) (success : visitAll nodes st = .ok (types, st'))
    (extended : st'.annotations.Extends last) :
    Found last binding variableIds (Node.preorderAll nodes) st' ∧
      nodes.map (fun node => noted st'.annotations node.id) = types.map some := by
  induction nodes generalizing st types with
  | nil =>
    obtain ⟨rfl, rfl⟩ : types = [] ∧ st' = st := by simpa [Walks.pure_ok] using success
    exact ⟨⟨ready.signed, nofun⟩, rfl⟩
  | cons node rest ih =>
    rw [visitAll, Walks.bind_ok] at success
    obtain ⟨type, st₁, first, success⟩ := success
    rw [Walks.bind_ok] at success
    obtain ⟨others, st₂, walked, finished⟩ := success
    obtain ⟨rfl, rfl⟩ := Walks.pure_ok.mp finished
    have fromFirst := leaves_visitAll rest _ _ _ walked
    have given := each node (by simp) inScope.1 ready first (fromFirst.trans extended)
    obtain ⟨found, types⟩ := ih (fun other member => each other (by simp [member])) inScope.2
      (ready.later (leaves_visit node _ _ _ first) given.signed) walked
    refine ⟨⟨found.signed, ?_⟩, ?_⟩
    · intro inner inside
      rw [Node.preorderAll, List.mem_append] at inside
      exact inside.elim (given.ruled inner) (found.ruled inner)
    · rw [List.map_cons, List.map_cons, types, noted_of_extends fromFirst given.noted]

theorem found_visitStatements {first : Ty}
    (inScope : InScopeStatements binding variableIds known nodes) (ready : Ready last known st)
    (success : visitStatements first nodes st = .ok (type, st'))
    (extended : st'.annotations.Extends last) :
    Found last binding variableIds (Node.preorderAll nodes) st' ∧
      statementsType (noted last) (some first) nodes = some type := by
  induction nodes generalizing st first known with
  | nil =>
    obtain ⟨rfl, rfl⟩ : type = first ∧ st' = st := by simpa [Walks.pure_ok] using success
    exact ⟨⟨ready.signed, nofun⟩, rfl⟩
  | cons node rest ih =>
    rw [visitStatements, Walks.bind_ok] at success
    obtain ⟨here, st₁, walked, success⟩ := success
    have toRest := leaves_visitStatements _ rest _ _ _ success
    have given := each node (by simp) inScope.1 ready walked (toRest.trans extended)
    have ready₁ := ready.later (leaves_visit node _ _ _ walked) given.signed
    have readyRest : Ready last (introduced node ++ known) st₁ := by
      refine ⟨fun id isKnown => ?_, given.signed⟩
      rcases List.mem_append.mp isKnown with isHere | before
      · cases node with
        | declare tag mutability name type value =>
          rw [List.mem_singleton.mp isHere, show noted st₁.annotations tag.id = _ from given.noted]
          nofun
        | _ => cases isHere
      · exact ready₁.known id before
    obtain ⟨found, isType⟩ := ih (fun other member => each other (by simp [member])) inScope.2
      readyRest success
    refine ⟨⟨found.signed, ?_⟩, ?_⟩
    · intro inner inside
      rw [Node.preorderAll, List.mem_append] at inside
      exact inside.elim (given.ruled inner) (found.ruled inner)
    · rw [statementsType, noted_of_extends (toRest.trans extended) given.noted, ← isType]
      split <;> rfl

theorem found_visitElements {tag : Tag} {seen : Option Ty}
    (inScope : InScopeAll binding variableIds known nodes) (ready : Ready last known st)
    (success : visitElements tag seen nodes st = .ok (type, st'))
    (extended : st'.annotations.Extends last) :
    Found last binding variableIds (Node.preorderAll nodes) st' := by
  induction nodes generalizing st seen with
  | nil =>
    obtain ⟨rfl, rfl⟩ := Walks.pure_ok.mp success
    exact ⟨ready.signed, nofun⟩
  | cons node rest ih =>
    rw [visitElements, Walks.bind_ok] at success
    obtain ⟨here, st₁, walked, success⟩ := success
    have goesOn : ∃ seen', visitElements tag seen' rest st₁ = .ok (type, st') := by
      cases seen with
      | none => exact ⟨_, success⟩
      | some first =>
        dsimp only at success
        split at success
        · exact ⟨_, success⟩
        · exact absurd success Walks.throw_ok
    obtain ⟨seen', success⟩ := goesOn
    have toRest := leaves_visitElements tag seen' rest _ _ _ success
    have given := each node (by simp) inScope.1 ready walked (toRest.trans extended)
    have found := ih (fun other member => each other (by simp [member])) inScope.2
      (ready.later (leaves_visit node _ _ _ walked) given.signed) success
    refine ⟨found.signed, fun inner inside => ?_⟩
    rw [Node.preorderAll, List.mem_append] at inside
    exact inside.elim (given.ruled inner) (found.ruled inner)

end Lists

/-- What a use is taken to be is what its declaration is in the end. -/
theorem noted_of_typeOf {declaration : Nat} (signed : Signed last st.signatures)
    (toLast : st.annotations.Extends last) (success : typeOf declaration st = .ok (type, st'))
    (free : type.isAnyFree = true) : noted last declaration = some type := by
  obtain ⟨_, known | ⟨_, isSignature⟩⟩ := typeOf_ok success
  · exact noted_of_extends toLast known
  · cases announced : st.signatures.lookup declaration with
    | none =>
      rw [announced] at isSignature
      rw [isSignature] at free
      cases free
    | some signature =>
      rw [announced] at isSignature
      rw [isSignature, Option.getD_some] at free ⊢
      exact signed declaration signature announced free

theorem bound_of_extends {before after : Annotations} (extended : before.Extends after)
    {use declaration : Nat} (found : (before.get use).binding = some declaration) :
    (after.get use).binding = some declaration := by
  have there : (before.get use).get? .binding = some (.binding declaration) := by
    rw [Notes.get?, found]
    rfl
  exact Notes.binding_of_get? (extended use .binding _ there)

section Inversion

variable {tag : Tag} {name : String}

/-- What is recorded for a function has the written result, if there is one. -/
theorem visit_define_ok {params : List (Node Tag)} {body : Node Tag} {written : Option String}
    (success : visit (.define tag name params body written) st = .ok (type, st')) :
    ∃ paramTypes st₁ result bodyType st₂ resultType, visitAll params st = .ok (paramTypes, st₁) ∧
      visit body { st₁ with signatures :=
        (tag.id, .function paramTypes (result.getD .any)) :: st₁.signatures } =
          .ok (bodyType, st₂) ∧
      record tag (.function paramTypes resultType) st₂ = .ok (type, st') ∧
      (result = none ∧ resultType = bodyType ∨
        result = some resultType ∧ resultType.compatible bodyType = true) := by
  rw [visit, Walks.bind_ok] at success
  obtain ⟨paramTypes, st₁, walkedParams, success⟩ := success
  rw [Walks.bind_ok] at success
  obtain ⟨result, _, isDeclared, success⟩ := success
  cases declared_ok isDeclared
  rw [Walks.then_ok] at success
  obtain ⟨_, announced, success⟩ := success
  cases announced
  rw [Walks.bind_ok] at success
  obtain ⟨bodyType, st₂, walkedBody, success⟩ := success
  cases result with
  | none =>
    exact ⟨_, _, none, _, _, _, walkedParams, walkedBody, success, .inl ⟨rfl, rfl⟩⟩
  | some resultType =>
    dsimp only at success
    split at success
    next compatible =>
      exact ⟨_, _, some _, _, _, _, walkedParams, walkedBody, success, .inr ⟨rfl, compatible⟩⟩
    next => exact absurd success Walks.throw_ok

/-- The callee comes first, then the arguments, then the trailing block, if there is one. -/
theorem visit_call_ok {callee : Node Tag} {args : List (Node Tag)} {trailing : Option (Node Tag)}
    (success : visit (.call tag callee args trailing) st = .ok (type, st')) :
    ∃ calleeType argTypes found st₁ st₂ st₃, visit callee st = .ok (calleeType, st₁) ∧
      visitAll args st₁ = .ok (argTypes, st₂) ∧
      (trailing = none ∧ st₃ = st₂ ∨
        ∃ block type, trailing = some block ∧ visit block st₂ = .ok (type, st₃)) ∧
      application calleeType argTypes = .ok found ∧ record tag found st₃ = .ok (type, st') := by
  cases trailing with
  | none =>
    rw [visit, Walks.bind_ok] at success
    obtain ⟨calleeType, st₁, walkedCallee, success⟩ := success
    rw [Walks.bind_ok] at success
    obtain ⟨argTypes, st₂, walkedArgs, success⟩ := success
    rw [Walks.bind_ok] at success
    obtain ⟨found, _, checked, success⟩ := success
    obtain ⟨accepted, rfl⟩ := accept_ok checked
    exact ⟨calleeType, argTypes, found, st₁, _, _, walkedCallee, walkedArgs, .inl ⟨rfl, rfl⟩,
      accepted, success⟩
  | some block =>
    rw [visit, Walks.bind_ok] at success
    obtain ⟨calleeType, st₁, walkedCallee, success⟩ := success
    rw [Walks.bind_ok] at success
    obtain ⟨argTypes, st₂, walkedArgs, success⟩ := success
    rw [Walks.bind_ok] at success
    obtain ⟨blockType, st₃, walkedBlock, success⟩ := success
    rw [Walks.bind_ok] at success
    obtain ⟨found, _, checked, success⟩ := success
    obtain ⟨accepted, rfl⟩ := accept_ok checked
    exact ⟨calleeType, argTypes, found, st₁, st₂, _, walkedCallee, walkedArgs,
      .inr ⟨block, blockType, rfl, walkedBlock⟩, accepted, success⟩

theorem inScope_call {callee : Node Tag} {args : List (Node Tag)} {trailing : Option (Node Tag)}
    (inScope : InScope binding variableIds known (.call tag callee args trailing)) :
    InScope binding variableIds known callee ∧ InScopeAll binding variableIds known args ∧
      ∀ block ∈ trailing.toList, InScope binding variableIds known block := by
  cases trailing with
  | none => exact ⟨inScope.1, inScope.2, List.forall_mem_nil _⟩
  | some block => exact ⟨inScope.1, inScope.2.1, by simpa using inScope.2.2⟩

end Inversion

section Nodes

variable {tag : Tag} {name : String}

theorem follows_name (settled : Settled last binding variableIds all)
    (member : .leaf tag (.valueId name) ∈ all) :
    FollowsRules last binding variableIds (.leaf tag (.valueId name)) := by
  intro known st st' type _ ready success extended
  have toLast := (leaves_visit _ _ _ _ success).trans extended
  rw [visit, Walks.bind_ok] at success
  obtain ⟨declaration, st₁, referred, success⟩ := success
  obtain ⟨bound, rfl⟩ := declarationOf_ok referred
  rw [Walks.bind_ok] at success
  obtain ⟨found, st₂, looked, success⟩ := success
  obtain ⟨rfl, _⟩ := typeOf_ok looked
  refine given_of_record (.leaf tag (.valueId name)) success ready.signed extended (fun here => ?_)
    nofun
  have free := settled.anyFree _ member found here
  exact ⟨declaration, found, settled.bound _ _ (bound_of_extends toLast bound),
    noted_of_typeOf ready.signed toLast looked free, here⟩

/-- The result of a function is what its body has, whether it is written or not. In the body the
parameters have their types and the function itself has its signature, so that it may be called
there. Types free of `any` are compatible only if they are equal. -/
theorem follows_define (settled : Settled last binding variableIds all) {params : List (Node Tag)}
    {body : Node Tag} {written : Option String}
    (inside : (Node.define tag name params body written).preorder ⊆ all)
    (each : ∀ child ∈ (Node.define tag name params body written).children,
      FollowsRules last binding variableIds child) :
    FollowsRules last binding variableIds (.define tag name params body written) := by
  intro known st st' type _ ready success extended
  have member := inside (Node.self_mem_preorder _)
  have isBody : body ∈ all :=
    inside (Node.preorder_subset_of_child (by simp [Node.children]) body.self_mem_preorder)
  obtain ⟨paramTypes, st₁, result, bodyType, st₄, resultType, walkedParams, walkedBody, success,
    isResult⟩ := visit_define_ok success
  have fromBody := Leaves.record tag _ _ _ _ success
  have fromParams := leaves_visit body _ _ _ walkedBody
  have toLast := (fromParams.trans fromBody).trans extended
  have here : noted last tag.id = some (.function paramTypes resultType) :=
    noted_of_extends extended (noted_of_set (record_ok.mp success).2.1)
  have free := settled.anyFree _ member _ here
  simp only [Ty.isAnyFree, Bool.and_eq_true] at free
  have inParams : InScopeAll binding variableIds known params := by
    refine Scoping.inScopeAll_iff.mpr fun param isParam => ?_
    obtain ⟨_, _, _, rfl⟩ := settled.params _ _ _ _ _ member param isParam
    trivial
  obtain ⟨foundParams, types⟩ := found_visitAll
    (fun param isParam => each param (by simp [Node.children, isParam])) inParams ready walkedParams
    toLast
  have readyBody : Ready last (params.map Node.id)
      { st₁ with signatures :=
        (tag.id, .function paramTypes (result.getD .any)) :: st₁.signatures } := by
    refine ⟨fun id isParam => ?_, fun id signature known freeSignature => ?_⟩
    · obtain ⟨param, member, rfl⟩ := List.mem_map.mp isParam
      have among : noted st₁.annotations param.id ∈ paramTypes.map some := by
        rw [← types]
        exact List.mem_map_of_mem member
      obtain ⟨_, _, isType⟩ := List.mem_map.mp among
      rw [← isType]
      exact Option.some_ne_none _
    · rw [List.lookup_cons] at known
      split at known
      next same =>
        cases known
        rw [beq_iff_eq.mp same, here]
        rcases isResult with ⟨rfl, _⟩ | ⟨rfl, _⟩
        · simp [Ty.isAnyFree] at freeSignature
        · rfl
      next => exact foundParams.signed id signature known freeSignature
  have given := each body (by simp [Node.children]) (settled.inScope _ _ _ _ _ member) readyBody
    walkedBody (fromBody.trans extended)
  have bodyNoted := noted_of_extends (fromBody.trans extended) given.noted
  have sameResult : resultType = bodyType := by
    rcases isResult with ⟨_, same⟩ | ⟨_, compatible⟩
    · exact same
    · exact Ty.eq_of_compatible free.2 (settled.anyFree body isBody _ bodyNoted) compatible
  refine given_of_record (.define tag name params body written) success given.signed extended
    (fun here => ⟨paramTypes, resultType, here, ?_, sameResult ▸ bodyNoted⟩) ?_
  · exact map_noted_of_extends toLast types
  · intro child isChild
    rcases List.mem_append.mp isChild with isParam | isBody
    · exact fun inner below =>
        foundParams.ruled inner (Node.mem_preorderAll.mpr ⟨child, isParam, below⟩)
    · rw [List.mem_singleton.mp isBody]
      exact given.ruled

theorem follows_declare (settled : Settled last binding variableIds all) {mutability : Mutability}
    {written : Option String} {value : Node Tag}
    (inside : (Node.declare tag mutability name written value).preorder ⊆ all)
    (each : FollowsRules last binding variableIds value) :
    FollowsRules last binding variableIds (.declare tag mutability name written value) := by
  intro known st st' type inScope ready success extended
  have member := inside (Node.self_mem_preorder _)
  have isValue : value ∈ all :=
    inside (Node.preorder_subset_of_child (by simp [Node.children]) value.self_mem_preorder)
  have initialised := settled.initialised _ _ _ _ _ member
  rw [visit, Walks.bind_ok] at success
  obtain ⟨valueType, st₁, walked, success⟩ := success
  simp only [initialised, Bool.not_false, Bool.true_and] at success
  split at success
  next => exact absurd success Walks.throw_ok
  next =>
    rw [Walks.bind_ok] at success
    obtain ⟨declaredType, st₂, isDeclared, success⟩ := success
    cases declared_ok isDeclared
    rw [Walks.bind_ok] at success
    obtain ⟨variableType, st₃, checked, success⟩ := success
    obtain ⟨accepted, rfl⟩ := accept_ok checked
    have toLast := (Leaves.record tag _ _ _ _ success).trans extended
    have given := each inScope ready walked toLast
    have valueNoted := noted_of_extends toLast given.noted
    refine given_of_record (.declare tag mutability name written value) success given.signed extended
      (fun here => ?_) ?_
    · have same := variableType_ok (settled.anyFree value isValue _ valueNoted)
        (settled.anyFree _ member _ here) accepted
      show noted last tag.id = noted last value.id
      rw [valueNoted, ← same]
      exact here
    · intro child isChild
      rw [List.mem_singleton.mp isChild]
      exact given.ruled

/-- The variable that a value is assigned to has been given its type before. -/
theorem follows_assign (settled : Settled last binding variableIds all) {value : Node Tag}
    (inside : (Node.assign tag name value).preorder ⊆ all)
    (each : FollowsRules last binding variableIds value) :
    FollowsRules last binding variableIds (.assign tag name value) := by
  intro known st st' type inScope ready success extended
  have isValue : value ∈ all :=
    inside (Node.preorder_subset_of_child (by simp [Node.children]) value.self_mem_preorder)
  rw [visit, Walks.bind_ok] at success
  obtain ⟨valueType, st₁, walked, success⟩ := success
  split at success
  next => exact absurd success Walks.throw_ok
  next =>
    rw [Walks.bind_ok] at success
    obtain ⟨declaration, st₂, referred, success⟩ := success
    obtain ⟨bound, rfl⟩ := declarationOf_ok referred
    rw [Walks.bind_ok] at success
    obtain ⟨target, st₃, looked, success⟩ := success
    obtain ⟨rfl, isTarget⟩ := typeOf_ok looked
    split at success
    next compatible =>
      have toLast := (Leaves.record tag _ _ _ _ success).trans extended
      have given := each inScope.2 ready walked toLast
      have ready₁ := ready.later (leaves_visit value _ _ _ walked) given.signed
      have valueNoted := noted_of_extends toLast given.noted
      refine given_of_record (.assign tag name value) success given.signed extended
        (fun here => ⟨here.trans valueNoted.symm, ?_⟩) ?_
      · intro other refers isVariable
        have isBound := settled.bound _ _ (bound_of_extends toLast bound)
        cases refers.symm.trans isBound
        have isKnown := ready₁.known declaration (inScope.1 declaration isBound isVariable)
        rcases isTarget with targetNoted | ⟨absent, _⟩
        · have targetLast := noted_of_extends toLast targetNoted
          obtain ⟨node, member, isId⟩ := settled.variableIds declaration isVariable
          have freeTarget := settled.anyFree node member target (by rw [isId, targetLast])
          rw [targetLast, valueNoted, Ty.eq_of_compatible freeTarget
            (settled.anyFree value isValue _ valueNoted) compatible]
        · exact absurd absent isKnown
      · intro child isChild
        rw [List.mem_singleton.mp isChild]
        exact given.ruled
    next => exact absurd success Walks.throw_ok

theorem follows_branch (settled : Settled last binding variableIds all) {pred yes no : Node Tag}
    (member : .branch tag pred yes no ∈ all)
    (each : ∀ child ∈ [pred, yes, no], FollowsRules last binding variableIds child) :
    FollowsRules last binding variableIds (.branch tag pred yes no) := by
  intro known st st' type inScope ready success extended
  obtain ⟨inPred, inYes, inNo⟩ := inScope
  rw [visit, Walks.bind_ok] at success
  obtain ⟨predType, st₁, walkedPred, success⟩ := success
  rw [Walks.bind_ok] at success
  obtain ⟨_, st₂, checked, success⟩ := success
  cases checkPredicate_ok checked
  rw [Walks.bind_ok] at success
  obtain ⟨yesType, st₃, walkedYes, success⟩ := success
  rw [Walks.bind_ok] at success
  obtain ⟨noType, st₄, walkedNo, success⟩ := success
  have fromNo := (Leaves.record tag _ _ _ _ success).trans extended
  have fromYes := (leaves_visit no _ _ _ walkedNo).trans fromNo
  have fromPred := (leaves_visit yes _ _ _ walkedYes).trans fromYes
  have givenPred := each pred (by simp) inPred ready walkedPred fromPred
  have ready₁ := ready.later (leaves_visit pred _ _ _ walkedPred) givenPred.signed
  have givenYes := each yes (by simp) inYes ready₁ walkedYes fromYes
  have ready₂ := ready₁.later (leaves_visit yes _ _ _ walkedYes) givenYes.signed
  have givenNo := each no (by simp) inNo ready₂ walkedNo fromNo
  refine given_of_record (.branch tag pred yes no) success givenNo.signed extended (fun here => ?_) ?_
  · obtain ⟨left, right⟩ := Ty.eq_of_join (settled.anyFree _ member _ here)
    refine ⟨?_, ?_⟩
    · rw [noted_of_extends fromYes givenYes.noted, left]
      exact here
    · rw [noted_of_extends fromNo givenNo.noted, right]
      exact here
  · simp only [Node.children, List.forall_mem_cons]
    exact ⟨givenPred.ruled, givenYes.ruled, givenNo.ruled, List.forall_mem_nil _⟩

theorem follows_binary {op : String} {left right : Node Tag}
    (each : ∀ child ∈ [left, right], FollowsRules last binding variableIds child) :
    FollowsRules last binding variableIds (.binary tag op left right) := by
  intro known st st' type inScope ready success extended
  obtain ⟨inLeft, inRight⟩ := inScope
  rw [visit, Walks.bind_ok] at success
  obtain ⟨leftType, st₁, walkedLeft, success⟩ := success
  rw [Walks.bind_ok] at success
  obtain ⟨rightType, st₂, walkedRight, success⟩ := success
  rw [Walks.bind_ok] at success
  obtain ⟨found, st₃, checked, success⟩ := success
  obtain ⟨accepted, rfl⟩ := accept_ok checked
  have fromRight := (Leaves.record tag _ _ _ _ success).trans extended
  have fromLeft := (leaves_visit right _ _ _ walkedRight).trans fromRight
  have givenLeft := each left (by simp) inLeft ready walkedLeft fromLeft
  have ready₁ := ready.later (leaves_visit left _ _ _ walkedLeft) givenLeft.signed
  have givenRight := each right (by simp) inRight ready₁ walkedRight fromRight
  refine given_of_record (.binary tag op left right) success givenRight.signed extended
    (fun here => ⟨leftType, rightType, found, noted_of_extends fromLeft givenLeft.noted,
      noted_of_extends fromRight givenRight.noted, accepted, here⟩) ?_
  simp only [Node.children, List.forall_mem_cons]
  exact ⟨givenLeft.ruled, givenRight.ruled, List.forall_mem_nil _⟩

/-- What the walk over a trailing block leaves, if there is one. -/
theorem found_trailing {trailing : Option (Node Tag)}
    (each : ∀ block ∈ trailing.toList, FollowsRules last binding variableIds block)
    (inScope : ∀ block ∈ trailing.toList, InScope binding variableIds known block)
    (ready : Ready last known st)
    (walked : trailing = none ∧ st' = st ∨
      ∃ block type, trailing = some block ∧ visit block st = .ok (type, st'))
    (extended : st'.annotations.Extends last) :
    Found last binding variableIds (Node.preorderAll trailing.toList) st' := by
  rcases walked with ⟨rfl, rfl⟩ | ⟨block, type, rfl, walked⟩
  · exact ⟨ready.signed, nofun⟩
  · have given := each block (by simp) (inScope block (by simp)) ready walked extended
    refine ⟨given.signed, ?_⟩
    simpa [Node.preorderAll] using given.ruled

/-- A call has the arguments that its function expects, and what the function gives. -/
theorem follows_call (settled : Settled last binding variableIds all) {callee : Node Tag}
    {args : List (Node Tag)} {trailing : Option (Node Tag)}
    (inside : (Node.call tag callee args trailing).preorder ⊆ all)
    (each : ∀ child ∈ (Node.call tag callee args trailing).children,
      FollowsRules last binding variableIds child) :
    FollowsRules last binding variableIds (.call tag callee args trailing) := by
  intro known st st' type inScope ready success extended
  have among : ∀ child ∈ (Node.call tag callee args trailing).children, child ∈ all :=
    fun child isChild => inside (Node.preorder_subset_of_child isChild child.self_mem_preorder)
  obtain ⟨calleeType, argTypes, found, st₁, st₂, st₃, walkedCallee, walkedArgs, walkedBlock,
    accepted, success⟩ := visit_call_ok success
  obtain ⟨inCallee, inArgs, inBlock⟩ := inScope_call inScope
  have fromBlock := (Leaves.record tag _ _ _ _ success).trans extended
  have fromArgs : st₂.annotations.Extends last := by
    rcases walkedBlock with ⟨_, rfl⟩ | ⟨block, type, _, walked⟩
    · exact fromBlock
    · exact (leaves_visit block _ _ _ walked).trans fromBlock
  have fromCallee := (leaves_visitAll args _ _ _ walkedArgs).trans fromArgs
  have given := each callee (by simp [Node.children]) inCallee ready walkedCallee fromCallee
  have ready₁ := ready.later (leaves_visit callee _ _ _ walkedCallee) given.signed
  obtain ⟨foundArgs, types⟩ := found_visitAll
    (fun arg isArg => each arg (by simp [Node.children, isArg])) inArgs ready₁ walkedArgs fromArgs
  have ready₂ := ready₁.later (leaves_visitAll args _ _ _ walkedArgs) foundArgs.signed
  have foundBlock := found_trailing
    (fun block isBlock => each block (by simp [Node.children, Option.mem_toList.mp isBlock]))
    inBlock ready₂ walkedBlock fromBlock
  have calleeNoted := noted_of_extends fromCallee given.noted
  have argsNoted := map_noted_of_extends fromArgs types
  have freeArgs : Ty.isAnyFreeAll argTypes = true := by
    refine Ty.isAnyFreeAll_iff.mpr fun argType isType => ?_
    have isNoted : some argType ∈ args.map fun arg => noted last arg.id := by
      rw [argsNoted]
      exact List.mem_map_of_mem isType
    obtain ⟨arg, isArg, here⟩ := List.mem_map.mp isNoted
    exact settled.anyFree arg (among arg (by simp [Node.children, isArg])) argType here
  have isFunction := application_ok
    (settled.anyFree callee (among callee (by simp [Node.children])) _ calleeNoted) freeArgs accepted
  refine given_of_record (.call tag callee args trailing) success foundBlock.signed extended
    (fun here => ⟨argTypes, found, isFunction ▸ calleeNoted, argsNoted, here⟩) ?_
  intro child isChild inner below
  simp only [Node.children, List.cons_append, List.mem_cons, List.mem_append] at isChild
  rcases isChild with rfl | isArg | isBlock
  · exact given.ruled inner below
  · exact foundArgs.ruled inner (Node.mem_preorderAll.mpr ⟨child, isArg, below⟩)
  · exact foundBlock.ruled inner (Node.mem_preorderAll.mpr ⟨child, isBlock, below⟩)

theorem follows_aggregate {kind : Aggregate} {elements : List (Node Tag)}
    (each : ∀ child ∈ elements, FollowsRules last binding variableIds child) :
    FollowsRules last binding variableIds (.aggregate tag kind elements) := by
  intro known st st' type inScope ready success extended
  cases kind with
  | tuple =>
    rw [visit, Walks.bind_ok] at success
    obtain ⟨types, st₁, walked, success⟩ := success
    have toLast := (Leaves.record tag _ _ _ _ success).trans extended
    obtain ⟨found, _⟩ := found_visitAll each inScope ready walked toLast
    refine given_of_record (.aggregate tag .tuple elements) success found.signed extended
      (fun here => .inl ⟨types, here⟩) fun child isChild inner below => ?_
    exact found.ruled inner (Node.mem_preorderAll.mpr ⟨child, isChild, below⟩)
  | list =>
    rw [visit, Walks.bind_ok] at success
    obtain ⟨elementType, st₁, walked, success⟩ := success
    have toLast := (Leaves.record tag _ _ _ _ success).trans extended
    have found := found_visitElements each inScope ready walked toLast
    refine given_of_record (.aggregate tag .list elements) success found.signed extended
      (fun here => .inr ⟨elementType, here⟩) fun child isChild inner below => ?_
    exact found.ruled inner (Node.mem_preorderAll.mpr ⟨child, isChild, below⟩)

end Nodes

/-- Every walk over a tree gives its nodes their types by the rules. -/
theorem follows_visit (settled : Settled last binding variableIds all) {node : Node Tag}
    (inside : node.preorder ⊆ all) : FollowsRules last binding variableIds node := by
  induction node using Node.childInduction with
  | step node ih =>
    have each : ∀ child ∈ node.children, FollowsRules last binding variableIds child :=
      fun child isChild => ih child isChild
        fun _ below => inside (Node.preorder_subset_of_child isChild below)
    have member := inside node.self_mem_preorder
    cases node with
    | leaf tag kind =>
      cases kind with
      | valueId name => exact follows_name settled member
      | int | real | bool | unit | noop =>
        intro known st st' type _ ready success extended
        exact given_of_record (.leaf tag _) success ready.signed extended (fun here => here)
          (List.forall_mem_nil _)
      | typeId | symbolId =>
        intro known st st' type _ ready success extended
        exact given_of_record (.leaf tag _) success ready.signed extended (fun _ => trivial)
          (List.forall_mem_nil _)
    | param tag name written =>
      intro known st st' type _ ready success extended
      rw [visit, Walks.bind_ok] at success
      obtain ⟨_, st₁, isDeclared, success⟩ := success
      cases declared_ok isDeclared
      exact given_of_record (.param tag name written) success ready.signed extended
        (fun _ => trivial) (List.forall_mem_nil _)
    | program tag _ body | block tag body =>
      intro known st st' type inScope ready success extended
      rw [visit, Walks.bind_ok] at success
      obtain ⟨bodyType, st₁, walked, success⟩ := success
      have toLast := (Leaves.record tag _ _ _ _ success).trans extended
      obtain ⟨found, isType⟩ := found_visitStatements each inScope ready walked toLast
      refine given_of_record _ success found.signed extended (fun here => here.trans isType.symm)
        fun child isChild inner below => ?_
      exact found.ruled inner (Node.mem_preorderAll.mpr ⟨child, isChild, below⟩)
    | define => exact follows_define settled inside each
    | declare tag mutability name written value =>
      exact follows_declare settled inside (each value (by simp [Node.children]))
    | assign tag name value =>
      exact follows_assign settled inside (each value (by simp [Node.children]))
    | branch => exact follows_branch settled member each
    | orElse tag body =>
      intro known st st' type inScope ready success extended
      rw [visit, Walks.bind_ok] at success
      obtain ⟨bodyType, st₁, walked, success⟩ := success
      have toLast := (Leaves.record tag _ _ _ _ success).trans extended
      have given := each body (by simp [Node.children]) inScope ready walked toLast
      refine given_of_record (.orElse tag body) success given.signed extended (fun _ => trivial) ?_
      intro child isChild
      rw [List.mem_singleton.mp isChild]
      exact given.ruled
    | loop tag pred body =>
      intro known st st' type inScope ready success extended
      rw [visit, Walks.bind_ok] at success
      obtain ⟨predType, st₁, walkedPred, success⟩ := success
      rw [Walks.bind_ok] at success
      obtain ⟨_, st₂, checked, success⟩ := success
      cases checkPredicate_ok checked
      rw [Walks.bind_ok] at success
      obtain ⟨bodyType, st₃, walkedBody, success⟩ := success
      have fromBody := (Leaves.record tag _ _ _ _ success).trans extended
      have fromPred := (leaves_visit body _ _ _ walkedBody).trans fromBody
      have givenPred := each pred (by simp [Node.children]) inScope.1 ready walkedPred fromPred
      have ready₁ := ready.later (leaves_visit pred _ _ _ walkedPred) givenPred.signed
      have givenBody := each body (by simp [Node.children]) inScope.2 ready₁ walkedBody fromBody
      refine given_of_record (.loop tag pred body) success givenBody.signed extended id ?_
      simp only [Node.children, List.forall_mem_cons]
      exact ⟨givenPred.ruled, givenBody.ruled, List.forall_mem_nil _⟩
    | binary => exact follows_binary each
    | call => exact follows_call settled inside each
    | aggregate => exact follows_aggregate each

end Walk

end Typing

end ScriptVM
