import Mathlib.Logic.Basic
import ScriptVM.Lowering

/-!
What successful lowering has done, one statement for each kind of node.

Each statement gives the parts of a node, the supplies that their lowering took and left, and the
instructions as those of the parts with some between them. Nothing after this module opens the
definition of lowering.
-/
namespace ScriptVM

namespace Lowering

variable {α β : Type} {env : Env} {s s' : Supply} {code : List Instruction}

namespace Supply

/-- The register given out next. -/
abbrev register (s : Supply) : Nat := s.registers.next

/-- The number given out next. -/
abbrev number (s : Supply) : Nat := s.names.next

/-- The supply after a register was taken. -/
def withoutRegister (s : Supply) : Supply := { s with registers := ⟨s.registers.next + 1⟩ }

/-- The supply after a number was taken. -/
def withoutNumber (s : Supply) : Supply := { s with names := ⟨s.names.next + 1⟩ }

@[simp] theorem register_withoutRegister (s : Supply) :
    s.withoutRegister.register = s.register + 1 := rfl

@[simp] theorem number_withoutRegister (s : Supply) :
    s.withoutRegister.number = s.number := rfl

@[simp] theorem register_withoutNumber (s : Supply) :
    s.withoutNumber.register = s.register := rfl

@[simp] theorem number_withoutNumber (s : Supply) :
    s.withoutNumber.number = s.number + 1 := rfl

end Supply

section Computations

theorem bind_ok {first : Lowering α} {second : α → Lowering β} {value : β} :
    (first >>= second) s = .ok value code s' ↔
      ∃ a before middle after, first s = .ok a before middle ∧
        second a middle = .ok value after s' ∧ code = before ++ after := by
  show andThen first second s = _ ↔ _
  unfold andThen
  split
  next failed => simp [failed]
  next a before middle succeeded =>
    simp only [succeeded]
    split
    next failed => simp [failed]
    next other after last succeeded' =>
      constructor
      · intro same
        cases same
        exact ⟨a, before, middle, after, rfl, succeeded', rfl⟩
      · rintro ⟨_, _, _, _, same, finished, rfl⟩
        cases same
        rw [succeeded'] at finished
        cases finished
        rfl

theorem pure_ok {a value : α} :
    (pure a : Lowering α) s = .ok value code s' ↔ value = a ∧ code = [] ∧ s' = s := by
  show Outcome.ok a [] s = _ ↔ _
  constructor
  · rintro ⟨⟩
    simp
  · rintro ⟨rfl, rfl, rfl⟩
    rfl

theorem result_ok {a value : α} :
    result a s = .ok value code s' ↔ value = a ∧ code = [] ∧ s' = s := pure_ok

theorem fail_ok {cause : CompileError.Cause} {span : Span} {value : α} :
    ¬ fail cause span s = .ok value code s' := by
  intro success
  cases success

theorem emit_ok {emitted : List Instruction} {value : Unit} :
    emit emitted s = .ok value code s' ↔ code = emitted ∧ s' = s := by
  show Outcome.ok () emitted s = _ ↔ _
  constructor
  · rintro ⟨⟩
    simp
  · rintro ⟨rfl, rfl⟩
    rfl

theorem emit_bind_ok {emitted : List Instruction} {next : Unit → Lowering α} {value : α} :
    (emit emitted >>= next) s = .ok value code s' ↔
      ∃ after, next () s = .ok value after s' ∧ code = emitted ++ after := by
  rw [bind_ok]
  constructor
  · rintro ⟨_, before, middle, after, emitted', finished, rfl⟩
    obtain ⟨rfl, rfl⟩ := emit_ok.mp emitted'
    exact ⟨after, finished, rfl⟩
  · rintro ⟨after, finished, rfl⟩
    exact ⟨(), emitted, s, after, rfl, finished, rfl⟩

/-- A computation without instructions only hands on its result. -/
theorem bind_of_silent {first : Lowering α} {next : α → Lowering β} {a : α} {middle : Supply}
    (silent : first s = .ok a [] middle) : (first >>= next) s = next a middle := by
  show andThen first next s = _
  simp only [andThen, silent, List.nil_append]
  split
  next failed => rw [failed]
  next succeeded => rw [succeeded]

theorem fresh_bind (next : Nat → Lowering α) :
    (fresh >>= next) s = next s.register s.withoutRegister :=
  bind_of_silent rfl

theorem mark_bind (next : Nat → Lowering α) : (mark >>= next) s = next s.register s :=
  bind_of_silent rfl

theorem givenSince_bind (start : Nat) (next : List Nat → Lowering α) :
    (givenSince start >>= next) s = next (List.range' start (s.register - start)) s :=
  bind_of_silent rfl

/-- The label of a place in the function being lowered. -/
def Env.label (env : Env) (number : Nat) (suffix : String) : String :=
  env.stem ++ "_" ++ toString number ++ "_" ++ suffix

theorem freshLabel_bind (suffix : String) (next : String → Lowering α) :
    (freshLabel env suffix >>= next) s = next (env.label s.number suffix) s.withoutNumber :=
  bind_of_silent rfl

theorem require_ok {note : Option α} {key : Note.Key} {node : Node Tag} {value : α} :
    require note key node s = .ok value code s' ↔ note = some value ∧ code = [] ∧ s' = s := by
  unfold require
  split
  · rw [result_ok]
    simp [eq_comm]
  · simp [fail_ok]

theorem require_bind_ok {note : Option α} {key : Note.Key} {node : Node Tag}
    {next : α → Lowering β} {value : β} :
    (require note key node >>= next) s = .ok value code s' ↔
      ∃ a, note = some a ∧ next a s = .ok value code s' := by
  rw [bind_ok]
  simp only [require_ok]
  constructor
  · rintro ⟨a, _, _, after, ⟨found, rfl, rfl⟩, finished, rfl⟩
    exact ⟨a, found, finished⟩
  · rintro ⟨a, found, finished⟩
    exact ⟨a, [], s, code, ⟨found, rfl, rfl⟩, finished, rfl⟩

theorem precededBy_ok {pending : Instruction} {settled : α → Instruction} {body : Lowering α}
    {value : α} :
    precededBy pending settled body s = .ok value code s' ↔
      ∃ inner, body s = .ok value inner s' ∧ code = settled value :: inner := by
  unfold precededBy
  split
  next failed => simp [failed]
  next a inner last succeeded =>
    rw [succeeded]
    constructor
    · rintro ⟨⟩
      exact ⟨inner, rfl, rfl⟩
    · rintro ⟨_, ⟨⟩, rfl⟩
      rfl

end Computations

section Lookups

/-- Whether a declaration has a slot in the function being lowered. -/
def Env.owns (env : Env) (declaration : Nat) : Prop :=
  ∃ locals, (env.annotations.get env.owner).locals = some locals ∧
    locals.containsNode declaration = true

theorem slotOf_bind_ok {declaration : Node Tag} {name : String} {span : Span}
    {next : Nat → Lowering α} {value : α} :
    (slotOf env declaration name span >>= next) s = .ok value code s' ↔
      env.owns declaration.id ∧ ∃ slot, (env.notes declaration).index = some slot ∧
        next slot s = .ok value code s' := by
  rw [bind_ok]
  simp only [slotOf]
  by_cases owned : (env.annotations.get env.owner).locals.any (·.containsNode declaration.id)
  · simp only [owned, if_true, ← bind_ok, require_bind_ok]
    simp only [Option.any_eq_true] at owned
    simp [Env.owns, owned]
  · simp only [owned, if_false, Bool.false_eq_true, fail_ok, false_and, exists_false]
    simp only [Option.any_eq_true] at owned
    simp [Env.owns, owned]

/-- The declaration that a use refers to. -/
def Env.declaration? (env : Env) (use : Node Tag) : Option (Node Tag) :=
  (env.notes use).binding.bind env.find?

theorem storeOf_ok {declaration : Node Tag} {name : String} {span : Span}
    {store : Nat → Nat → Instruction} (success : storeOf declaration name span s = .ok store code s') :
    (∃ tag name' type value, declaration = .declare tag .var name' type value ∧
        store = .storeSlot ∨
      declaration = .declare tag .val name' type value ∧ value.isUnit = true ∧
        store = .storeOnce) ∧ code = [] ∧ s' = s := by
  unfold storeOf at success
  split at success
  next tag name' type value =>
    rw [result_ok] at success
    exact ⟨⟨tag, name', type, value, .inl ⟨rfl, success.1⟩⟩, success.2⟩
  next tag name' type value =>
    split at success
    next unit =>
      rw [result_ok] at success
      exact ⟨⟨tag, name', type, value, .inr ⟨rfl, unit, success.1⟩⟩, success.2⟩
    next => exact absurd success fail_ok
  next => exact absurd success fail_ok
  next => exact absurd success fail_ok

theorem calleeOf_ok {callee : Node Tag} {args : Nat} {trailing : Bool} {span : Span}
    {entry : String} (success : calleeOf env callee args trailing span s = .ok entry code s') :
    trailing = false ∧ (∃ tag name, callee = .leaf tag (.valueId name)) ∧
      (∃ tag name params body result,
        env.declaration? callee = some (.define tag name params body result) ∧
        params.length = args ∧ (env.annotations.get tag.id).address = some entry) ∧
      code = [] ∧ s' = s := by
  unfold calleeOf at success
  split at success
  next => exact absurd success fail_ok
  next plain =>
    split at success
    next tag name =>
      rw [declarationOf, require_bind_ok] at success
      obtain ⟨declaration, found, finished⟩ := success
      split at finished
      next tag' name' params body result =>
        split at finished
        next same =>
          rw [entryOf, require_ok] at finished
          refine ⟨by simpa using plain, ⟨tag, name, rfl⟩, ?_, finished.2⟩
          exact ⟨tag', name', params, body, result, found, same, finished.1⟩
        next => exact absurd finished fail_ok
      next => exact absurd finished fail_ok
    next => exact absurd success fail_ok

end Lookups

section Nodes

variable {tag : Tag} {reg : Nat}

theorem literal_ok {node : Node Tag} (success : literal env node s = .ok reg code s') :
    ∃ index, (env.notes node).constant = some index ∧ reg = s.register ∧
      code = [.loadPool reg index] ∧ s' = s.withoutRegister := by
  simp only [literal, require_bind_ok, fresh_bind, emit_bind_ok, pure_ok] at success
  obtain ⟨index, found, _, ⟨rfl, rfl, rfl⟩, rfl⟩ := success
  exact ⟨index, found, rfl, rfl, rfl⟩

theorem nothing_ok (success : nothing s = .ok reg code s') :
    reg = s.register ∧ code = [.loadConst reg .null] ∧ s' = s.withoutRegister := by
  simp only [nothing, fresh_bind, emit_bind_ok, pure_ok] at success
  obtain ⟨_, ⟨rfl, rfl, rfl⟩, rfl⟩ := success
  exact ⟨rfl, rfl, rfl⟩

/-- A name is read from its slot if it is a variable of the function being lowered, and otherwise
names a function. -/
theorem reference_ok {use : Node Tag} {name : String}
    (success : reference env use name s = .ok reg code s') :
    ∃ declaration, env.declaration? use = some declaration ∧ reg = s.register ∧
      s' = s.withoutRegister ∧
      (((∃ tag mutability name' type value, declaration = .declare tag mutability name' type value) ∨
          ∃ tag name' type, declaration = .param tag name' type) ∧
        env.owns declaration.id ∧
        (∃ slot, (env.notes declaration).index = some slot ∧ code = [.loadSlot reg slot]) ∨
      (∃ tag name' params body result, declaration = .define tag name' params body result) ∧
        ∃ entry, (env.notes declaration).address = some entry ∧
          code = [.loadAddress reg (.label entry)]) := by
  rw [reference, declarationOf, require_bind_ok] at success
  obtain ⟨declaration, found, finished⟩ := success
  refine ⟨declaration, found, ?_⟩
  split at finished
  next tag mutability name' type value =>
    simp only [slotOf_bind_ok, fresh_bind, emit_bind_ok, pure_ok] at finished
    obtain ⟨owned, slot, index, _, ⟨rfl, rfl, rfl⟩, rfl⟩ := finished
    exact ⟨rfl, rfl, .inl ⟨.inl ⟨tag, mutability, name', type, value, rfl⟩, owned, slot, index,
      rfl⟩⟩
  next tag name' type =>
    simp only [slotOf_bind_ok, fresh_bind, emit_bind_ok, pure_ok] at finished
    obtain ⟨owned, slot, index, _, ⟨rfl, rfl, rfl⟩, rfl⟩ := finished
    exact ⟨rfl, rfl, .inl ⟨.inr ⟨tag, name', type, rfl⟩, owned, slot, index, rfl⟩⟩
  next tag name' params body result =>
    simp only [entryOf, require_bind_ok, fresh_bind, emit_bind_ok, pure_ok] at finished
    obtain ⟨entry, address, _, ⟨rfl, rfl, rfl⟩, rfl⟩ := finished
    exact ⟨rfl, rfl, .inr ⟨⟨tag, name', params, body, result, rfl⟩, entry, address, rfl⟩⟩
  next => exact absurd finished fail_ok

theorem visit_statements_ok {body : List (Node Tag)} {span : Span}
    (success : (do
      match ← visitStatements env none body with
      | some last => return last
      | none => fail .emptyBlock span : Lowering Nat) s = .ok reg code s') :
    visitStatements env none body s = .ok (some reg) code s' := by
  rw [bind_ok] at success
  obtain ⟨last, before, middle, after, lowered, finished, rfl⟩ := success
  split at finished
  next last =>
    rw [pure_ok] at finished
    obtain ⟨rfl, rfl, rfl⟩ := finished
    simpa using lowered
  next => exact absurd finished fail_ok

theorem visit_block_ok {body : List (Node Tag)}
    (success : visit env (.block tag body) s = .ok reg code s') :
    visitStatements env none body s = .ok (some reg) code s' := by
  rw [visit] at success
  exact visit_statements_ok success

theorem visit_program_ok {name : String} {body : List (Node Tag)}
    (success : visit env (.program tag name body) s = .ok reg code s') :
    visitStatements env none body s = .ok (some reg) code s' := by
  rw [visit] at success
  exact visit_statements_ok success

/-- The instructions of a function, between the address of its code and the label past it. -/
def functionCode (reg : Nat) (entry : String) (slots : Nat) (given : List Nat)
    (body : List Instruction) (last : Nat) : List Instruction :=
  [.loadAddress reg (.label entry), .jump (.label (entry ++ "_end")), .label entry,
    .reserve slots, .save given] ++ body ++
  [.copy resultReg last, .restore given, .ret, .label (entry ++ "_end")]

theorem visit_define_ok {name : String} {params : List (Node Tag)} {body : Node Tag}
    {type : Option String}
    (success : visit env (.define tag name params body type) s = .ok reg code s') :
    ∃ entry locals last inner, (env.annotations.get tag.id).address = some entry ∧
      (env.annotations.get tag.id).locals = some locals ∧ reg = s.register ∧
      visit { env with owner := tag.id, stem := entry } body s.withoutRegister =
        .ok last inner s' ∧
      code = functionCode reg entry locals.size
        (List.range' (s.register + 1) (s'.register - (s.register + 1))) inner last := by
  rw [visit] at success
  simp only [entryOf, require_bind_ok, fresh_bind, emit_bind_ok, mark_bind] at success
  obtain ⟨entry, address, locals, noted, after, finished, rfl⟩ := success
  rw [bind_ok] at finished
  obtain ⟨⟨last, given⟩, before, middle, after, body', closing, rfl⟩ := finished
  obtain ⟨inner, lowered, rfl⟩ := precededBy_ok.mp body'
  rw [bind_ok] at lowered
  obtain ⟨last', inner, s₁, _, lowered, rest, rfl⟩ := lowered
  simp only [givenSince_bind, pure_ok, Prod.mk.injEq] at rest
  obtain ⟨⟨rfl, rfl⟩, rfl, rfl⟩ := rest
  simp only [emit_bind_ok, pure_ok] at closing
  obtain ⟨_, ⟨rfl, rfl, rfl⟩, rfl⟩ := closing
  exact ⟨entry, locals, last, inner, address, noted, rfl, lowered, by simp [functionCode]⟩

theorem visit_declare_ok {mutability : Mutability} {name : String} {type : Option String}
    {value : Node Tag}
    (success : visit env (.declare tag mutability name type value) s = .ok reg code s') :
    ∃ slot inner, visit env value s = .ok reg inner s' ∧
      (env.annotations.get tag.id).index = some slot ∧
      code = inner ++ [.storeSlot reg slot] := by
  rw [visit, bind_ok] at success
  obtain ⟨src, inner, _, _, lowered, stored, rfl⟩ := success
  simp only [require_bind_ok, emit_bind_ok, pure_ok] at stored
  obtain ⟨slot, index, _, ⟨rfl, rfl, rfl⟩, rfl⟩ := stored
  exact ⟨slot, inner, lowered, index, by simp⟩

theorem visit_assign_ok {name : String} {value : Node Tag}
    (success : visit env (.assign tag name value) s = .ok reg code s') :
    ∃ (declaration : Node Tag) (store : Nat → Nat → Instruction) (slot : Nat)
        (inner : List Instruction),
      env.declaration? (.assign tag name value) = some declaration ∧
      (∃ tag' name' type initial, declaration = .declare tag' .var name' type initial ∧
          store = .storeSlot ∨
        declaration = .declare tag' .val name' type initial ∧ initial.isUnit = true ∧
          store = .storeOnce) ∧
      env.owns declaration.id ∧
      (env.notes declaration).index = some slot ∧ visit env value s = .ok reg inner s' ∧
      code = inner ++ [store reg slot] := by
  rw [visit, declarationOf, require_bind_ok] at success
  obtain ⟨declaration, found, success⟩ := success
  rw [bind_ok] at success
  obtain ⟨store, _, _, _, chosen, success, rfl⟩ := success
  obtain ⟨kind, rfl, rfl⟩ := storeOf_ok chosen
  rw [slotOf_bind_ok] at success
  obtain ⟨owned, slot, index, success⟩ := success
  rw [bind_ok] at success
  obtain ⟨src, inner, _, _, lowered, stored, rfl⟩ := success
  simp only [emit_bind_ok, pure_ok] at stored
  obtain ⟨_, ⟨rfl, rfl, rfl⟩, rfl⟩ := stored
  exact ⟨declaration, store, slot, inner, found, kind, owned, index, lowered, by simp⟩

theorem visit_branch_ok {pred yes no : Node Tag}
    (success : visit env (.branch tag pred yes no) s = .ok reg code s') :
    ∃ test left right before first second s₁ s₂ s₃, visit env pred s = .ok test before s₁ ∧
      visit env yes s₁.withoutNumber.withoutNumber = .ok left first s₂ ∧
      visit env no s₂ = .ok right second s₃ ∧ reg = s₃.register ∧ s' = s₃.withoutRegister ∧
      code = before ++
        [.unset [left, right], .branchZero test (.label (env.label s₁.number "else"))] ++ first ++
        [.jump (.label (env.label (s₁.number + 1) "end")),
          .label (env.label s₁.number "else")] ++ second ++
        [.label (env.label (s₁.number + 1) "end"), .phi reg left right] := by
  rw [visit, bind_ok] at success
  obtain ⟨test, before, s₁, _, lowered, success, rfl⟩ := success
  simp only [freshLabel_bind] at success
  rw [bind_ok] at success
  obtain ⟨⟨left, right⟩, _, s₃, _, halves, closing, rfl⟩ := success
  simp only [fresh_bind, emit_bind_ok, pure_ok] at closing
  obtain ⟨_, ⟨rfl, rfl, rfl⟩, rfl⟩ := closing
  obtain ⟨_, inner, rfl⟩ := precededBy_ok.mp halves
  rw [emit_bind_ok] at inner
  obtain ⟨_, inner, rfl⟩ := inner
  rw [bind_ok] at inner
  obtain ⟨left', first, s₂, _, loweredYes, inner, rfl⟩ := inner
  rw [emit_bind_ok] at inner
  obtain ⟨_, inner, rfl⟩ := inner
  rw [bind_ok] at inner
  obtain ⟨right', second, _, _, loweredNo, inner, rfl⟩ := inner
  simp only [emit_bind_ok, pure_ok, Prod.mk.injEq] at inner
  obtain ⟨_, ⟨⟨rfl, rfl⟩, rfl, rfl⟩, rfl⟩ := inner
  exact ⟨test, left, right, before, first, second, s₁, s₂, s₃, lowered, loweredYes, loweredNo,
    rfl, rfl, by simp⟩

theorem visit_loop_ok {pred body : Node Tag}
    (success : visit env (.loop tag pred body) s = .ok reg code s') :
    ∃ test last first second s₁ s₂,
      visit env pred s.withoutNumber.withoutNumber = .ok test first s₁ ∧
      visit env body s₁ = .ok last second s₂ ∧ reg = s₂.register ∧ s' = s₂.withoutRegister ∧
      code = [.label (env.label s.number "begin")] ++ first ++
        [.branchZero test (.label (env.label (s.number + 1) "end"))] ++ second ++
        [.jump (.label (env.label s.number "begin")), .label (env.label (s.number + 1) "end"),
          .loadConst reg .null] := by
  rw [visit] at success
  simp only [freshLabel_bind, emit_bind_ok] at success
  obtain ⟨_, success, rfl⟩ := success
  rw [bind_ok] at success
  obtain ⟨test, first, s₁, _, loweredPred, success, rfl⟩ := success
  rw [emit_bind_ok] at success
  obtain ⟨_, success, rfl⟩ := success
  rw [bind_ok] at success
  obtain ⟨last, second, s₂, _, loweredBody, success, rfl⟩ := success
  rw [emit_bind_ok] at success
  obtain ⟨_, closing, rfl⟩ := success
  obtain ⟨rfl, rfl, rfl⟩ := nothing_ok closing
  exact ⟨test, last, first, second, s₁, s₂, loweredPred, loweredBody, rfl, rfl, by simp⟩

/-- An operator is one of five operations or of six comparisons. -/
theorem operation_cases {op : String} {instruction : Nat → Nat → Nat → Instruction}
    (supported : operation? op = some instruction) :
    (∃ arith, instruction = .arith arith) ∨ ∃ compare, instruction = .compare compare := by
  unfold operation? at supported
  iterate 5
    rcases ite_eq_iff.mp supported with ⟨_, ⟨⟩⟩ | ⟨-, supported⟩
    · exact .inl ⟨_, rfl⟩
  iterate 6
    rcases ite_eq_iff.mp supported with ⟨_, ⟨⟩⟩ | ⟨-, supported⟩
    · exact .inr ⟨_, rfl⟩
  cases supported

theorem visit_binary_ok {op : String} {left right : Node Tag}
    (success : visit env (.binary tag op left right) s = .ok reg code s') :
    ∃ instruction a b first second s₁ s₂, operation? op = some instruction ∧
      visit env left s = .ok a first s₁ ∧ visit env right s₁ = .ok b second s₂ ∧
      reg = s₂.register ∧ s' = s₂.withoutRegister ∧
      code = first ++ second ++ [instruction reg a b] := by
  rw [visit] at success
  cases supported : operation? op with
  | none =>
    simp only [supported] at success
    exact absurd success fail_ok
  | some instruction =>
    simp only [supported] at success
    rw [bind_ok] at success
    obtain ⟨a, first, s₁, _, loweredLeft, success, rfl⟩ := success
    rw [bind_ok] at success
    obtain ⟨b, second, s₂, _, loweredRight, success, rfl⟩ := success
    simp only [fresh_bind, emit_bind_ok, pure_ok] at success
    obtain ⟨_, ⟨rfl, rfl, rfl⟩, rfl⟩ := success
    exact ⟨instruction, a, b, first, second, s₁, s₂, rfl, loweredLeft, loweredRight, rfl, rfl,
      by simp⟩

theorem visit_call_ok {callee : Node Tag} {args : List (Node Tag)}
    {trailing : Option (Node Tag)}
    (success : visit env (.call tag callee args trailing) s = .ok reg code s') :
    trailing = none ∧ (∃ tag' name, callee = .leaf tag' (.valueId name)) ∧
      ∃ entry regs inner s₁,
        (∃ tag' name params body type,
          env.declaration? callee = some (.define tag' name params body type) ∧
          params.length = args.length ∧ (env.annotations.get tag'.id).address = some entry) ∧
        visitAll env args s = .ok regs inner s₁ ∧ reg = s₁.register ∧ s' = s₁.withoutRegister ∧
        code = inner ++ [.call (.label entry) regs, .copy reg resultReg] := by
  rw [visit, bind_ok] at success
  obtain ⟨entry, _, _, _, found, success, rfl⟩ := success
  obtain ⟨plain, named, function, rfl, rfl⟩ := calleeOf_ok found
  rw [bind_ok] at success
  obtain ⟨regs, inner, s₁, _, lowered, success, rfl⟩ := success
  simp only [fresh_bind, emit_bind_ok, pure_ok] at success
  obtain ⟨_, ⟨_, ⟨rfl, rfl, rfl⟩, rfl⟩, rfl⟩ := success
  exact ⟨by simpa using plain, named, entry, regs, inner, s₁, function, lowered, rfl, rfl,
    by simp⟩

theorem visit_aggregate_ok {kind : Aggregate} {elements : List (Node Tag)}
    (success : visit env (.aggregate tag kind elements) s = .ok reg code s') :
    ∃ regs inner s₁, visitAll env elements s = .ok regs inner s₁ ∧ reg = s₁.register ∧
      s' = s₁.withoutRegister ∧
      code = inner ++ .newChunk reg regs.length :: cellStores reg 0 regs := by
  rw [visit, bind_ok] at success
  obtain ⟨regs, inner, s₁, _, lowered, success, rfl⟩ := success
  simp only [fresh_bind, emit_bind_ok, pure_ok] at success
  obtain ⟨_, ⟨rfl, rfl, rfl⟩, rfl⟩ := success
  exact ⟨regs, inner, s₁, lowered, rfl, rfl, by simp⟩

theorem visitAll_cons_ok {node : Node Tag} {rest : List (Node Tag)} {regs : List Nat}
    (success : visitAll env (node :: rest) s = .ok regs code s') :
    ∃ first others before after s₁, visit env node s = .ok first before s₁ ∧
      visitAll env rest s₁ = .ok others after s' ∧ regs = first :: others ∧
      code = before ++ after := by
  rw [visitAll, bind_ok] at success
  obtain ⟨first, before, s₁, _, lowered, success, rfl⟩ := success
  rw [bind_ok] at success
  obtain ⟨others, after, _, _, loweredRest, finished, rfl⟩ := success
  obtain ⟨rfl, rfl, rfl⟩ := pure_ok.mp finished
  exact ⟨first, others, before, after, s₁, lowered, loweredRest, rfl, by simp⟩

theorem visitAll_nil_ok {regs : List Nat} (success : visitAll env [] s = .ok regs code s') :
    regs = [] ∧ code = [] ∧ s' = s := by
  rw [visitAll] at success
  exact pure_ok.mp success

theorem visitStatements_nil_ok {last last' : Option Nat}
    (success : visitStatements env last [] s = .ok last' code s') :
    last' = last ∧ code = [] ∧ s' = s := by
  rw [visitStatements] at success
  exact pure_ok.mp success

theorem visitStatements_cons_ok {node : Node Tag} {rest : List (Node Tag)}
    {last last' : Option Nat}
    (success : visitStatements env last (node :: rest) s = .ok last' code s') :
    node.isNoop = true ∧ visitStatements env last rest s = .ok last' code s' ∨
    node.isNoop = false ∧ ∃ here before after s₁, visit env node s = .ok here before s₁ ∧
      visitStatements env (some here) rest s₁ = .ok last' after s' ∧ code = before ++ after := by
  rw [visitStatements] at success
  split at success
  next noop => exact .inl ⟨noop, success⟩
  next real =>
    rw [bind_ok] at success
    obtain ⟨here, before, s₁, after, lowered, loweredRest, rfl⟩ := success
    exact .inr ⟨by simpa using real, here, before, after, s₁, lowered, loweredRest, rfl⟩

end Nodes

end Lowering

/-- What lowering a document does. -/
theorem Document.compile_ok {document document' : Document} {compiled : Compiled}
    (success : document.compile = .ok (document', compiled)) :
    ∃ tag name body annotations names locals code s', document.root = .program tag name body ∧
      document.root.preorder.foldlM Lowering.giveAddress (document.annotations, {}) =
        .ok (annotations, names) ∧
      (annotations.get tag.id).locals = some locals ∧
      Lowering.visit ⟨document.root.preorder, annotations, tag.id, name⟩ document.root
        ⟨{}, names⟩ = .ok compiled.result code s' ∧
      compiled.code = (if 0 < locals.size then [.reserve locals.size] else []) ++ code ++ [.halt] ∧
      document' = { document with annotations } := by
  unfold compile at success
  split at success
  next tag name body root =>
    split at success
    next => cases success
    next annotations names given =>
      split at success
      next => cases success
      next locals noted =>
        dsimp only at success
        split at success
        next => cases success
        next result code s' lowered =>
          cases success
          exact ⟨tag, name, body, annotations, names, locals, code, s', root, given, noted, lowered,
            rfl, rfl⟩
  next => cases success

end ScriptVM
