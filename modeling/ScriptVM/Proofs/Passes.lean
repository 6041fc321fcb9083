import ScriptVM.Constant
import ScriptVM.Document.Typing
import ScriptVM.Lowering
import ScriptVM.Proofs.Evaluation
import ScriptVM.Proofs.Walks

/-!
The passes after names and slots: types, constants and addresses.

None of them changes what is noted. Collecting constants leaves the value of every literal in the
pool, at the place noted with the literal.
-/
namespace ScriptVM

open Annotations (Extends)

namespace Typing

variable {α : Type}

/-- A property of walks that the steps of giving types have, and that walks one after the other
keep. -/
structure Closed (holds : ∀ {α : Type}, Walk α → Prop) : Prop where
  pure : ∀ {α : Type} (a : α), holds (Pure.pure a : Walk α)
  bind : ∀ {α β : Type} {x : Walk α} {f : α → Walk β}, holds x → (∀ a, holds (f a)) →
    holds (x >>= f)
  refuse : ∀ {α : Type} (cause : TypeError.Cause) (tag : Tag), holds (refuse cause tag : Walk α)
  record : ∀ (tag : Tag) (type : Ty), holds (record tag type)
  declarationOf : ∀ node : Node Tag, holds (declarationOf node)
  typeOf : ∀ declaration : Nat, holds (typeOf declaration)
  announce : ∀ (id : Nat) (type : Ty), holds (announce id type)

namespace Closed

variable {holds : ∀ {α : Type}, Walk α → Prop}

theorem declared (closed : Closed holds) (tag : Tag) (type : Option String) :
    holds (Typing.declared tag type) := by
  unfold Typing.declared
  split
  next => exact closed.pure _
  next =>
    split
    next => exact closed.pure _
    next => exact closed.refuse _ _

theorem accept (closed : Closed holds) (tag : Tag) (result : Except TypeError.Cause α) :
    holds (Typing.accept tag result) := by
  cases result with
  | ok a => exact closed.pure a
  | error cause => exact closed.refuse cause tag

theorem ite {condition : Prop} [Decidable condition] {x y : Walk α} (yes : holds x) (no : holds y) :
    holds (if condition then x else y) := by
  split
  · exact yes
  · exact no

theorem checkPredicate (closed : Closed holds) (pred : Node Tag) (type : Ty) :
    holds (Typing.checkPredicate pred type) :=
  ite (closed.pure ()) (closed.refuse _ _)

mutual

/-- What the steps of giving types have in common, giving types to a tree has too. -/
theorem visit (closed : Closed holds) : ∀ node : Node Tag, holds (Typing.visit node)
  | .leaf tag kind => by
    cases kind with
    | valueId name =>
      refine closed.bind (closed.declarationOf _) fun _ => ?_
      exact closed.bind (closed.typeOf _) fun _ => closed.record _ _
    | _ => exact closed.record _ _
  | .param tag name type => closed.bind (closed.declared tag type) fun _ => closed.record _ _
  | .program _ _ body | .block _ body =>
    closed.bind (closed.visitStatements .unit body) fun _ => closed.record _ _
  | .define tag name params body result => by
    refine closed.bind (closed.visitAll params) fun _ => ?_
    refine closed.bind (closed.declared tag result) fun result => ?_
    refine closed.bind (closed.announce _ _) fun _ => closed.bind (closed.visit body) fun _ => ?_
    cases result with
    | none => exact closed.record _ _
    | some result => exact ite (closed.record _ _) (closed.refuse _ _)
  | .declare tag _ name type value => by
    refine closed.bind (closed.visit value) fun _ => ite (closed.refuse _ _) ?_
    refine closed.bind (closed.declared tag type) fun _ => ?_
    exact closed.bind (closed.accept _ _) fun _ => closed.record _ _
  | .assign tag name value => by
    refine closed.bind (closed.visit value) fun _ => ite (closed.refuse _ _) ?_
    refine closed.bind (closed.declarationOf _) fun _ => closed.bind (closed.typeOf _) fun _ => ?_
    exact ite (closed.record _ _) (closed.refuse _ _)
  | .branch tag pred yes no => by
    refine closed.bind (closed.visit pred) fun _ => ?_
    refine closed.bind (closed.checkPredicate _ _) fun _ => ?_
    refine closed.bind (closed.visit yes) fun _ => ?_
    exact closed.bind (closed.visit no) fun _ => closed.record _ _
  | .orElse tag body => closed.bind (closed.visit body) fun _ => closed.record _ _
  | .loop tag pred body => by
    refine closed.bind (closed.visit pred) fun _ => ?_
    refine closed.bind (closed.checkPredicate _ _) fun _ => ?_
    exact closed.bind (closed.visit body) fun _ => closed.record _ _
  | .binary tag op left right => by
    refine closed.bind (closed.visit left) fun _ => closed.bind (closed.visit right) fun _ => ?_
    exact closed.bind (closed.accept _ _) fun _ => closed.record _ _
  | .call tag callee args none => by
    refine closed.bind (closed.visit callee) fun _ => closed.bind (closed.visitAll args) fun _ => ?_
    exact closed.bind (closed.accept _ _) fun _ => closed.record _ _
  | .call tag callee args (some trailing) => by
    refine closed.bind (closed.visit callee) fun _ => closed.bind (closed.visitAll args) fun _ => ?_
    refine closed.bind (closed.visit trailing) fun _ => ?_
    exact closed.bind (closed.accept _ _) fun _ => closed.record _ _
  | .aggregate tag .tuple elements =>
    closed.bind (closed.visitAll elements) fun _ => closed.record _ _
  | .aggregate tag .list elements =>
    closed.bind (closed.visitElements tag none elements) fun _ => closed.record _ _

theorem visitAll (closed : Closed holds) : ∀ nodes : List (Node Tag), holds (Typing.visitAll nodes)
  | [] => closed.pure _
  | node :: rest =>
    closed.bind (closed.visit node) fun _ =>
      closed.bind (closed.visitAll rest) fun _ => closed.pure _

theorem visitStatements (closed : Closed holds) : ∀ (last : Ty) (nodes : List (Node Tag)),
    holds (Typing.visitStatements last nodes)
  | _, [] => closed.pure _
  | _, node :: rest => closed.bind (closed.visit node) fun _ => closed.visitStatements _ rest

theorem visitElements (closed : Closed holds) :
    ∀ (tag : Tag) (first : Option Ty) (nodes : List (Node Tag)),
      holds (Typing.visitElements tag first nodes)
  | _, _, [] => closed.pure _
  | tag, none, node :: rest =>
    closed.bind (closed.visit node) fun _ => closed.visitElements tag _ rest
  | tag, some _, node :: rest =>
    closed.bind (closed.visit node) fun _ =>
      ite (closed.visitElements tag _ rest) (closed.refuse _ _)

end

end Closed

theorem record_ok {tag : Tag} {st st' : State} {type type' : Ty} :
    record tag type st = .ok (type', st') ↔ type' = type ∧
      st.annotations.set tag.id (.type type) = .ok st'.annotations ∧
      st'.signatures = st.signatures := by
  rw [record, Walks.get_bind, Walks.lift_bind_ok]
  simp only [Annotations.write_ok, Walks.set_bind, Walks.pure_ok]
  constructor
  · rintro ⟨annotations, written, rfl, rfl⟩
    exact ⟨rfl, written, rfl⟩
  · rintro ⟨rfl, written, same⟩
    exact ⟨st'.annotations, written, rfl, by rw [← same]⟩

/-- A walk that leaves what is noted. -/
def Leaves (x : Walk α) : Prop :=
  ∀ st a st', x st = .ok (a, st') → st.annotations.Extends st'.annotations

theorem Leaves.record (tag : Tag) (type : Ty) : Leaves (Typing.record tag type) := by
  intro st a st' success
  obtain ⟨_, written, _⟩ := record_ok.mp success
  exact Annotations.extends_of_set written

theorem closed_leaves : Closed @Leaves where
  pure a := by
    intro st a' st' success
    obtain ⟨_, rfl⟩ := Walks.pure_ok.mp success
    exact Extends.refl _
  bind first rest := by
    intro st b st' success
    obtain ⟨a, st₁, one, two⟩ := Walks.bind_ok.mp success
    exact (first st a st₁ one).trans (rest a st₁ b st' two)
  refuse cause tag := fun _ _ _ success => absurd success Walks.throw_ok
  record := Leaves.record
  declarationOf node := by
    intro st a st' success
    rw [Typing.declarationOf, Walks.get_bind] at success
    cases bound : (st.annotations.get node.id).binding with
    | none =>
      rw [bound] at success
      exact absurd success Walks.throw_ok
    | some declaration =>
      rw [bound] at success
      obtain ⟨_, rfl⟩ := Walks.pure_ok.mp success
      exact Extends.refl _
  typeOf declaration := by
    intro st a st' success
    rw [Typing.typeOf, Walks.get_bind] at success
    cases known : (st.annotations.get declaration).type with
    | none =>
      rw [known] at success
      obtain ⟨_, rfl⟩ := Walks.pure_ok.mp success
      exact Extends.refl _
    | some type =>
      rw [known] at success
      obtain ⟨_, rfl⟩ := Walks.pure_ok.mp success
      exact Extends.refl _
  announce id type := by
    intro st a st' success
    cases success
    exact Extends.refl _

/-- Giving types leaves what is noted. -/
theorem leaves_visit (node : Node Tag) : Leaves (visit node) :=
  closed_leaves.visit node

theorem leaves_visitAll (nodes : List (Node Tag)) : Leaves (visitAll nodes) :=
  closed_leaves.visitAll nodes

theorem leaves_visitStatements (last : Ty) (nodes : List (Node Tag)) :
    Leaves (visitStatements last nodes) :=
  closed_leaves.visitStatements last nodes

theorem leaves_visitElements (tag : Tag) (first : Option Ty) (nodes : List (Node Tag)) :
    Leaves (visitElements tag first nodes) :=
  closed_leaves.visitElements tag first nodes

end Typing

/-- What checking types does. -/
theorem Document.checkTypes_ok {document typed : Document}
    (success : document.checkTypes = .ok typed) :
    ∃ type last, Typing.visit document.root ⟨document.annotations, []⟩ = .ok (type, last) ∧
      typed = { document with annotations := last.annotations } := by
  unfold checkTypes inferTypes at success
  cases finished : (Typing.visit document.root).run ⟨document.annotations, []⟩ with
  | error e =>
    rw [finished] at success
    cases success
  | ok result =>
    obtain ⟨type, last⟩ := result
    rw [finished] at success
    cases success
    exact ⟨type, last, finished, rfl⟩

/-- Checking types leaves the tree and what is noted. -/
theorem Document.extends_of_checkTypes {document typed : Document}
    (success : document.checkTypes = .ok typed) :
    typed.root = document.root ∧ document.annotations.Extends typed.annotations := by
  obtain ⟨type, last, walked, rfl⟩ := Document.checkTypes_ok success
  exact ⟨rfl, Typing.leaves_visit document.root _ _ _ walked⟩

namespace Constants

variable {state state' : State} {node : Node Tag}

/-- A node was placed: values stay where they are, and if the node is a literal, its value stands at
the place noted with it. -/
structure Step (node : Node Tag) (state state' : State) : Prop where
  annotations : state.annotations.Extends state'.annotations
  pool : ∀ (index : Nat) (value : Value), state.pool.values[index]? = some value →
    state'.pool.values[index]? = some value
  literal : ∀ (tag : Tag) (kind : Leaf), node = .leaf tag kind → kind.isLiteral = true →
    ∃ (index : Nat) (value : Value),
      (state'.annotations.get tag.id).get? .constant = some (.constant index) ∧
      kind.literal? = some value ∧ state'.pool.values[index]? = some value

theorem step_ok_cases (success : step state node = .ok state') :
    ∃ place pool, Constants.place state node = .ok (place, pool) ∧
      ((place = none ∧ state' = { state with pool }) ∨
        ∃ index annotations, place = some index ∧
          state.annotations.set node.id (.constant index) = .ok annotations ∧
          state' = ⟨pool, annotations⟩) := by
  unfold step at success
  cases placed : Constants.place state node with
  | error e =>
    rw [placed] at success
    cases success
  | ok result =>
    obtain ⟨place, pool⟩ := result
    refine ⟨place, pool, rfl, ?_⟩
    rw [placed] at success
    cases place with
    | none =>
      cases success
      exact .inl ⟨rfl, rfl⟩
    | some index =>
      cases written : state.annotations.set node.id (.constant index) with
      | error e =>
        simp only [bind, Except.bind, written] at success
        cases success
      | ok annotations =>
        simp only [bind, Except.bind, written] at success
        cases success
        exact .inr ⟨index, annotations, rfl, written, rfl⟩

/-- A literal that is placed stands where it is placed, and nothing else moves. -/
theorem place_ok {place : Option Nat} {pool : Pool}
    (no : state.pool.values[Pool.falseIndex]? = some (.int 0))
    (yes : state.pool.values[Pool.trueIndex]? = some (.int 1))
    (success : Constants.place state node = .ok (place, pool)) :
    (∀ (index : Nat) (value : Value), state.pool.values[index]? = some value →
      pool.values[index]? = some value) ∧
    ∀ (tag : Tag) (kind : Leaf), node = .leaf tag kind → kind.isLiteral = true →
      ∃ (index : Nat) (value : Value), place = some index ∧ kind.literal? = some value ∧
        pool.values[index]? = some value := by
  have pushed : ∀ (added : Value) (index : Nat) (value : Value),
      state.pool.values[index]? = some value →
      (state.pool.push added).values[index]? = some value := by
    intro added index value found
    have inside := (Array.getElem?_eq_some_iff.mp found).1
    rw [Pool.push, Array.getElem?_push_lt inside, ← found, Array.getElem?_eq_getElem inside]
  have added : ∀ value : Value, (state.pool.push value).values[state.pool.size]? = some value := by
    intro value
    rw [Pool.push, Pool.size, Array.getElem?_push_size]
  unfold Constants.place at success
  split at success
  next tag text =>
    cases known : Literal.int? text with
    | none =>
      unfold Literal.value at success
      simp only [known, bind, Except.bind] at success
      cases success
    | some value =>
      unfold Literal.value at success
      simp only [known, bind, Except.bind, pure, Except.pure, Except.ok.injEq, Prod.mk.injEq]
        at success
      obtain ⟨rfl, rfl⟩ := success
      refine ⟨pushed value, ?_⟩
      rintro _ _ ⟨⟩ _
      exact ⟨_, value, rfl, known, added value⟩
  next tag text =>
    cases known : Literal.real? text with
    | none =>
      unfold Literal.value at success
      simp only [known, bind, Except.bind] at success
      cases success
    | some value =>
      unfold Literal.value at success
      simp only [known, bind, Except.bind, pure, Except.pure, Except.ok.injEq, Prod.mk.injEq]
        at success
      obtain ⟨rfl, rfl⟩ := success
      refine ⟨pushed value, ?_⟩
      rintro _ _ ⟨⟩ _
      exact ⟨_, value, rfl, known, added value⟩
  next tag text =>
    cases success
    refine ⟨fun _ _ found => found, ?_⟩
    rintro _ _ ⟨⟩ _
    refine ⟨_, _, rfl, rfl, ?_⟩
    by_cases holds : text = "true"
    · simpa [holds, Value.ofBool] using yes
    · simpa [holds, Value.ofBool] using no
  next notInt notReal notBool =>
    cases success
    refine ⟨fun _ _ found => found, ?_⟩
    rintro tag kind rfl isLiteral
    cases kind with
    | int text => exact absurd rfl (notInt tag text)
    | real text => exact absurd rfl (notReal tag text)
    | bool text => exact absurd rfl (notBool tag text)
    | _ => cases isLiteral

theorem step_ok (no : state.pool.values[Pool.falseIndex]? = some (.int 0))
    (yes : state.pool.values[Pool.trueIndex]? = some (.int 1))
    (success : step state node = .ok state') : Step node state state' := by
  obtain ⟨place, pool, placed, noted⟩ := step_ok_cases success
  obtain ⟨kept, literal⟩ := place_ok no yes placed
  rcases noted with ⟨rfl, rfl⟩ | ⟨index, annotations, rfl, written, rfl⟩
  · refine ⟨Extends.refl _, kept, ?_⟩
    intro tag kind isLeaf isLiteral
    obtain ⟨_, _, impossible, _⟩ := literal tag kind isLeaf isLiteral
    cases impossible
  · refine ⟨Annotations.extends_of_set written, kept, ?_⟩
    intro tag kind isLeaf isLiteral
    obtain ⟨_, value, same, known, stands⟩ := literal tag kind isLeaf isLiteral
    cases same
    subst isLeaf
    exact ⟨index, value, Annotations.some_of_set written, known, stands⟩

/-- Placing nodes one after the other leaves the value of every literal among them in the pool. -/
theorem steps_ok {nodes : List (Node Tag)}
    (no : state.pool.values[Pool.falseIndex]? = some (.int 0))
    (yes : state.pool.values[Pool.trueIndex]? = some (.int 1))
    (success : nodes.foldlM step state = .ok state') :
    state.annotations.Extends state'.annotations ∧
    (∀ (index : Nat) (value : Value), state.pool.values[index]? = some value →
      state'.pool.values[index]? = some value) ∧
    ∀ (tag : Tag) (kind : Leaf), .leaf tag kind ∈ nodes → kind.isLiteral = true →
      ∃ (index : Nat) (value : Value),
        (state'.annotations.get tag.id).get? .constant = some (.constant index) ∧
        kind.literal? = some value ∧ state'.pool.values[index]? = some value := by
  induction nodes generalizing state with
  | nil =>
    cases success
    exact ⟨Extends.refl _, fun _ _ found => found, nofun⟩
  | cons node rest ih =>
    rw [List.foldlM_cons] at success
    cases stepped : step state node with
    | error e =>
      rw [stepped] at success
      cases success
    | ok state₁ =>
      rw [stepped] at success
      have first := step_ok no yes stepped
      obtain ⟨extended, kept, literal⟩ := ih (first.pool _ _ no) (first.pool _ _ yes) success
      refine ⟨first.annotations.trans extended,
        fun index value found => kept index value (first.pool index value found), ?_⟩
      intro tag kind member isLiteral
      rcases List.mem_cons.mp member with isNode | inRest
      · obtain ⟨index, value, noted, known, stands⟩ := first.literal tag kind isNode.symm isLiteral
        exact ⟨index, value, extended _ _ _ noted, known, kept index value stands⟩
      · exact literal tag kind inRest isLiteral

end Constants

/-- Collecting constants leaves the tree and what is noted, and the value of every literal stands in
the pool at the place noted with it. -/
theorem Document.literals_of_collectConstants {document collected : Document} {pool : Pool}
    (success : document.collectConstants = .ok (collected, pool)) :
    collected.root = document.root ∧ document.annotations.Extends collected.annotations ∧
    ∀ (tag : Tag) (kind : Leaf), .leaf tag kind ∈ document.root.preorder → kind.isLiteral = true →
      ∃ (index : Nat) (value : Value),
        (collected.annotations.get tag.id).get? .constant = some (.constant index) ∧
        kind.literal? = some value ∧ pool.values[index]? = some value := by
  unfold collectConstants at success
  cases finished : document.root.preorder.foldlM Constants.step ⟨{}, document.annotations⟩ with
  | error e =>
    rw [finished] at success
    cases success
  | ok last =>
    rw [finished] at success
    cases success
    obtain ⟨extended, _, literal⟩ := Constants.steps_ok rfl rfl finished
    exact ⟨rfl, extended, literal⟩

namespace Lowering

/-- A function is noted with the next free label, and no other node is noted. -/
theorem giveAddress_ok {state state' : Annotations × FreshNames} {node : Node Tag}
    (success : giveAddress state node = .ok state') :
    (∃ tag name params body type, node = .define tag name params body type ∧
      state'.2.next = state.2.next + 1 ∧
      state.1.set tag.id (.address (FreshNames.uniqueName name state.2.next)) = .ok state'.1) ∨
    (∀ tag name params body type, node ≠ .define tag name params body type) ∧ state' = state := by
  unfold giveAddress at success
  split at success
  next tag name params body type =>
    dsimp only at success
    split at success
    next written =>
      cases success
      exact .inl ⟨tag, name, params, body, type, rfl, rfl, written⟩
    next => cases success
  next notFunction =>
    cases success
    exact .inr ⟨notFunction, rfl⟩

theorem extends_of_giveAddress {state state' : Annotations × FreshNames} {node : Node Tag}
    (success : giveAddress state node = .ok state') : state.1.Extends state'.1 := by
  rcases giveAddress_ok success with ⟨_, _, _, _, _, _, _, written⟩ | ⟨_, rfl⟩
  · exact Annotations.extends_of_set written
  · exact Extends.refl _

theorem extends_of_giveAddresses {nodes : List (Node Tag)} {state state' : Annotations × FreshNames}
    (success : nodes.foldlM giveAddress state = .ok state') : state.1.Extends state'.1 := by
  induction nodes generalizing state with
  | nil =>
    cases success
    exact Extends.refl _
  | cons node rest ih =>
    rw [List.foldlM_cons] at success
    cases given : giveAddress state node with
    | error e =>
      rw [given] at success
      cases success
    | ok state₁ =>
      rw [given] at success
      exact (extends_of_giveAddress given).trans (ih success)

end Lowering

end ScriptVM
