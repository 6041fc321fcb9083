import ScriptVM.Proofs.Diagnostics

/-!
Checking types is advisory.

A document whose types have been checked differs from itself before in the types noted, and in
nothing else. Constants, addresses and instructions are made without a look at the types, so what a
text comes to is the same whether its types are checked or not, unless the types are refused. They
are refused for what they are and for no other reason.
-/
namespace ScriptVM

open Walks (Agree Proper)

/-- Whether a refusal is about a name. -/
def PassError.isAboutName : PassError → Bool
  | .name _ => true
  | _ => false

/-- A refusal that is neither internal nor about a name is about a type. -/
theorem PassError.eq_type {error : PassError} (proper : error.isInternal = false)
    (notName : error.isAboutName = false) : ∃ cause span, error = .type cause span := by
  cases error with
  | type cause span => exact ⟨cause, span, rfl⟩
  | name => cases notName
  | _ => cases proper

namespace Notes

/-- The notes without the type. -/
def untyped (notes : Notes) : Notes :=
  { notes with type := none }

theorem get?_untyped (notes : Notes) {key : Note.Key} (other : key ≠ .type) :
    notes.untyped.get? key = notes.get? key := by
  cases key with
  | type => exact absurd rfl other
  | _ => rfl

theorem untyped_put (notes : Notes) {note : Note} (other : note.key ≠ .type) :
    (notes.put note).untyped = notes.untyped.put note := by
  cases note with
  | type => exact absurd rfl other
  | _ => rfl

end Notes

namespace Annotations

variable {before middle after one two : Annotations} {id : Nat}

/-- The same is noted but for the types. -/
def SameUntyped (one two : Annotations) : Prop :=
  ∀ id, (one.get id).untyped = (two.get id).untyped

theorem SameUntyped.refl (annotations : Annotations) : annotations.SameUntyped annotations :=
  fun _ => rfl

theorem SameUntyped.trans (first : before.SameUntyped middle) (second : middle.SameUntyped after) :
    before.SameUntyped after :=
  fun id => (first id).trans (second id)

/-- What is read of the notes without the type is the same. -/
theorem SameUntyped.read {α : Type} (same : one.SameUntyped two) (part : Notes → α)
    (untyped : ∀ notes : Notes, part notes.untyped = part notes) (id : Nat) :
    part (one.get id) = part (two.get id) := by
  rw [← untyped, same id, untyped]

/-- What writing a note comes to. -/
theorem set_eq (annotations : Annotations) (id : Nat) (note : Note) :
    annotations.set id note =
      match (annotations.get id).get? note.key with
      | some _ => .error (.alreadySet note.key)
      | none => .ok (annotations.replace id ((annotations.get id).put note)) := by
  unfold set Notes.set
  cases (annotations.get id).get? note.key <;> rfl

theorem sameUntyped_of_set_type {type : Ty} (success : before.set id (.type type) = .ok after) :
    before.SameUntyped after := by
  have absent := none_of_set success
  rw [set_eq, absent] at success
  cases success
  intro other
  rw [get_replace]
  split
  next same =>
    subst same
    rfl
  next => rfl

/-- A note that is not a type can be written to both or to neither. -/
theorem SameUntyped.set (same : one.SameUntyped two) (id : Nat) (note : Note)
    (other : note.key ≠ .type) :
    Agree SameUntyped (one.set id note) (two.set id note) := by
  have present : (one.get id).get? note.key = (two.get id).get? note.key :=
    same.read (·.get? note.key) (fun notes => notes.get?_untyped other) id
  rw [set_eq, set_eq, present]
  split
  next => exact .error _
  next =>
    refine .ok fun node => ?_
    rw [get_replace, get_replace]
    split
    next => rw [Notes.untyped_put _ other, Notes.untyped_put _ other, same id]
    next => exact same node

end Annotations

open Annotations (SameUntyped)

namespace Typing

variable {α : Type}

/-- A walk that changes nothing but types, and does not refuse a name. -/
def Types (x : Walk α) : Prop :=
  ∀ st, Proper PassError.isAboutName
    (fun result => st.annotations.SameUntyped result.2.annotations) (x st)

theorem closed_types : Closed @Types where
  pure a := fun st => SameUntyped.refl st.annotations
  bind first rest := by
    intro st
    refine (first st).bind ?_
    rintro ⟨a, st₁⟩ same
    exact (rest a st₁).weaken fun _ same' => same.trans same'
  refuse cause tag := fun _ => rfl
  record tag type := by
    intro st
    rw [Typing.record, Walks.get_bind]
    cases written : st.annotations.set tag.id (.type type) with
    | error e =>
      rw [Annotations.write, written]
      rfl
    | ok annotations =>
      rw [Annotations.write, written]
      exact Annotations.sameUntyped_of_set_type written
  declarationOf node := by
    intro st
    rw [Typing.declarationOf, Walks.get_bind]
    cases (st.annotations.get node.id).binding with
    | none => rfl
    | some declaration => exact SameUntyped.refl st.annotations
  typeOf declaration := by
    intro st
    rw [Typing.typeOf, Walks.get_bind]
    cases (st.annotations.get declaration).type with
    | none => exact SameUntyped.refl st.annotations
    | some type => exact SameUntyped.refl st.annotations
  announce id type := fun st => SameUntyped.refl st.annotations

end Typing

/-- A document with the same tree and the same notes but for the types. -/
structure Document.SameUntyped (one two : Document) : Prop where
  root : one.root = two.root
  annotations : one.annotations.SameUntyped two.annotations

/-- Checking types changes nothing but types, and does not refuse a name. -/
theorem Document.types_of_checkTypes (document : Document) :
    Proper PassError.isAboutName document.SameUntyped document.checkTypes := by
  have visited := Typing.closed_types.visit document.root ⟨document.annotations, []⟩
  unfold checkTypes inferTypes
  simp only [StateT.run]
  cases walked : Typing.visit document.root ⟨document.annotations, []⟩ with
  | error e =>
    rw [walked] at visited
    exact visited
  | ok result =>
    rw [walked] at visited
    exact ⟨rfl, visited⟩

section Folds

variable {σ ε : Type}

/-- Folds whose steps agree agree. -/
theorem Walks.agree_foldlM {agree : σ → σ → Prop} {step : σ → Node Tag → Except ε σ}
    (steps : ∀ one two node, agree one two → Agree agree (step one node) (step two node))
    (nodes : List (Node Tag)) {one two : σ} (start : agree one two) :
    Agree agree (nodes.foldlM step one) (nodes.foldlM step two) := by
  induction nodes generalizing one two with
  | nil => exact .ok start
  | cons node rest ih =>
    rw [List.foldlM_cons, List.foldlM_cons]
    exact (steps one two node start).bind fun _ _ next => ih next

end Folds

namespace Constants

/-- The same pool, and the same noted but for the types. -/
structure SameUntyped (one two : State) : Prop where
  pool : one.pool = two.pool
  annotations : one.annotations.SameUntyped two.annotations

theorem agree_step (one two : State) (node : Node Tag) (same : SameUntyped one two) :
    Agree SameUntyped (step one node) (step two node) := by
  have placed : place one node = place two node := by
    unfold place
    rw [same.pool]
  unfold step
  rw [placed]
  refine (Agree.refl (place two node)).bind ?_
  rintro ⟨found, pool⟩ _ rfl
  cases found with
  | none => exact .ok ⟨rfl, same.annotations⟩
  | some index =>
    have written := same.annotations.set node.id (.constant index) (by simp [Note.key])
    dsimp only
    generalize one.annotations.set node.id (.constant index) = first at written ⊢
    generalize two.annotations.set node.id (.constant index) = second at written ⊢
    cases written with
    | error e => exact .error _
    | ok annotations => exact .ok ⟨rfl, annotations⟩

end Constants

namespace Lowering

theorem sameUntyped_giveAddress (one two : Annotations × FreshNames) (node : Node Tag)
    (same : one.1.SameUntyped two.1 ∧ one.2 = two.2) :
    Agree (fun one two => one.1.SameUntyped two.1 ∧ one.2 = two.2) (giveAddress one node)
      (giveAddress two node) := by
  unfold giveAddress
  split
  next tag name params body type =>
    rw [same.2]
    have written := same.1.set tag.id (.address (two.2.unique name).1) (by simp [Note.key])
    dsimp only
    generalize one.1.set tag.id (.address (two.2.unique name).1) = first at written ⊢
    generalize two.1.set tag.id (.address (two.2.unique name).1) = second at written ⊢
    cases written with
    | error e => exact .error _
    | ok annotations => exact .ok ⟨annotations, rfl⟩
  next => exact .ok same

/-- The same is known, but for the types. -/
structure Env.SameUntyped (one two : Env) : Prop where
  nodes : one.nodes = two.nodes
  annotations : one.annotations.SameUntyped two.annotations
  owner : one.owner = two.owner
  stem : one.stem = two.stem

namespace Env.SameUntyped

variable {one two : Env}

theorem declarationOf (same : one.SameUntyped two) :
    Lowering.declarationOf one = Lowering.declarationOf two := by
  funext node
  have binding : (one.notes node).binding = (two.notes node).binding :=
    same.annotations.read Notes.binding (fun _ => rfl) node.id
  have find : one.find? = two.find? := by
    unfold find?
    rw [same.nodes]
  rw [Lowering.declarationOf, Lowering.declarationOf, binding, find]

theorem slotOf (same : one.SameUntyped two) : Lowering.slotOf one = Lowering.slotOf two := by
  funext declaration name span
  have index : (one.notes declaration).index = (two.notes declaration).index :=
    same.annotations.read Notes.index (fun _ => rfl) declaration.id
  have locals : (one.annotations.get two.owner).locals = (two.annotations.get two.owner).locals :=
    same.annotations.read Notes.locals (fun _ => rfl) two.owner
  rw [Lowering.slotOf, Lowering.slotOf, same.owner, index, locals]

theorem entryOf (same : one.SameUntyped two) : Lowering.entryOf one = Lowering.entryOf two := by
  funext declaration
  have address : (one.notes declaration).address = (two.notes declaration).address :=
    same.annotations.read Notes.address (fun _ => rfl) declaration.id
  rw [Lowering.entryOf, Lowering.entryOf, address]

theorem freshLabel (same : one.SameUntyped two) :
    Lowering.freshLabel one = Lowering.freshLabel two := by
  funext suffix
  rw [Lowering.freshLabel, Lowering.freshLabel, same.stem]

theorem literal (same : one.SameUntyped two) : Lowering.literal one = Lowering.literal two := by
  funext node
  have constant : (one.notes node).constant = (two.notes node).constant :=
    same.annotations.read Notes.constant (fun _ => rfl) node.id
  rw [Lowering.literal, Lowering.literal, constant]

theorem reference (same : one.SameUntyped two) :
    Lowering.reference one = Lowering.reference two := by
  funext node name
  rw [Lowering.reference, Lowering.reference, same.declarationOf, same.slotOf, same.entryOf]

theorem calleeOf (same : one.SameUntyped two) : Lowering.calleeOf one = Lowering.calleeOf two := by
  funext callee args trailing span
  unfold Lowering.calleeOf
  rw [same.declarationOf, same.entryOf]

theorem within (same : one.SameUntyped two) (owner : Nat) (stem : String) :
    SameUntyped { one with owner, stem } { two with owner, stem } :=
  ⟨same.nodes, same.annotations, rfl, rfl⟩

theorem visitAll (nodes : List (Node Tag))
    (each : ∀ node ∈ nodes, visit one node = visit two node) :
    Lowering.visitAll one nodes = Lowering.visitAll two nodes := by
  induction nodes with
  | nil => simp
  | cons node rest ih =>
    simp [each node (by simp), ih fun other member => each other (by simp [member])]

theorem visitStatements (nodes : List (Node Tag))
    (each : ∀ node ∈ nodes, visit one node = visit two node) (last : Option Nat) :
    Lowering.visitStatements one last nodes = Lowering.visitStatements two last nodes := by
  induction nodes generalizing last with
  | nil => simp
  | cons node rest ih =>
    have following := ih fun other member => each other (by simp [member])
    simp [each node (by simp), following]

/-- Lowering does not look at types. -/
theorem visit (same : one.SameUntyped two) (node : Node Tag) :
    Lowering.visit one node = Lowering.visit two node := by
  induction node using Node.childInduction generalizing one two with
  | step node ih =>
    have children := fun child isChild => ih child isChild same
    cases node with
    | leaf tag kind => cases kind <;> simp [same.literal, same.reference]
    | param => simp
    | program tag name body | block tag body =>
      simp [visitStatements body children]
    | define tag name params body type =>
      have locals : (one.notes (.define tag name params body type)).locals =
          (two.notes (.define tag name params body type)).locals :=
        same.annotations.read Notes.locals (fun _ => rfl) tag.id
      have within := fun entry => ih body (by simp [Node.children]) (same.within tag.id entry)
      simp [same.entryOf, locals, within]
    | declare tag mutability name type value =>
      have index : (one.notes (.declare tag mutability name type value)).index =
          (two.notes (.declare tag mutability name type value)).index :=
        same.annotations.read Notes.index (fun _ => rfl) tag.id
      simp [children value (by simp [Node.children]), index]
    | assign tag name value =>
      simp [same.declarationOf, same.slotOf,
        children value (by simp [Node.children])]
    | branch tag pred yes no =>
      simp [same.freshLabel, children pred (by simp [Node.children]),
        children yes (by simp [Node.children]), children no (by simp [Node.children])]
    | orElse => simp
    | loop tag pred body =>
      simp [same.freshLabel, children pred (by simp [Node.children]),
        children body (by simp [Node.children])]
    | binary tag op left right =>
      simp [children left (by simp [Node.children]),
        children right (by simp [Node.children])]
    | call tag callee args trailing =>
      have inArgs := visitAll args fun arg isArg => children arg (by simp [Node.children, isArg])
      simp [same.calleeOf, inArgs]
    | aggregate tag kind elements =>
      simp [visitAll elements children]

end Env.SameUntyped

end Lowering

namespace Document

variable {one two : Document}

theorem SameUntyped.collectConstants (same : one.SameUntyped two) :
    Agree (fun one two => one.1.SameUntyped two.1 ∧ one.2 = two.2) one.collectConstants
      two.collectConstants := by
  unfold Document.collectConstants
  rw [same.root]
  have start : Constants.SameUntyped ⟨{}, one.annotations⟩ ⟨{}, two.annotations⟩ :=
    ⟨rfl, same.annotations⟩
  refine (Walks.agree_foldlM Constants.agree_step two.root.preorder start).bind ?_
  intro first second placed
  exact .ok ⟨⟨rfl, placed.annotations⟩, placed.pool⟩

theorem SameUntyped.assignAddresses (same : one.SameUntyped two) :
    Agree (fun one two => one.1.SameUntyped two.1 ∧ one.2 = two.2) one.assignAddresses
      two.assignAddresses := by
  unfold Document.assignAddresses
  rw [same.root]
  exact Walks.agree_foldlM Lowering.sameUntyped_giveAddress two.root.preorder
    ⟨same.annotations, rfl⟩

/-- Documents that differ in types only are lowered to the same instructions. -/
theorem SameUntyped.compile (same : one.SameUntyped two) :
    Agree (fun one two => one.2 = two.2) one.compile two.compile := by
  have addresses := same.assignAddresses
  unfold Document.compile
  rw [same.root]
  split
  next tag name body isProgram =>
    generalize one.assignAddresses = first at addresses ⊢
    generalize two.assignAddresses = second at addresses ⊢
    cases addresses with
    | error e => exact .error _
    | @ok first second given =>
      obtain ⟨firstNotes, names⟩ := first
      obtain ⟨secondNotes, _⟩ := second
      obtain ⟨given, rfl⟩ := given
      have locals : (firstNotes.get tag.id).locals = (secondNotes.get tag.id).locals :=
        given.read Notes.locals (fun _ => rfl) tag.id
      have env : Lowering.Env.SameUntyped ⟨two.root.preorder, firstNotes, tag.id, name⟩
          ⟨two.root.preorder, secondNotes, tag.id, name⟩ := ⟨rfl, given, rfl, rfl⟩
      dsimp only
      rw [locals, env.visit]
      cases (secondNotes.get tag.id).locals with
      | none => exact .error _
      | some locals =>
        dsimp only
        split
        next => exact .error _
        next => exact .ok rfl
  next => exact .error _

/-- Documents that differ in types only come to the same program or are refused for the same
reason. -/
theorem SameUntyped.program (same : one.SameUntyped two) :
    Program.ofDocument one = Program.ofDocument two := by
  apply Agree.eq
  unfold Program.ofDocument
  refine (same.collectConstants.mapError _).bind ?_
  rintro ⟨first, pool⟩ ⟨second, _⟩ ⟨same, rfl⟩
  refine (same.compile.mapError _).bind ?_
  rintro ⟨_, compiled⟩ ⟨_, _⟩ rfl
  exact .refl _

end Document

namespace Program

/-- Checking types is the last of the passes. -/
theorem analyse_true (parsed : Document) :
    analyse true parsed = analyse false parsed >>= Document.checkTypes := by
  unfold analyse
  simp

/-- The types of an analysed text are refused, or its document with types comes to the same program
as without. -/
theorem checkTypes_cases {anonymous source : String} {parsed document : Document}
    (parse : Document.parse anonymous source = .ok parsed)
    (analysed : analyse false parsed = .ok document) :
    (∃ cause span, document.checkTypes = .error (.type cause span)) ∨
      ∃ typed, document.checkTypes = .ok typed ∧ ofDocument typed = ofDocument document := by
  have proper := Document.proper_analyse true parse
  rw [analyse_true, analysed] at proper
  change Proper _ _ document.checkTypes at proper
  have types := document.types_of_checkTypes
  cases checked : document.checkTypes with
  | error e =>
    rw [checked] at proper types
    obtain ⟨cause, span, rfl⟩ := PassError.eq_type proper types
    exact .inl ⟨cause, span, rfl⟩
  | ok typed =>
    rw [checked] at types
    exact .inr ⟨typed, rfl, types.program.symm⟩

end Program

/-- With types checked, a text is refused for its types by the check of them, or comes to what it
comes to without: the same program, or the same refusal at the same stage. -/
theorem Session.types_advisory (session : Session) (source : String) :
    (∃ parsed document cause span, Document.parse session.anonymousName source = .ok parsed ∧
      Program.analyse false parsed = .ok document ∧
      document.checkTypes = .error (.type cause span) ∧
      ({ session with typeCheck := true }.compile source).1 = .error (.pass (.type cause span))) ∨
    ({ session with typeCheck := true }.compile source).1 =
      ({ session with typeCheck := false }.compile source).1 := by
  show (∃ parsed document cause span, _ ∧ _ ∧ _ ∧
    Program.ofSource true session.anonymousName source = .error (.pass (.type cause span))) ∨
    Program.ofSource true session.anonymousName source =
      Program.ofSource false session.anonymousName source
  unfold Program.ofSource
  cases parse : Document.parse session.anonymousName source with
  | error e => exact .inr rfl
  | ok parsed =>
    cases analysed : Program.analyse false parsed with
    | error e =>
      refine .inr ?_
      show ((Program.analyse true parsed).mapError _ >>= _) =
        ((Program.analyse false parsed).mapError _ >>= _)
      rw [Program.analyse_true, analysed]
      rfl
    | ok document =>
      have analysedTyped : Program.analyse true parsed = document.checkTypes := by
        rw [Program.analyse_true, analysed]
        rfl
      rcases Program.checkTypes_cases parse analysed with
        ⟨cause, span, refused⟩ | ⟨typed, checked, same⟩
      · refine .inl ⟨parsed, document, cause, span, rfl, analysed, refused, ?_⟩
        show ((Program.analyse true parsed).mapError _ >>= _) = _
        rw [analysedTyped, refused]
        rfl
      · refine .inr ?_
        show ((Program.analyse true parsed).mapError _ >>= _) =
          ((Program.analyse false parsed).mapError _ >>= _)
        rw [analysedTyped, checked, analysed]
        exact same

end ScriptVM
