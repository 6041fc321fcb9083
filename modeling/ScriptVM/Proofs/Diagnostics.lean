import ScriptVM.Proofs.Correctness
import ScriptVM.Proofs.PassesNoted
import ScriptVM.Proofs.Stages

/-!
A text is refused for what it says, never for a fault of the passes.

Every pass leaves the notes that the later ones look for, on every node that they look at, and
writes none that is there already. So the refusals that speak of notes, or of trees that no text
has, never come up.
-/
namespace ScriptVM

open Annotations (Extends Confined)
open Walks (Proper)

/-- A refusal of a constant that no source text should cause. -/
def ConstantError.isInternal : ConstantError → Bool
  | .note _ => true
  | .invalid .. => false

/-- A refusal to lower a node that no source text should cause. -/
def CompileError.isInternal (error : CompileError) : Bool :=
  match error.cause with
  | .rootNotModule _ | .note _ | .missing .. => true
  | _ => false

/-- A refusal that no source text should cause: it speaks of notes that are missing or written
twice, or of a tree that no text has. -/
def Error.isInternal : Error → Bool
  | .pass error => error.isInternal
  | .constant error => error.isInternal
  | .compile error => error.isInternal
  | .parse _ | .assembly _ | .runtime _ => false

/-- A fold that writes one note about each of some nodes that are all different. -/
theorem Walks.proper_foldlM {σ ε : Type} {internal : ε → Bool} {nodes : List (Node Tag)}
    {step : σ → Node Tag → Except ε σ} {annotations : σ → Annotations} {key : Note.Key}
    (writes : ∀ st node, ((annotations st).get node.id).get? key = none →
      Proper internal (fun st' => Confined [key] [node.id] (annotations st) (annotations st'))
        (step st node))
    (distinct : (nodes.map Node.id).Nodup) {st : σ}
    (absent : ∀ node ∈ nodes, ((annotations st).get node.id).get? key = none) :
    Proper internal
      (fun st' => Confined [key] (nodes.map Node.id) (annotations st) (annotations st'))
      (nodes.foldlM step st) := by
  induction nodes generalizing st with
  | nil => exact .refl _ _ _
  | cons node rest ih =>
    obtain ⟨notInRest, distinctRest⟩ := List.nodup_cons.mp distinct
    rw [List.foldlM_cons]
    refine (writes st node (absent node (by simp))).bind fun st₁ confined => ?_
    refine (ih distinctRest fun other member => ?_).weaken fun st₂ confinedRest =>
      confined.append confinedRest
    rw [confined other.id key (.inr ?_)]
    · exact absent other (by simp [member])
    · intro same
      rw [List.mem_singleton] at same
      exact notInRest (List.mem_map.mpr ⟨other, member, same⟩)

namespace Constants

theorem proper_step (state : State) (node : Node Tag)
    (absent : (state.annotations.get node.id).get? .constant = none) :
    Proper ConstantError.isInternal
      (fun state' => Confined [.constant] [node.id] state.annotations state'.annotations)
      (step state node) := by
  have placed : Proper ConstantError.isInternal (fun _ => True) (place state node) := by
    unfold place
    split
    next tag text =>
      unfold Literal.value
      cases Literal.int? text with
      | none => rfl
      | some value => trivial
    next tag text =>
      unfold Literal.value
      cases Literal.real? text with
      | none => rfl
      | some value => trivial
    next => exact trivial
    next => exact trivial
  unfold step
  refine placed.bind ?_
  rintro ⟨_ | index, pool⟩ _
  · exact .refl _ _ _
  · have absent' : (state.annotations.get node.id).get? (Note.constant index).key = none := absent
    obtain ⟨annotations, written⟩ := Annotations.exists_set absent'
    simp only [written]
    exact Annotations.confined_of_set (by simp [Note.key]) (by simp) written

end Constants

/-- Constants can be collected from a tree whose literals have no places yet. -/
theorem Document.proper_collectConstants {document : Document} {keys : List Note.Key}
    (isTree : document.IsTree) (only : document.annotations.Only keys) (notYet : .constant ∉ keys) :
    Proper ConstantError.isInternal
      (fun collected => collected.1.annotations.Only (.constant :: keys))
      document.collectConstants := by
  have absent : ∀ node ∈ document.root.preorder,
      (document.annotations.get node.id).get? .constant = none :=
    fun node _ => only node.id _ notYet
  refine (Walks.proper_foldlM Constants.proper_step isTree absent).bind ?_
  intro state confined
  exact confined.only only

theorem Lowering.proper_giveAddress (state : Annotations × FreshNames) (node : Node Tag)
    (absent : (state.1.get node.id).get? .address = none) :
    Proper CompileError.isInternal
      (fun state' => Confined [.address] [node.id] state.1 state'.1) (giveAddress state node) := by
  cases node with
  | define tag name params body type =>
    let label := (state.2.unique name).1
    have absent' : (state.1.get tag.id).get? (Note.address label).key = none := absent
    obtain ⟨annotations, written⟩ := Annotations.exists_set absent'
    simp only [giveAddress]
    rw [written]
    exact Annotations.confined_of_set (by simp [Note.key]) (by simp [Node.id, Node.tag]) written
  | _ => exact .refl _ _ _

/-- Functions can be given labels where none has one yet. -/
theorem Document.proper_assignAddresses {document : Document} {keys : List Note.Key}
    (isTree : document.IsTree) (only : document.annotations.Only keys) (notYet : .address ∉ keys) :
    Proper CompileError.isInternal (fun _ => True) document.assignAddresses := by
  have absent : ∀ node ∈ document.root.preorder,
      (document.annotations.get node.id).get? .address = none :=
    fun node _ => only node.id _ notYet
  have given := @Walks.proper_foldlM _ _ _ _ _ Prod.fst _ Lowering.proper_giveAddress isTree
    (document.annotations, {}) absent
  exact given.weaken fun _ _ => trivial

namespace Lowering

variable {α β : Type} {env : Env} {node : Node Tag} {post : α → Prop} {post' : β → Prop}

/-- Lowering gives a result of which something holds, or refuses for what the source says. -/
def Sound (post : α → Prop) (x : Lowering α) : Prop :=
  ∀ s, match x s with
    | .ok value _ _ => post value
    | .error e _ => e.isInternal = false

theorem Sound.bind {x : Lowering α} {f : α → Lowering β} (first : Sound post x)
    (rest : ∀ a, post a → Sound post' (f a)) : Sound post' (x >>= f) := by
  intro s
  show match andThen x f s with
    | .ok value _ _ => post' value
    | .error e _ => e.isInternal = false
  have here := first s
  unfold andThen
  cases ran : x s with
  | error e code =>
    rw [ran] at here
    exact here
  | ok value code s₁ =>
    rw [ran] at here
    have next := rest value here s₁
    cases went : f value s₁ with
    | error e code' =>
      rw [went] at next
      simpa only [went] using next
    | ok value' code' s₂ =>
      rw [went] at next
      simpa only [went] using next

/-- Nothing need be known of the first result. -/
theorem Sound.next {x : Lowering α} {f : α → Lowering β} (first : Sound (fun _ => True) x)
    (rest : ∀ a, Sound post' (f a)) : Sound post' (x >>= f) :=
  first.bind fun a _ => rest a

theorem Sound.precededBy {pending : Instruction} {settled : α → Instruction} {body : Lowering α}
    (inside : Sound post body) : Sound post (precededBy pending settled body) := by
  intro s
  have here := inside s
  unfold Lowering.precededBy
  cases ran : body s with
  | error e code =>
    rw [ran] at here
    exact here
  | ok value code s₁ =>
    rw [ran] at here
    exact here

theorem Sound.pure {a : α} (holds : post a) : Sound post (Pure.pure a : Lowering α) :=
  fun _ => holds

theorem Sound.fail {cause : CompileError.Cause} {span : Span}
    (fromSource : CompileError.isInternal ⟨cause, span⟩ = false) :
    Sound post (Lowering.fail cause span : Lowering α) :=
  fun _ => fromSource

theorem sound_emit (code : List Instruction) : Sound (fun _ => True) (emit code) :=
  fun _ => trivial

theorem sound_fresh : Sound (fun _ => True) fresh :=
  fun _ => trivial

theorem sound_freshLabel (suffix : String) : Sound (fun _ => True) (freshLabel env suffix) :=
  fun _ => trivial

theorem sound_require {note : Option α} {key : Note.Key} (noted : note ≠ none) :
    Sound (fun _ => True) (require note key node) := by
  cases note with
  | none => exact absurd rfl noted
  | some value => exact fun _ => trivial

/-- What lowering looks for has been noted. -/
structure Env.Annotated (env : Env) : Prop where
  literal : ∀ tag kind, .leaf tag kind ∈ env.nodes → kind.isLiteral = true →
    (env.annotations.get tag.id).constant ≠ none
  bound : ∀ node ∈ env.nodes, Names.isUse node = true →
    ∃ declaration ∈ env.nodes, (env.notes node).binding = some declaration.id
  index : ∀ node ∈ env.nodes, Frames.isVariable node = true → (env.notes node).index ≠ none
  locals : ∀ node ∈ env.nodes, Frames.ownsFrame node = true → (env.notes node).locals ≠ none
  address : ∀ tag name params body type, .define tag name params body type ∈ env.nodes →
    (env.annotations.get tag.id).address ≠ none

theorem sound_declarationOf (annotated : env.Annotated) (member : node ∈ env.nodes)
    (isUse : Names.isUse node = true) :
    Sound (fun declaration => declaration ∈ env.nodes) (declarationOf env node) := by
  obtain ⟨declaration, inside, bound⟩ := annotated.bound node member isUse
  unfold declarationOf
  rw [bound, Option.bind_some]
  cases found : env.find? declaration.id with
  | none =>
    have notThere := List.find?_eq_none.mp found declaration inside
    simp at notThere
  | some other => exact fun _ => List.mem_of_find?_eq_some found

theorem sound_slotOf (annotated : env.Annotated) {declaration : Node Tag} {name : String}
    {span : Span} (member : declaration ∈ env.nodes)
    (isVariable : Frames.isVariable declaration = true) :
    Sound (fun _ => True) (slotOf env declaration name span) := by
  unfold slotOf
  dsimp only
  split
  · exact sound_require (annotated.index declaration member isVariable)
  · exact .fail rfl

theorem sound_entryOf (annotated : env.Annotated) {tag : Tag} {name : String}
    {params : List (Node Tag)} {body : Node Tag} {type : Option String}
    (member : .define tag name params body type ∈ env.nodes) :
    Sound (fun _ => True) (entryOf env (.define tag name params body type)) :=
  sound_require (annotated.address tag name params body type member)

theorem sound_literal (annotated : env.Annotated) {tag : Tag} {kind : Leaf}
    (member : .leaf tag kind ∈ env.nodes) (isLiteral : kind.isLiteral = true) :
    Sound (fun _ => True) (literal env (.leaf tag kind)) := by
  refine (sound_require (annotated.literal tag kind member isLiteral)).next fun _ => ?_
  exact sound_fresh.next fun _ => (sound_emit _).next fun _ => .pure trivial

theorem sound_nothing : Sound (fun _ => True) nothing :=
  fun _ => trivial

theorem sound_reference (annotated : env.Annotated) {name : String} (member : node ∈ env.nodes)
    (isUse : Names.isUse node = true) : Sound (fun _ => True) (reference env node name) := by
  refine (sound_declarationOf annotated member isUse).bind fun declaration inside => ?_
  cases declaration with
  | declare | param =>
    refine (sound_slotOf annotated inside rfl).next fun _ => ?_
    exact sound_fresh.next fun _ => (sound_emit _).next fun _ => .pure trivial
  | define =>
    refine (sound_entryOf annotated inside).next fun _ => ?_
    exact sound_fresh.next fun _ => (sound_emit _).next fun _ => .pure trivial
  | _ => exact .fail rfl

theorem sound_calleeOf (annotated : env.Annotated) {callee : Node Tag} {args : Nat}
    {trailing : Bool} {span : Span} (member : callee ∈ env.nodes) :
    Sound (fun _ => True) (calleeOf env callee args trailing span) := by
  unfold calleeOf
  split
  · exact .fail rfl
  split
  next tag name =>
    refine (sound_declarationOf annotated member rfl).bind fun declaration inside => ?_
    split
    next =>
      split
      · exact sound_entryOf annotated inside
      · exact .fail rfl
    next => exact .fail rfl
  next => exact .fail rfl

theorem sound_storeOf {declaration : Node Tag} {name : String} {span : Span} :
    Sound (fun _ => Frames.isVariable declaration = true) (storeOf declaration name span) := by
  unfold storeOf
  split
  next => exact fun _ => rfl
  next =>
    split
    · exact fun _ => rfl
    · exact .fail rfl
  next => exact .fail rfl
  next => exact .fail rfl

theorem sound_visitAll {nodes : List (Node Tag)}
    (each : ∀ node ∈ nodes, Sound (fun _ => True) (visit env node)) :
    Sound (fun _ => True) (visitAll env nodes) := by
  induction nodes with
  | nil => exact .pure trivial
  | cons node rest ih =>
    rw [visitAll]
    refine (each node (by simp)).next fun _ => ?_
    exact (ih fun other member => each other (by simp [member])).next fun _ => .pure trivial

theorem sound_visitStatements {nodes : List (Node Tag)}
    (each : ∀ node ∈ nodes, Sound (fun _ => True) (visit env node)) (last : Option Nat) :
    Sound (fun _ => True) (visitStatements env last nodes) := by
  induction nodes generalizing last with
  | nil => exact .pure trivial
  | cons node rest ih =>
    have inRest := ih fun other member => each other (by simp [member])
    rw [visitStatements]
    split
    · exact inRest last
    · exact (each node (by simp)).next fun reg => inRest (some reg)

/-- Nodes that are all noted are never refused for their notes. -/
theorem sound_visit (annotated : env.Annotated) (inside : node.preorder ⊆ env.nodes) :
    Sound (fun _ => True) (visit env node) := by
  induction node using Node.childInduction generalizing env with
  | step node ih =>
    have member : node ∈ env.nodes := inside node.self_mem_preorder
    have children : ∀ child ∈ node.children, Sound (fun _ => True) (visit env child) :=
      fun child isChild => ih child isChild annotated
        fun _ below => inside (Node.preorder_subset_of_child isChild below)
    cases node with
    | leaf tag kind =>
      cases kind with
      | int | real | bool =>
        rw [visit]
        exact sound_literal annotated member rfl
      | valueId name =>
        rw [visit]
        exact sound_reference annotated member rfl
      | unit | noop =>
        rw [visit]
        exact sound_nothing
      | typeId | symbolId =>
        rw [visit]
        exact .fail rfl
    | param =>
      rw [visit]
      exact .fail rfl
    | program | block =>
      rw [visit]
      refine (sound_visitStatements children none).next fun last => ?_
      cases last with
      | none => exact .fail rfl
      | some reg => exact .pure trivial
    | define tag name params body type =>
      rw [visit]
      refine (sound_entryOf annotated member).next fun entry => ?_
      refine (sound_require (annotated.locals _ member rfl)).next fun locals => ?_
      refine sound_fresh.next fun dst => (sound_emit _).next fun _ => ?_
      have annotated' : Env.Annotated { env with owner := tag.id, stem := entry } :=
        ⟨annotated.literal, annotated.bound, annotated.index, annotated.locals, annotated.address⟩
      have inBody := ih body (by simp [Node.children]) annotated'
        fun _ below => inside (Node.preorder_subset_of_child (by simp [Node.children]) below)
      refine Sound.next (fun _ => trivial) fun start => ?_
      refine Sound.next ?_ fun given => ?_
      · refine Sound.precededBy (inBody.next fun last => ?_)
        exact fun _ => trivial
      · exact (sound_emit _).next fun _ => .pure trivial
    | declare tag mutability name type value =>
      rw [visit]
      refine (children value (by simp [Node.children])).next fun src => ?_
      refine (sound_require (annotated.index _ member rfl)).next fun slot => ?_
      exact (sound_emit _).next fun _ => .pure trivial
    | assign tag name value =>
      rw [visit]
      refine (sound_declarationOf annotated member rfl).bind fun declaration isNode => ?_
      refine sound_storeOf.bind fun store isVariable => ?_
      refine (sound_slotOf annotated isNode isVariable).next fun slot => ?_
      refine (children value (by simp [Node.children])).next fun src => ?_
      exact (sound_emit _).next fun _ => .pure trivial
    | branch tag pred yes no =>
      rw [visit]
      refine (children pred (by simp [Node.children])).next fun _ => ?_
      refine (sound_freshLabel _).next fun _ => (sound_freshLabel _).next fun _ => ?_
      refine Sound.next ?_ fun regs => ?_
      · refine Sound.precededBy ((sound_emit _).next fun _ => ?_)
        refine (children yes (by simp [Node.children])).next fun _ => ?_
        refine (sound_emit _).next fun _ => ?_
        refine (children no (by simp [Node.children])).next fun _ => ?_
        exact (sound_emit _).next fun _ => .pure trivial
      · exact sound_fresh.next fun _ => (sound_emit _).next fun _ => .pure trivial
    | orElse =>
      rw [visit]
      exact .fail rfl
    | loop tag pred body =>
      rw [visit]
      refine (sound_freshLabel _).next fun _ => (sound_freshLabel _).next fun _ => ?_
      refine (sound_emit _).next fun _ => ?_
      refine (children pred (by simp [Node.children])).next fun _ => ?_
      refine (sound_emit _).next fun _ => ?_
      refine (children body (by simp [Node.children])).next fun _ => ?_
      exact (sound_emit _).next fun _ => sound_nothing
    | binary tag op left right =>
      rw [visit]
      split
      next => exact .fail rfl
      next =>
        refine (children left (by simp [Node.children])).next fun _ => ?_
        refine (children right (by simp [Node.children])).next fun _ => ?_
        exact sound_fresh.next fun _ => (sound_emit _).next fun _ => .pure trivial
    | call tag callee args trailing =>
      have isCallee : callee ∈ env.nodes :=
        inside (Node.preorder_subset_of_child (by simp [Node.children]) callee.self_mem_preorder)
      rw [visit]
      refine (sound_calleeOf annotated isCallee).next fun _ => ?_
      refine (sound_visitAll fun arg isArg => ?_).next fun _ => ?_
      · exact children arg (by simp [Node.children, isArg])
      · refine (sound_emit _).next fun _ => ?_
        exact sound_fresh.next fun _ => (sound_emit _).next fun _ => .pure trivial
    | aggregate tag kind elements =>
      rw [visit]
      refine (sound_visitAll children).next fun _ => ?_
      exact sound_fresh.next fun _ => (sound_emit _).next fun _ => .pure trivial

end Lowering

theorem NamesNoted.extend {root : Node Tag} {annotations annotations' : Annotations}
    (noted : NamesNoted root annotations) (extended : annotations.Extends annotations') :
    NamesNoted root annotations' := by
  refine ⟨fun node member absent => ?_, fun node member isUse => ?_⟩
  · exact noted.scope node member (extended.none_of_none absent)
  · obtain ⟨declaration, inside, found⟩ := noted.bound node member isUse
    exact ⟨declaration, inside, extended _ _ _ found⟩

theorem SlotsNoted.extend {root : Node Tag} {annotations annotations' : Annotations}
    (noted : SlotsNoted root annotations) (extended : annotations.Extends annotations') :
    SlotsNoted root annotations' :=
  ⟨fun node member isVariable absent =>
      noted.index node member isVariable (extended.none_of_none absent),
    fun node member ownsFrame absent =>
      noted.locals node member ownsFrame (extended.none_of_none absent)⟩

namespace Document

/-- A program with what the passes note, and nothing of what comes after them. -/
structure Noted (document : Document) (keys : List Note.Key) : Prop where
  isProgram : ∃ tag name body, document.root = .program tag name body
  isTree : document.IsTree
  names : NamesNoted document.root document.annotations
  slots : SlotsNoted document.root document.annotations
  only : document.annotations.Only keys

/-- More notes on the same tree. -/
theorem Noted.extend {document document' : Document} {keys keys' : List Note.Key}
    (noted : document.Noted keys) (same : document'.root = document.root)
    (extended : document.annotations.Extends document'.annotations)
    (only : document'.annotations.Only keys') : document'.Noted keys' := by
  obtain ⟨isProgram, isTree, names, slots, _⟩ := noted
  unfold IsTree at isTree
  rw [← same] at isProgram isTree names slots
  exact ⟨isProgram, isTree, names.extend extended, slots.extend extended, only⟩

/-- The kinds of note that the passes write. -/
def passKeys : List Note.Key := [.type, .index, .locals, .scope, .binding]

/-- The tree of a text goes through the passes, or is refused for what the text says. -/
theorem proper_analyse (typeCheck : Bool) {anonymous source : String} {parsed : Document}
    (parse : Document.parse anonymous source = .ok parsed) :
    Proper PassError.isInternal (fun analysed => analysed.Noted passKeys)
      (Program.analyse typeCheck parsed) := by
  have numbered := numbered_parse parse
  obtain ⟨tag, name, body, next, rfl, _⟩ :=
    @shaped_parse .all _ _ _ parse trivial fun _ _ _ _ => trivial
  have wrapped := wrapProgram_eq tag name body next {} {}
  have isTree := (numbered_wrapProgram (numbered_joinAlternatives numbered) wrapped).isTree
  unfold Program.analyse
  rw [wrapped]
  refine (proper_resolveNames rfl isTree rfl rfl).bind ?_
  rintro named ⟨sameNamed, names, onlyNames⟩
  unfold IsTree at isTree
  rw [← sameNamed] at isTree names
  refine (proper_assignSlots sameNamed isTree names onlyNames).bind ?_
  rintro slotted ⟨sameSlotted, extended, slots, onlySlots⟩
  rw [← sameSlotted] at isTree names slots
  have noted : slotted.Noted [.index, .locals, .scope, .binding] :=
    ⟨⟨_, _, _, sameSlotted.trans sameNamed⟩, isTree, names.extend extended, slots, onlySlots⟩
  cases typeCheck with
  | false =>
    exact noted.extend rfl (Extends.refl _) fun id key outside =>
      onlySlots id key fun inside => outside (List.mem_cons_of_mem _ inside)
  | true =>
    refine (proper_checkTypes isTree noted.names onlySlots).results.weaken ?_
    rintro typed ⟨onlyTypes, check⟩
    obtain ⟨same, toTyped⟩ := extends_of_checkTypes check
    exact noted.extend same toTyped onlyTypes

/-- Literals and functions are noted too, so lowering finds all that it looks for. -/
theorem Noted.annotated {document : Document} {keys : List Note.Key}
    {state : Annotations × FreshNames} (noted : document.Noted keys)
    (literals : ∀ tag kind, .leaf tag kind ∈ document.root.preorder → kind.isLiteral = true →
      (document.annotations.get tag.id).get? .constant ≠ none)
    (given : document.assignAddresses = .ok state) (owner : Nat) (stem : String) :
    Lowering.Env.Annotated ⟨document.root.preorder, state.1, owner, stem⟩ := by
  have extended := Lowering.extends_of_giveAddresses given
  obtain ⟨_, _, named⟩ := Lowering.numbered_giveAddresses given
  have names := noted.names.extend extended
  have slots := noted.slots.extend extended
  refine ⟨?_, ?_, ?_, ?_, ?_⟩
  · intro tag kind member isLiteral absent
    refine literals tag kind member isLiteral (extended.none_of_none ?_)
    simp [Notes.get?, absent]
  · intro node member isUse
    obtain ⟨declaration, inside, found⟩ := names.bound node member isUse
    exact ⟨declaration, inside, Notes.binding_of_get? found⟩
  · intro node member isVariable absent
    refine slots.index node member isVariable ?_
    simpa [Notes.get?, Lowering.Env.notes] using absent
  · intro node member ownsFrame absent
    refine slots.locals node member ownsFrame ?_
    simpa [Notes.get?, Lowering.Env.notes] using absent
  · intro tag name params body type member absent
    obtain ⟨n, address⟩ := named tag name params body type member
    rw [address] at absent
    cases absent

/-- Lowering a program that has been through all passes fails only for what its text says. -/
theorem Noted.compile_error {document : Document} {keys : List Note.Key} {failure : CompileFailure}
    (noted : document.Noted keys) (notYet : .address ∉ keys)
    (literals : ∀ tag kind, .leaf tag kind ∈ document.root.preorder → kind.isLiteral = true →
      (document.annotations.get tag.id).get? .constant ≠ none)
    (refused : document.compile = .error failure) : failure.error.isInternal = false := by
  obtain ⟨tag, name, body, isProgram⟩ := noted.isProgram
  have addresses := proper_assignAddresses noted.isTree noted.only notYet
  unfold compile at refused
  split at refused
  next tag' name' body' isRoot =>
    split at refused
    next error failed =>
      cases refused
      rw [failed] at addresses
      exact addresses
    next annotations names given =>
      have annotated := noted.annotated literals given tag'.id name'
      split at refused
      next absent =>
        have member : .program tag' name' body' ∈ document.root.preorder :=
          isRoot ▸ document.root.self_mem_preorder
        exact absurd absent (annotated.locals _ member rfl)
      next locals found =>
        have sound := Lowering.sound_visit annotated (List.Subset.refl _) ⟨{}, names⟩
        dsimp only at refused
        split at refused
        next error code failed =>
          cases refused
          rw [failed] at sound
          exact sound
        next => cases refused
  next notProgram => exact absurd isProgram (notProgram tag name body)

end Document

/-- The nodes of a text make a tree, and do so still when alternatives have been joined and the
statements made a function. So no text is refused for notes that are missing or written twice, or
for the shape of its tree. -/
theorem Program.refused_for_source (typeCheck : Bool) (anonymous source : String) :
    (∀ parsed, Document.parse anonymous source = .ok parsed →
      parsed.IsTree ∧ parsed.joinAlternatives.IsTree ∧
      ∃ wrapped, parsed.joinAlternatives.wrapProgram = .ok wrapped ∧ wrapped.IsTree) ∧
    ∀ error, Program.ofSource typeCheck anonymous source = .error error →
      error.isInternal = false := by
  refine ⟨fun parsed parse => ?_, fun error refused => ?_⟩
  · have numbered := Document.numbered_parse parse
    have joined := Document.numbered_joinAlternatives numbered
    obtain ⟨tag, name, body, next, rfl, _⟩ :=
      @Document.shaped_parse .all _ _ _ parse trivial fun _ _ _ _ => trivial
    have wrapped := Document.wrapProgram_eq tag name body next {} {}
    exact ⟨numbered.isTree, joined.isTree, _, wrapped,
      (Document.numbered_wrapProgram joined wrapped).isTree⟩
  unfold ofSource at refused
  rcases bind_mapError_error refused with ⟨cause, _, rfl⟩ | ⟨parsed, parse, refused⟩
  · rfl
  have analysis := Document.proper_analyse typeCheck parse
  rcases bind_mapError_error refused with ⟨cause, failed, rfl⟩ | ⟨analysed, analyse, refused⟩
  · rw [failed] at analysis
    exact analysis
  rw [analyse] at analysis
  have collection := Document.proper_collectConstants analysis.isTree analysis.only (by decide)
  unfold ofDocument at refused
  rcases bind_mapError_error refused with
    ⟨cause, failed, rfl⟩ | ⟨⟨collected, pool⟩, collect, refused⟩
  · rw [failed] at collection
    exact collection
  rw [collect] at collection
  obtain ⟨same, extended, literals⟩ := Document.literals_of_collectConstants collect
  have noted := analysis.extend same extended collection
  rcases bind_mapError_error refused with
    ⟨failure, failed, rfl⟩ | ⟨⟨_, compiled⟩, _, refused⟩
  · refine noted.compile_error (by decide) (fun tag kind member isLiteral => ?_) failed
    rw [same] at member
    obtain ⟨index, _, found, _⟩ := literals tag kind member isLiteral
    rw [found]
    nofun
  rcases bind_mapError_error refused with ⟨cause, _, rfl⟩ | ⟨_, _, impossible⟩
  · rfl
  · cases impossible

/-- A function that uses a variable of the function around it, after a joined alternative. -/
theorem Program.refused_for_source_of_capture :
    ∃ parsed error,
      Document.parse "main" "val x = 1; if (x) \x7b 2 \x7d; else \x7b 3 \x7d; def f() \x7b x \x7d" =
        .ok parsed ∧
      Program.ofSource true "main"
        "val x = 1; if (x) \x7b 2 \x7d; else \x7b 3 \x7d; def f() \x7b x \x7d" =
        .error error ∧
      error.message = "compile error: 1:48-1:49: `x` belongs to an enclosing function; " ++
        "functions cannot capture outer locals" ∧
      parsed.joinAlternatives.IsTree ∧ error.isInternal = false := by
  have accepted : (Document.parse "main"
      "val x = 1; if (x) \x7b 2 \x7d; else \x7b 3 \x7d; def f() \x7b x \x7d").toOption ≠ none := by
    decide +kernel
  have refused : (match Program.ofSource true "main"
      "val x = 1; if (x) \x7b 2 \x7d; else \x7b 3 \x7d; def f() \x7b x \x7d" with
    | .error error => some error.message
    | .ok _ => none) = some ("compile error: 1:48-1:49: `x` belongs to an enclosing function; " ++
        "functions cannot capture outer locals") := by
    decide +kernel
  obtain ⟨parsed, parse⟩ := Option.ne_none_iff_exists'.mp accepted
  have holds := refused_for_source true "main"
    "val x = 1; if (x) \x7b 2 \x7d; else \x7b 3 \x7d; def f() \x7b x \x7d"
  split at refused
  next error failed =>
    exact ⟨parsed, error, ok_of_toOption parse, failed, Option.some.inj refused,
      (holds.1 parsed (ok_of_toOption parse)).2.1, holds.2 error failed⟩
  next => cases refused

end ScriptVM
