import ScriptVM.Session
import ScriptVM.Proofs.Activation
import ScriptVM.Proofs.Framed
import ScriptVM.Proofs.Passes
import ScriptVM.Proofs.Visibility
import ScriptVM.Proofs.Wrapped

/-!
From a source text to a program, stage by stage.

Each pass adds notes to those of the passes before it, so what they establish holds of the document
in the end: it is a function with the statements of the source and a call of it, every use of a
variable comes after its declaration, every function has its frame and its code, and every literal
stands in the pool.
-/
namespace ScriptVM

open Annotations (Extends)
open Assembly (Placed)

/-- How a source text became a program. -/
structure Program.Stages (typeCheck : Bool) (anonymous source : String) (program : Program) where
  parsed : Document
  analysed : Document
  collected : Document
  /-- The tree with everything that is noted about it. -/
  document : Document
  labelled : List Instruction
  parse : Document.parse anonymous source = .ok parsed
  analyse : Program.analyse typeCheck parsed = .ok analysed
  collect : analysed.collectConstants = .ok (collected, program.pool)
  compile : collected.compile = .ok (document, ⟨labelled, program.result⟩)
  assemble : ScriptVM.assemble labelled = .ok program.code

theorem bind_mapError_ok {ε ε' α β : Type} {x : Except ε α} {f : ε → ε'} {g : α → Except ε' β}
    {b : β} (success : (x.mapError f >>= g) = .ok b) : ∃ a, x = .ok a ∧ g a = .ok b := by
  cases x with
  | error e => cases success
  | ok a => exact ⟨a, rfl, success⟩

theorem bind_mapError_error {ε ε' α β : Type} {x : Except ε α} {f : ε → ε'}
    {g : α → Except ε' β} {e' : ε'} (failure : (x.mapError f >>= g) = .error e') :
    (∃ e, x = .error e ∧ f e = e') ∨ ∃ a, x = .ok a ∧ g a = .error e' := by
  cases x with
  | error e =>
    cases failure
    exact .inl ⟨e, rfl, rfl⟩
  | ok a => exact .inr ⟨a, rfl, failure⟩

theorem Program.stages_of_ofSource {typeCheck : Bool} {anonymous source : String}
    {program : Program} (success : Program.ofSource typeCheck anonymous source = .ok program) :
    Nonempty (Program.Stages typeCheck anonymous source program) := by
  obtain ⟨parsed, parse, success⟩ := bind_mapError_ok success
  obtain ⟨analysed, analyse, success⟩ := bind_mapError_ok success
  obtain ⟨⟨collected, pool⟩, collect, success⟩ := bind_mapError_ok success
  obtain ⟨⟨document, labelled, result⟩, compile, success⟩ := bind_mapError_ok success
  obtain ⟨code, assemble, success⟩ := bind_mapError_ok success
  cases success
  exact ⟨⟨parsed, analysed, collected, document, labelled, parse, analyse, collect, compile,
    assemble⟩⟩

namespace Program.Stages

variable {typeCheck : Bool} {anonymous source : String} {program : Program}

/-- What the machine and the evaluation know of a program. -/
def image (stages : Stages typeCheck anonymous source program) : Image where
  nodes := stages.document.root.preorder
  annotations := stages.document.annotations
  pool := program.pool.values
  table := Assembly.labels 0 stages.labelled
  code := program.code.toArray

/-- The parts of a wrapped program, and what the passes know of it. -/
structure Prepared (stages : Stages typeCheck anonymous source program) where
  root : Tag
  function : Tag
  block : Tag
  call : Tag
  callee : Tag
  name : String
  body : List (Node Tag)
  isRoot : stages.document.root = .wrapped root function block call callee name body
  shaped : Node.ShapedAll .all true body
  resolved : Resolved stages.document.root stages.document.annotations
  framed : Frames.Framed stages.document.annotations stages.document.root.preorder
  locals : Locals
  noted : (stages.document.annotations.get root.id).locals = some locals
  empty : locals.ids = []
  literals : stages.image.HoldsLiterals

/-- The statements of a wrapped program are of the right shape. -/
theorem shaped_wrapped {ok : Node.Allowed} {function block call callee : Tag} {name : String}
    {body : List (Node Tag)} (shaped : Node.ShapedAll ok true body) (allowed : ok.names name) :
    Node.ShapedAll ok true
      [.define function name [] (.block block body) none,
        .call call (.leaf callee (.valueId name)) [] none] :=
  ⟨⟨rfl, allowed, nofun, shaped⟩, ⟨allowed, trivial⟩, trivial⟩

/-- The passes after slots leave the tree and only add notes. -/
theorem extends_of_analyse {slotted analysed : Document}
    (check : (if typeCheck = true then slotted.checkTypes else pure slotted) = .ok analysed) :
    analysed.root = slotted.root ∧ slotted.annotations.Extends analysed.annotations := by
  split at check
  · exact Document.extends_of_checkTypes check
  · cases check
    exact ⟨rfl, Extends.refl _⟩

/-- Every stage leaves the tree as it was wrapped, and only adds notes. -/
theorem prepared (stages : Stages typeCheck anonymous source program) : Nonempty stages.Prepared := by
  obtain ⟨wrapped, wrap, analyse⟩ := Walks.except_bind_ok.mp stages.analyse
  obtain ⟨named, resolve, analyse⟩ := Walks.except_bind_ok.mp analyse
  obtain ⟨slotted, assign, check⟩ := Walks.except_bind_ok.mp analyse
  obtain ⟨root, function, block, call, callee, name, body, isWrapped, shaped, noScopes, _⟩ :=
    @Document.wrapped_of_parse .all _ _ _ _ stages.parse trivial (fun _ _ _ _ => trivial) wrap
  have shapedRoot : Node.ShapedAll .all true
      [.define function name [] (.block block body) none,
        .call call (.leaf callee (.valueId name)) [] none] := shaped_wrapped shaped trivial
  have sameNamed := Document.root_of_resolveNames resolve
  obtain ⟨sameSlotted, toSlotted, framed, locals, noted, ids⟩ :=
    Document.framed_of_assignSlots (sameNamed.trans isWrapped) shapedRoot assign
  obtain ⟨sameAnalysed, toAnalysed⟩ := extends_of_analyse check
  obtain ⟨sameCollected, toCollected, literals⟩ :=
    Document.literals_of_collectConstants stages.collect
  obtain ⟨_, _, _, annotations, _, _, _, _, _, given, _, _, _, isLast⟩ :=
    Document.compile_ok stages.compile
  have toLast : stages.collected.annotations.Extends stages.document.annotations := by
    rw [isLast]
    exact Lowering.extends_of_giveAddresses given
  have sameRoot : stages.document.root = wrapped.root := by
    rw [isLast, ← sameNamed, ← sameSlotted, ← sameAnalysed, ← sameCollected]
  have fromSlotted := toAnalysed.trans (toCollected.trans toLast)
  have resolved := Document.resolved_of_resolveNames isWrapped shapedRoot noScopes resolve
    (toSlotted.trans fromSlotted)
  rw [← sameRoot] at resolved
  have framedLast := framed.extend fromSlotted
  rw [sameNamed, ← sameRoot] at framedLast
  refine ⟨⟨root, function, block, call, callee, name, body, sameRoot.trans isWrapped, shaped,
    resolved, framedLast, locals, Notes.locals_of_get? (fromSlotted _ _ _ noted), ids, ?_⟩⟩
  intro tag kind member isLiteral
  rw [image, sameRoot, ← sameNamed, ← sameSlotted, ← sameAnalysed] at member
  obtain ⟨index, value, notedIndex, known, stands⟩ := literals tag kind member isLiteral
  exact ⟨index, value, Notes.constant_of_get? (toLast _ _ _ notedIndex), known, stands⟩

/-- The passes work on the parsed tree with its statements wrapped. -/
theorem root_of_analyse {parsed analysed : Document}
    (parse : Document.parse anonymous source = .ok parsed)
    (success : Program.analyse typeCheck parsed = .ok analysed) :
    ∃ tag name body next, parsed = ⟨.program tag name body, next, {}, {}⟩ ∧
      Node.ShapedAll .all true body ∧
      analysed.root = (Document.wrapping tag next body).tree name := by
  obtain ⟨wrapped, wrap, analyse⟩ := Walks.except_bind_ok.mp success
  obtain ⟨named, resolve, analyse⟩ := Walks.except_bind_ok.mp analyse
  obtain ⟨slotted, assign, check⟩ := Walks.except_bind_ok.mp analyse
  obtain ⟨tag, name, body, next, rfl, shaped⟩ :=
    @Document.shaped_parse .all _ _ _ parse trivial fun _ _ _ _ => trivial
  rw [Document.wrapProgram_eq] at wrap
  cases wrap
  have sameNamed := Document.root_of_resolveNames resolve
  obtain ⟨sameSlotted, _⟩ := Document.framed_of_assignSlots sameNamed
    (shaped_wrapped (Document.shaped_wrapping tag next shaped) trivial) assign
  obtain ⟨sameAnalysed, _⟩ := extends_of_analyse check
  exact ⟨tag, name, body, next, rfl, shaped, sameAnalysed.trans (sameSlotted.trans sameNamed)⟩

/-- The instructions of a program: the function with the statements, the call of it, and the end. -/
structure Laid (stages : Stages typeCheck anonymous source program)
    (prepared : stages.Prepared) where
  env : Lowering.Env
  start : Lowering.Supply
  middle : Lowering.Supply
  last : Lowering.Supply
  handle : Nat
  functionCode : List Instruction
  callCode : List Instruction
  nodes : env.nodes = stages.image.nodes
  annotations : env.annotations = stages.image.annotations
  owner : env.owner = prepared.root.id
  register : start.register = resultReg + 1
  function : Lowering.visit env
    (.define prepared.function prepared.name [] (.block prepared.block prepared.body) none) start =
      .ok handle functionCode middle
  call : Lowering.visit env
    (.call prepared.call (.leaf prepared.callee (.valueId prepared.name)) [] none) middle =
      .ok program.result callCode last
  labelled : stages.labelled = functionCode ++ callCode ++ [.halt]

theorem laid (stages : Stages typeCheck anonymous source program) (prepared : stages.Prepared) :
    Nonempty (stages.Laid prepared) := by
  obtain ⟨tag, name, body, annotations, names, locals, code, last, root, _, noted, lowered, code',
    isLast⟩ := Document.compile_ok stages.compile
  have isRoot : stages.collected.root = .wrapped prepared.root prepared.function prepared.block
      prepared.call prepared.callee prepared.name prepared.body := by
    rw [← prepared.isRoot, isLast]
  rw [isRoot] at root lowered
  cases root
  have sameLocals : locals = prepared.locals := by
    have := prepared.noted
    rw [isLast] at this
    exact Option.some.inj (noted.symm.trans this)
  have noSlots : ¬ 0 < locals.size := by
    rw [sameLocals, ← Locals.length_ids, prepared.empty]
    simp
  rw [if_neg noSlots] at code'
  rcases Lowering.visitStatements_cons_ok (Lowering.visit_program_ok lowered) with
    ⟨impossible, _⟩ | ⟨_, handle, before, rest, middle, function, loweredRest, rfl⟩
  · cases impossible
  rcases Lowering.visitStatements_cons_ok loweredRest with
    ⟨impossible, _⟩ | ⟨_, result, callCode, rest', last', call, finished, rfl⟩
  · cases impossible
  obtain ⟨sameResult, rfl, rfl⟩ := Lowering.visitStatements_nil_ok finished
  cases sameResult
  refine ⟨⟨_, _, _, _, handle, before, callCode, ?_, ?_, rfl, rfl, function, call, by simpa using code'⟩⟩
  · rw [image, prepared.isRoot]
  · rw [image, isLast]

section WellFormed

variable {stages : Stages typeCheck anonymous source program} {prepared : stages.Prepared}

/-- Every function of a program stands in the function that was made of its statements, or is it. -/
theorem Prepared.inside_function {tag : Tag} {name : String} {params : List (Node Tag)}
    {body : Node Tag} {type : Option String}
    (member : .define tag name params body type ∈ stages.image.nodes) :
    .define tag name params body type ∈
      (Node.define prepared.function prepared.name [] (.block prepared.block prepared.body)
        none).preorder := by
  simp only [image, prepared.isRoot, Node.wrapped] at member
  rw [Node.preorder, List.mem_cons] at member
  rcases member with impossible | below
  · cases impossible
  · simp only [Node.preorderAll, List.append_nil, List.mem_append] at below
    rcases below with inFunction | inCall
    · exact inFunction
    · simp [Node.preorder, Node.preorderAll] at inCall

theorem Prepared.shapedFunction :
    Node.Shaped .all true
      (Node.define prepared.function prepared.name [] (.block prepared.block prepared.body) none) :=
  ⟨rfl, trivial, nofun, prepared.shaped⟩

theorem Prepared.functions {tag : Tag} {name : String} {params : List (Node Tag)}
    {body : Node Tag} {type : Option String} (prepared : stages.Prepared)
    (member : .define tag name params body type ∈ stages.image.nodes) :
    ∃ locals, stages.image.Function tag.id params body locals := by
  obtain ⟨locals, noted, ids, indexed⟩ := prepared.framed tag name params body type member
  refine ⟨locals, ⟨Notes.locals_of_get? noted, ?_⟩, ids, ?_, ?_⟩
  · intro slot id found
    exact Notes.index_of_get? (indexed slot id found)
  · intro inner below
    exact Node.preorder_subset member
      (Node.preorder_subset_of_child (by simp [Node.children]) below)
  · rw [ids]
    exact prepared.resolved.ordered tag name params body type member

/-- The labelled code stands in the program from its start. -/
theorem placed (stages : Stages typeCheck anonymous source program) :
    Placed stages.image.table stages.image.code 0 stages.labelled :=
  Assembly.placed_of_assemble stages.assemble

theorem wellFormed (stages : Stages typeCheck anonymous source program) :
    stages.image.WellFormed := by
  obtain ⟨prepared⟩ := stages.prepared
  obtain ⟨laid⟩ := stages.laid prepared
  refine ⟨prepared.literals, fun _ _ _ _ _ member => prepared.functions member, ?_⟩
  intro tag name params body type member
  obtain ⟨env, s, reg, part, s', before, after, nodes, annotations, shrinks, lowered, same⟩ :=
    Lowering.contains_function laid.function
      (Lowering.plainParams_of_shaped prepared.shapedFunction)
      (prepared.inside_function member)
  have placed := stages.placed
  rw [laid.labelled, same, List.append_assoc] at placed
  refine ⟨env, s, reg, part, s', _, nodes.trans laid.nodes, annotations.trans laid.annotations, ?_,
    lowered, Assembly.placed_infix (Assembly.placed_append.mp placed).1⟩
  have := shrinks.registers
  have := laid.register
  omega

end WellFormed

end Program.Stages

end ScriptVM
