import ScriptVM.Proofs.Framed
import ScriptVM.Proofs.NamesNoted
import ScriptVM.Proofs.Passes

/-!
The passes after names write each note once.

Slots are given to variables and frames to functions, types to all nodes, and places in the pool to
literals. No two nodes share an identity and no pass writes the notes of another, so none of them
finds a note written already, and each finds what the passes before it have noted.
-/
namespace ScriptVM

open Annotations (Extends Confined)
open Walks (Proper Discipline)
open Walks.Discipline (Checked)

namespace Frames

variable {st st' : State} {nodes nodes' : List (Node Tag)} {node : Node Tag} {name : String}

/-- A node that has a slot. -/
def isVariable : Node Tag → Bool
  | .param .. | .declare .. => true
  | _ => false

/-- A node that owns a frame. -/
def ownsFrame : Node Tag → Bool
  | .program .. | .define .. => true
  | _ => false

/-- Nodes that have neither slots nor frames yet, to be given them in the current frame. -/
structure Fresh (nodes : List (Node Tag)) (st : State) : Prop where
  distinct : (nodes.map Node.id).Nodup
  index : ∀ node ∈ nodes, (st.annotations.get node.id).get? .index = none
  locals : ∀ node ∈ nodes, (st.annotations.get node.id).get? .locals = none
  scope : ∀ node ∈ nodes, (st.annotations.get node.id).get? .scope ≠ none
  current : st.current ≠ none

/-- Slots and frames have been given to these nodes. -/
structure Given (nodes : List (Node Tag)) (st st' : State) : Prop where
  annotations : st.annotations.Extends st'.annotations
  confined : Confined [.index, .locals] (nodes.map Node.id) st.annotations st'.annotations
  index : ∀ node ∈ nodes, isVariable node = true →
    (st'.annotations.get node.id).get? .index ≠ none
  locals : ∀ node ∈ nodes, ownsFrame node = true →
    (st'.annotations.get node.id).get? .locals ≠ none
  current : st'.current ≠ none

theorem Fresh.second (fresh : Fresh (nodes ++ nodes') st) (given : Given nodes st st') :
    Fresh nodes' st' := by
  have distinct := fresh.distinct
  rw [List.map_append, List.nodup_append] at distinct
  have same : ∀ node ∈ nodes', ∀ key, (st'.annotations.get node.id).get? key =
      (st.annotations.get node.id).get? key := fun node member key =>
    given.confined node.id key
      (.inr fun inFirst => distinct.2.2 _ inFirst _ (List.mem_map_of_mem member) rfl)
  have isIn : ∀ node ∈ nodes', node ∈ nodes ++ nodes' :=
    fun node member => List.mem_append_right _ member
  refine ⟨distinct.2.1, ?_, ?_, ?_, given.current⟩
  · intro node member
    rw [same node member]
    exact fresh.index node (isIn node member)
  · intro node member
    rw [same node member]
    exact fresh.locals node (isIn node member)
  · intro node member
    rw [same node member]
    exact fresh.scope node (isIn node member)

theorem Given.trans {st'' : State} (one : Given nodes st st') (two : Given nodes' st' st'') :
    Given (nodes ++ nodes') st st'' where
  annotations := one.annotations.trans two.annotations
  confined := by
    rw [List.map_append]
    exact one.confined.append two.confined
  index := by
    intro node member isVariable
    rcases List.mem_append.mp member with inFirst | inSecond
    · exact fun absent => one.index node inFirst isVariable (two.annotations.none_of_none absent)
    · exact two.index node inSecond isVariable
  locals := by
    intro node member owns
    rcases List.mem_append.mp member with inFirst | inSecond
    · exact fun absent => one.locals node inFirst owns (two.annotations.none_of_none absent)
    · exact two.locals node inSecond owns
  current := two.current

/-- How slots and frames are given out. -/
def discipline : Discipline State where
  Ready := Fresh
  Done := Given
  nothing fresh := ⟨Extends.refl _, .refl _ _ _, nofun, nofun, fresh.current⟩
  first fresh := by
    have distinct := fresh.distinct
    rw [List.map_append, List.nodup_append] at distinct
    exact ⟨distinct.1, fun node member => fresh.index node (List.mem_append_left _ member),
      fun node member => fresh.locals node (List.mem_append_left _ member),
      fun node member => fresh.scope node (List.mem_append_left _ member), fresh.current⟩
  second := Fresh.second
  both := Given.trans
  readyPerm perm fresh :=
    ⟨(perm.map Node.id).nodup_iff.mp fresh.distinct,
      fun node member => fresh.index node (perm.mem_iff.mpr member),
      fun node member => fresh.locals node (perm.mem_iff.mpr member),
      fun node member => fresh.scope node (perm.mem_iff.mpr member), fresh.current⟩
  donePerm perm given :=
    { given with
      confined := given.confined.widen (perm.map Node.id).subset
      index := fun node member => given.index node (perm.mem_iff.mpr member)
      locals := fun node member => given.locals node (perm.mem_iff.mpr member) }

theorem exists_note {id : Nat} (value : Note)
    (absent : (st.annotations.get id).get? value.key = none) :
    ∃ annotations, note id value st = .ok ((), { st with annotations }) ∧
      st.annotations.set id value = .ok annotations := by
  obtain ⟨annotations, written⟩ := Annotations.exists_set absent
  refine ⟨annotations, ?_, written⟩
  rw [note, Walks.get_bind, Walks.lift_bind_ok]
  exact ⟨annotations, Annotations.write_ok.mpr written, rfl⟩

theorem checked_bind (isSlot : isVariable node = true) :
    discipline.Checked [node] (fun _ => True) (bind node name) := by
  intro st fresh
  have owns : ownsFrame node = false := by
    cases node <;> first | rfl | cases isSlot
  obtain ⟨scope, inScope⟩ := Option.ne_none_iff_exists'.mp (fresh.scope node (by simp))
  obtain ⟨scope, inScope, _⟩ := Option.map_eq_some_iff.mp inScope
  obtain ⟨locals, filling⟩ := Option.ne_none_iff_exists'.mp fresh.current
  let filled : State := { st with current := some (locals.insert (qualify scope name) node.id) }
  obtain ⟨annotations, noted, written⟩ : ∃ annotations,
      note node.id (.index locals.size) filled = .ok ((), { filled with annotations }) ∧
        st.annotations.set node.id (.index locals.size) = .ok annotations :=
    exists_note _ (fresh.index node (by simp))
  rw [bind, Walks.get_bind]
  simp only [inScope, filling, Walks.set_bind]
  rw [show note node.id (.index locals.size) { st with
    current := some (locals.insert (qualify scope name) node.id) } = _ from noted]
  refine ⟨trivial, Annotations.extends_of_set written,
    Annotations.confined_of_set (by simp [Note.key]) (by simp) written, ?_, ?_, Option.some_ne_none _⟩
  · simp only [List.mem_singleton, forall_eq]
    intro _
    exact Annotations.ne_none_of_set written
  · simp [owns]

theorem checked_start : discipline.Checked [] (fun outer => outer ≠ none) start :=
  fun _ fresh => ⟨fresh.current, Extends.refl _, .refl _ _ _, nofun, nofun, nofun⟩

/-- A finished frame is noted, whichever frame is resumed. -/
theorem given_finish (outer : Option Locals) (isOwner : ownsFrame node = true)
    (fresh : Fresh [node] st) :
    ∃ st', finish node name outer st = .ok ((), st') ∧ st'.current = outer ∧
      Given [node] st { st' with current := some {} } := by
  have plain : isVariable node = false := by
    cases node <;> first | rfl | cases isOwner
  let locals := st.current.getD {}
  let finished : State :=
    { st with current := outer, finished := ⟨node.kindName, name, locals⟩ :: st.finished }
  obtain ⟨annotations, noted, written⟩ : ∃ annotations,
      note node.id (.locals locals) finished = .ok ((), { finished with annotations }) ∧
        st.annotations.set node.id (.locals locals) = .ok annotations :=
    exists_note _ (fresh.locals node (by simp))
  refine ⟨_, noted, rfl, Annotations.extends_of_set written,
    Annotations.confined_of_set (by simp [Note.key]) (by simp) written, by simp [plain], ?_, nofun⟩
  simp only [List.mem_singleton, forall_eq]
  exact fun _ => Annotations.ne_none_of_set written

theorem checked_finish {outer : Option Locals} (resumes : outer ≠ none)
    (isOwner : ownsFrame node = true) :
    discipline.Checked [node] (fun _ => True) (finish node name outer) := by
  intro st fresh
  obtain ⟨st', finished, current, given⟩ := given_finish outer isOwner fresh
  rw [finished]
  exact ⟨trivial, { given with current := by rw [current]; exact resumes }⟩

/-- Nothing is given to a node that has neither a slot nor a frame. -/
theorem checked_nothing (plain : isPlain node = true) :
    discipline.Checked [node] (fun _ => True) (pure ()) := by
  intro st fresh
  have notVariable : isVariable node = false := by
    cases node <;> first | rfl | cases plain
  have notOwner : ownsFrame node = false := by
    cases node <;> first | rfl | cases plain
  exact ⟨trivial, Extends.refl _, .refl _ _ _, by simp [notVariable], by simp [notOwner],
    fresh.current⟩

theorem checked_visitAll {nodes : List (Node Tag)}
    (each : ∀ node ∈ nodes, discipline.Checked node.preorder (fun _ => True) (visit node)) :
    discipline.Checked (Node.preorderAll nodes) (fun _ => True) (visitAll nodes) := by
  induction nodes with
  | nil =>
    rw [visitAll]
    exact .pure trivial
  | cons node rest ih =>
    rw [visitAll]
    exact (each node (by simp)).bind fun _ _ =>
      ih fun other member => each other (by simp [member])

/-- Giving out slots and frames is never refused. -/
theorem checked_visit (node : Node Tag) :
    discipline.Checked node.preorder (fun _ => True) (visit node) := by
  induction node using Node.childInduction with
  | step node ih =>
    by_cases plain : isPlain node = true
    · rw [visit_plain plain, Node.preorder_eq, ← pure_bind () fun _ => visitAll node.children]
      exact (checked_nothing plain).bind fun _ _ => checked_visitAll ih
    cases node with
    | param tag name type =>
      rw [visit]
      exact checked_bind rfl
    | declare tag mutability name type value =>
      rw [visit]
      exact (checked_bind rfl).bind fun _ _ => ih value (by simp [Node.children])
    | program tag name body =>
      rw [visit, Node.preorder]
      refine checked_start.before fun outer resumes => ?_
      exact (checked_visitAll ih).above _ fun _ _ => checked_finish resumes rfl
    | define tag name params body type =>
      rw [visit, Node.preorder]
      refine checked_start.before fun outer resumes => ?_
      have inParams := checked_visitAll fun param (member : param ∈ params) =>
        ih param (by simp [Node.children, member])
      have inBody := ih body (by simp [Node.children])
      exact inParams.aside fun _ _ => inBody.above _ fun _ _ => checked_finish resumes rfl
    | _ => exact absurd rfl plain

end Frames

/-- What is noted when slots are given out: the slot of every variable and the frame of every
owner. -/
structure SlotsNoted (root : Node Tag) (annotations : Annotations) : Prop where
  index : ∀ node ∈ root.preorder, Frames.isVariable node = true →
    (annotations.get node.id).get? .index ≠ none
  locals : ∀ node ∈ root.preorder, Frames.ownsFrame node = true →
    (annotations.get node.id).get? .locals ≠ none

/-- The walk over a whole program, which no frame is around. -/
theorem Frames.proper_visit {tag : Tag} {name : String} {body : List (Node Tag)}
    {annotations : Annotations}
    (fresh : Fresh (Node.program tag name body).preorder ⟨annotations, some {}, []⟩) :
    Proper PassError.isInternal
      (fun result => Given (Node.program tag name body).preorder ⟨annotations, some {}, []⟩
        { result.2 with current := some {} })
      (visit (.program tag name body) ⟨annotations, none, []⟩) := by
  have lastFirst : (Node.preorderAll body ++ [Node.program tag name body]).Perm
      (Node.program tag name body).preorder := by
    rw [Node.preorder]
    exact List.perm_append_singleton _ _
  have fresh := discipline.readyPerm lastFirst.symm fresh
  rw [visit, start_bind]
  refine (checked_visitAll (fun node _ => checked_visit node) _ (discipline.first fresh)).bind ?_
  rintro ⟨_, st⟩ ⟨_, given⟩
  obtain ⟨st', finished, _, givenRoot⟩ := given_finish none rfl (discipline.second fresh given)
  show Proper _ _ (finish (.program tag name body) name none st)
  rw [finished]
  exact discipline.donePerm lastFirst (discipline.both given givenRoot)

/-- Slots can be given out where names have been resolved. -/
theorem Document.proper_assignSlots {document : Document} {tag : Tag} {name : String}
    {body : List (Node Tag)} (isProgram : document.root = .program tag name body)
    (isTree : document.IsTree) (names : NamesNoted document.root document.annotations)
    (only : document.annotations.Only [.scope, .binding]) :
    Proper PassError.isInternal (fun slotted => slotted.root = document.root ∧
      document.annotations.Extends slotted.annotations ∧
      SlotsNoted document.root slotted.annotations ∧
      slotted.annotations.Only [.index, .locals, .scope, .binding]) document.assignSlots := by
  have fresh : Frames.Fresh document.root.preorder ⟨document.annotations, some {}, []⟩ :=
    ⟨isTree, fun node _ => only node.id _ (by simp), fun node _ => only node.id _ (by simp),
      names.scope, nofun⟩
  unfold assignSlots assignFrames
  rw [isProgram] at fresh ⊢
  have visited := Frames.proper_visit fresh
  simp only [StateT.run]
  cases walked : Frames.visit (.program tag name body) ⟨document.annotations, none, []⟩ with
  | error e =>
    rw [walked] at visited
    exact visited
  | ok result =>
    rw [walked] at visited
    exact ⟨rfl, visited.annotations, ⟨visited.index, visited.locals⟩,
      visited.confined.only only⟩

namespace Typing

variable {α : Type} {st st' : State} {nodes nodes' : List (Node Tag)} {node : Node Tag} {tag : Tag}
  {post : α → Prop}

/-- Nodes without a type whose uses have declarations. -/
structure Fresh (nodes : List (Node Tag)) (st : State) : Prop where
  distinct : (nodes.map Node.id).Nodup
  type : ∀ node ∈ nodes, (st.annotations.get node.id).get? .type = none
  binding : ∀ node ∈ nodes, Names.isUse node = true →
    (st.annotations.get node.id).get? .binding ≠ none

/-- How types are given. -/
def discipline : Discipline State where
  Ready := Fresh
  Done nodes st st' := Confined [.type] (nodes.map Node.id) st.annotations st'.annotations
  nothing _ := .refl _ _ _
  first fresh := by
    have distinct := fresh.distinct
    rw [List.map_append, List.nodup_append] at distinct
    exact ⟨distinct.1, fun node member => fresh.type node (List.mem_append_left _ member),
      fun node member => fresh.binding node (List.mem_append_left _ member)⟩
  second fresh confined := by
    have distinct := fresh.distinct
    rw [List.map_append, List.nodup_append] at distinct
    refine ⟨distinct.2.1, ?_, ?_⟩
    · intro node member
      rw [confined node.id .type
        (.inr fun inFirst => distinct.2.2 _ inFirst _ (List.mem_map_of_mem member) rfl)]
      exact fresh.type node (List.mem_append_right _ member)
    · intro node member
      rw [confined node.id .binding (.inl (by simp))]
      exact fresh.binding node (List.mem_append_right _ member)
  both one two := by
    rw [List.map_append]
    exact one.append two
  readyPerm perm fresh :=
    ⟨(perm.map Node.id).nodup_iff.mp fresh.distinct,
      fun node member => fresh.type node (perm.mem_iff.mpr member),
      fun node member => fresh.binding node (perm.mem_iff.mpr member)⟩
  donePerm perm confined := confined.widen (perm.map Node.id).subset

theorem checked_record (isNode : node.tag = tag) (type : Ty) :
    discipline.Checked [node] (fun _ => True) (record tag type) := by
  intro st fresh
  subst isNode
  have absent : (st.annotations.get node.id).get? (Note.type type).key = none :=
    fresh.type node (by simp)
  obtain ⟨annotations, written⟩ := Annotations.exists_set absent
  have recorded : record node.tag type st = .ok (type, { st with annotations }) := by
    rw [record, Walks.get_bind, Walks.lift_bind_ok]
    exact ⟨annotations, Annotations.write_ok.mpr written, rfl⟩
  rw [recorded]
  exact ⟨trivial, Annotations.confined_of_set (by simp [Note.key]) (by simp) written⟩

theorem checked_refuse (cause : TypeError.Cause) (tag : Tag) :
    discipline.Checked nodes post (refuse cause tag) :=
  .throw rfl

theorem checked_declared (tag : Tag) (type : Option String) :
    discipline.Checked [] (fun _ => True) (declared tag type) := by
  unfold declared
  split
  next => exact .pure trivial
  next =>
    split
    next => exact .pure trivial
    next => exact checked_refuse _ _

theorem checked_accept (tag : Tag) (result : Except TypeError.Cause α) :
    discipline.Checked [] (fun _ => True) (accept tag result) := by
  cases result with
  | ok a => exact .pure trivial
  | error cause => exact checked_refuse cause tag

theorem checked_typeOf (declaration : Nat) :
    discipline.Checked [] (fun _ => True) (typeOf declaration) := by
  intro st fresh
  rw [typeOf, Walks.get_bind]
  cases (st.annotations.get declaration).type with
  | none => exact ⟨trivial, .refl _ _ _⟩
  | some type => exact ⟨trivial, .refl _ _ _⟩

theorem checked_announce (id : Nat) (type : Ty) :
    discipline.Checked [] (fun _ => True) (announce id type) :=
  fun _ _ => ⟨trivial, .refl _ _ _⟩

theorem checked_checkPredicate (pred : Node Tag) (type : Ty) :
    discipline.Checked [] (fun _ => True) (checkPredicate pred type) :=
  .ite (.pure trivial) (checked_refuse _ _)

/-- A use has a declaration. -/
theorem checked_declarationOf (used : Names.isUse node = true) {f : Nat → Walk α}
    (rest : ∀ declaration, discipline.Checked [node] post (f declaration)) :
    discipline.Checked [node] post (declarationOf node >>= f) := by
  intro st fresh
  obtain ⟨note, noted⟩ := Option.ne_none_iff_exists'.mp (fresh.binding node (by simp) used)
  obtain ⟨declaration, found, _⟩ := Option.map_eq_some_iff.mp noted
  have run : (declarationOf node >>= f) st = f declaration st := by
    show (declarationOf node st >>= fun result => f result.1 result.2) = _
    rw [declarationOf, Walks.get_bind, found]
    rfl
  rw [run]
  exact rest declaration st fresh

mutual

/-- Types are refused only for what the types are. -/
theorem checked_visit : ∀ node : Node Tag,
    discipline.Checked node.preorder (fun _ => True) (visit node)
  | .leaf tag kind => by
    rw [Node.preorder]
    cases kind with
    | valueId name =>
      rw [visit]
      refine checked_declarationOf rfl fun declaration => ?_
      exact (checked_typeOf declaration).before fun _ _ => checked_record rfl _
    | _ =>
      rw [visit]
      exact checked_record rfl _
  | .param tag name type => by
    rw [visit, Node.preorder]
    exact (checked_declared tag type).before fun _ _ => checked_record rfl _
  | .program _ _ body | .block _ body => by
    rw [visit, Node.preorder]
    exact (checked_visitStatements .unit body).above _ fun _ _ => checked_record rfl _
  | .define tag name params body result => by
    rw [visit, Node.preorder]
    refine (checked_visitAll params).aside fun _ _ => ?_
    refine (checked_declared tag result).before fun declared _ => ?_
    refine (checked_announce _ _).before fun _ _ => (checked_visit body).above _ fun _ _ => ?_
    cases declared with
    | none => exact checked_record rfl _
    | some declared => exact .ite (checked_record rfl _) (checked_refuse _ _)
  | .declare tag mutability name type value => by
    rw [visit, Node.preorder]
    refine (checked_visit value).above _ fun _ _ => .ite (checked_refuse _ _) ?_
    refine (checked_declared tag type).before fun _ _ => ?_
    exact (checked_accept _ _).before fun _ _ => checked_record rfl _
  | .assign tag name value => by
    rw [visit, Node.preorder]
    refine (checked_visit value).above _ fun _ _ => .ite (checked_refuse _ _) ?_
    refine checked_declarationOf rfl fun declaration => ?_
    refine (checked_typeOf declaration).before fun _ _ => ?_
    exact .ite (checked_record rfl _) (checked_refuse _ _)
  | .branch tag pred yes no => by
    rw [visit, Node.preorder, List.append_assoc]
    refine (checked_visit pred).aside fun _ _ => (checked_checkPredicate _ _).before fun _ _ => ?_
    exact (checked_visit yes).aside fun _ _ => (checked_visit no).above _ fun _ _ =>
      checked_record rfl _
  | .orElse tag body => by
    rw [visit, Node.preorder]
    exact (checked_visit body).above _ fun _ _ => checked_record rfl _
  | .loop tag pred body => by
    rw [visit, Node.preorder]
    refine (checked_visit pred).aside fun _ _ => (checked_checkPredicate _ _).before fun _ _ => ?_
    exact (checked_visit body).above _ fun _ _ => checked_record rfl _
  | .binary tag op left right => by
    rw [visit, Node.preorder]
    refine (checked_visit left).aside fun _ _ => (checked_visit right).above _ fun _ _ => ?_
    exact (checked_accept _ _).before fun _ _ => checked_record rfl _
  | .call tag callee args none => by
    rw [visit, Node.preorder]
    refine (checked_visit callee).aside fun _ _ => (checked_visitAll args).above _ fun _ _ => ?_
    exact (checked_accept _ _).before fun _ _ => checked_record rfl _
  | .call tag callee args (some trailing) => by
    rw [visit, Node.preorder, List.append_assoc]
    refine (checked_visit callee).aside fun _ _ => (checked_visitAll args).aside fun _ _ => ?_
    refine (checked_visit trailing).above _ fun _ _ => ?_
    exact (checked_accept _ _).before fun _ _ => checked_record rfl _
  | .aggregate tag .tuple elements => by
    rw [visit, Node.preorder]
    exact (checked_visitAll elements).above _ fun _ _ => checked_record rfl _
  | .aggregate tag .list elements => by
    rw [visit, Node.preorder]
    exact (checked_visitElements tag none elements).above _ fun _ _ => checked_record rfl _

theorem checked_visitAll : ∀ nodes : List (Node Tag),
    discipline.Checked (Node.preorderAll nodes) (fun _ => True) (visitAll nodes)
  | [] => .pure trivial
  | node :: rest =>
    (checked_visit node).bind fun _ _ => (checked_visitAll rest).after fun _ _ => .pure trivial

theorem checked_visitStatements : ∀ (last : Ty) (nodes : List (Node Tag)),
    discipline.Checked (Node.preorderAll nodes) (fun _ => True) (visitStatements last nodes)
  | _, [] => .pure trivial
  | _, node :: rest => (checked_visit node).bind fun _ _ => checked_visitStatements _ rest

theorem checked_visitElements : ∀ (tag : Tag) (first : Option Ty) (nodes : List (Node Tag)),
    discipline.Checked (Node.preorderAll nodes) (fun _ => True) (visitElements tag first nodes)
  | _, _, [] => .pure trivial
  | tag, none, node :: rest =>
    (checked_visit node).bind fun _ _ => checked_visitElements tag _ rest
  | tag, some _, node :: rest =>
    (checked_visit node).bind fun _ _ => .ite (checked_visitElements tag _ rest) (checked_refuse _ _)

end

end Typing

/-- Types can be checked where slots have been given out, and are refused only for what they are. -/
theorem Document.proper_checkTypes {document : Document} (isTree : document.IsTree)
    (names : NamesNoted document.root document.annotations)
    (only : document.annotations.Only [.index, .locals, .scope, .binding]) :
    Proper PassError.isInternal
      (fun typed => typed.annotations.Only [.type, .index, .locals, .scope, .binding])
      document.checkTypes := by
  have fresh : Typing.Fresh document.root.preorder ⟨document.annotations, []⟩ := by
    refine ⟨isTree, fun node _ => only node.id _ (by simp), fun node member used => ?_⟩
    obtain ⟨declaration, _, found⟩ := names.bound node member used
    rw [found]
    nofun
  have visited := Typing.checked_visit document.root _ fresh
  unfold checkTypes inferTypes
  simp only [StateT.run]
  cases walked : Typing.visit document.root ⟨document.annotations, []⟩ with
  | error e =>
    rw [walked] at visited
    exact visited
  | ok result =>
    rw [walked] at visited
    exact visited.2.only only

end ScriptVM
