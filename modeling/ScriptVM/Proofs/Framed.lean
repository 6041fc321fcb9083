import ScriptVM.Document.Frames
import ScriptVM.Proofs.Scoping
import ScriptVM.Proofs.Shape
import ScriptVM.Proofs.Walks

/-!
What giving out slots has done.

Walking a node appends the variables it declares to the frame being filled and notes each with its
slot. A function fills a frame of its own, so that its frame holds its parameters and then the
variables of its body, and resumes the frame around it.
-/
namespace ScriptVM.Frames

open Annotations (Extends)
open Node (Shaped ShapedAll IsParameter)
open Scoping (declared declaredAll)

variable {st st' : State}

section Operations

theorem note_ok {id : Nat} {value : Note} {u : Unit} (success : note id value st = .ok (u, st')) :
    st.annotations.set id value = .ok st'.annotations ∧ st'.current = st.current := by
  rw [note, Walks.get_bind, Walks.lift_bind_ok] at success
  obtain ⟨annotations, written, finished⟩ := success
  rw [Walks.set_ok] at finished
  subst finished
  exact ⟨Annotations.write_ok.mp written, rfl⟩

theorem bind_ok {node : Node Tag} {name : String} {u : Unit}
    (success : bind node name st = .ok (u, st')) :
    ∃ locals scope, st.current = some locals ∧ (st.annotations.get node.id).scope = some scope ∧
      st.annotations.set node.id (.index locals.size) = .ok st'.annotations ∧
      st'.current = some (locals.insert (qualify scope name) node.id) := by
  rw [bind, Walks.get_bind] at success
  cases inScope : (st.annotations.get node.id).scope with
  | none =>
    rw [inScope] at success
    exact absurd success Walks.throw_ok
  | some scope =>
    rw [inScope] at success
    cases filling : st.current with
    | none =>
      simp only [filling] at success
      exact absurd success Walks.throw_ok
    | some locals =>
      simp only [filling, Walks.set_bind] at success
      obtain ⟨written, current⟩ := note_ok success
      exact ⟨locals, scope, rfl, rfl, written, current⟩

theorem finish_ok {node : Node Tag} {name : String} {outer : Option Locals} {locals : Locals}
    {u : Unit} (filled : st.current = some locals)
    (success : finish node name outer st = .ok (u, st')) :
    st.annotations.set node.id (.locals locals) = .ok st'.annotations ∧ st'.current = outer := by
  simp only [finish, Walks.get_bind, Walks.set_bind, filled, Option.getD_some] at success
  obtain ⟨written, current⟩ := note_ok success
  exact ⟨written, current⟩

theorem start_bind {α : Type} {f : Option Locals → Walk α} :
    (start >>= f) st = f st.current { st with current := some {} } := rfl

end Operations

section Filling

/-- A walk appended these variables to the frame being filled and noted them with their slots. -/
structure Filled (owned : List Nat) (st st' : State) : Prop where
  annotations : st.annotations.Extends st'.annotations
  filling : ∀ locals, st.current = some locals → ∃ locals', st'.current = some locals' ∧
    locals'.ids = locals.ids ++ owned ∧
    ∀ slot id, owned[slot]? = some id →
      (st'.annotations.get id).get? .index = some (.index (locals.size + slot))

theorem Filled.refl (st : State) : Filled [] st st :=
  ⟨Extends.refl _, fun locals filling => ⟨locals, filling, by simp, nofun⟩⟩

theorem Filled.trans {first second : List Nat} {st₁ st₂ st₃ : State} (one : Filled first st₁ st₂)
    (two : Filled second st₂ st₃) : Filled (first ++ second) st₁ st₃ := by
  refine ⟨one.annotations.trans two.annotations, ?_⟩
  intro locals filling
  obtain ⟨locals₁, filling₁, ids₁, indexed₁⟩ := one.filling locals filling
  obtain ⟨locals₂, filling₂, ids₂, indexed₂⟩ := two.filling locals₁ filling₁
  refine ⟨locals₂, filling₂, by rw [ids₂, ids₁, List.append_assoc], ?_⟩
  intro slot id found
  rw [List.getElem?_append] at found
  split at found
  next => exact two.annotations _ _ _ (indexed₁ slot id found)
  next outside =>
    have size : locals₁.size = locals.size + first.length := by
      rw [← Locals.length_ids, ids₁, List.length_append, Locals.length_ids]
    have later := indexed₂ (slot - first.length) id found
    rwa [size, show locals.size + first.length + (slot - first.length) = locals.size + slot by omega]
      at later

theorem filled_bind {node : Node Tag} {name : String} {u : Unit}
    (success : bind node name st = .ok (u, st')) : Filled [node.id] st st' := by
  obtain ⟨locals, scope, filling, _, written, current⟩ := bind_ok success
  refine ⟨Annotations.extends_of_set written, ?_⟩
  intro locals' filling'
  rw [filling] at filling'
  cases filling'
  refine ⟨locals.insert (qualify scope name) node.id, current, by simp [Locals.ids, Locals.insert], ?_⟩
  intro slot id found
  rw [List.getElem?_singleton] at found
  split at found
  next first =>
    cases found
    subst first
    exact Annotations.some_of_set written
  next => cases found

/-- The frame of every function holds its parameters and then the variables of its body. -/
def Framed (annotations : Annotations) (nodes : List (Node Tag)) : Prop :=
  ∀ tag name params body type, .define tag name params body type ∈ nodes →
    ∃ locals : Locals, (annotations.get tag.id).get? .locals = some (.locals locals) ∧
      locals.ids = params.map Node.id ++ declared body ∧
      ∀ slot id, locals.ids[slot]? = some id →
        (annotations.get id).get? .index = some (.index slot)

theorem Framed.extend {before after : Annotations} {nodes : List (Node Tag)}
    (framed : Framed before nodes) (extended : before.Extends after) : Framed after nodes := by
  intro tag name params body type member
  obtain ⟨locals, noted, ids, indexed⟩ := framed tag name params body type member
  exact ⟨locals, extended _ _ _ noted, ids,
    fun slot id found => extended _ _ _ (indexed slot id found)⟩

theorem Framed.append {annotations : Annotations} {first second : List (Node Tag)}
    (one : Framed annotations first) (two : Framed annotations second) :
    Framed annotations (first ++ second) := by
  intro tag name params body type member
  rcases List.mem_append.mp member with inFirst | inSecond
  · exact one tag name params body type inFirst
  · exact two tag name params body type inSecond

end Filling

section Nodes

variable {node : Node Tag}

theorem visitAll_nil : visitAll [] st = .ok ((), st') ↔ st' = st := by
  rw [visitAll, Walks.pure_ok]
  simp

theorem visitAll_cons {rest : List (Node Tag)} :
    visitAll (node :: rest) st = .ok ((), st') ↔
      ∃ st₁, visit node st = .ok ((), st₁) ∧ visitAll rest st₁ = .ok ((), st') := by
  rw [visitAll, Walks.then_ok]

/-- A node that neither owns a frame nor has a slot. -/
def isPlain : Node Tag → Bool
  | .param .. | .program .. | .define .. | .declare .. => false
  | _ => true

/-- Walking a plain node is walking its children. -/
theorem visit_plain (plain : isPlain node = true) : visit node = visitAll node.children := by
  cases node with
  | call tag callee args trailing =>
    cases trailing with
    | none => simp [Node.children]
    | some trailing => simp [Node.children]
  | leaf | block | aggregate | assign | orElse | branch | loop | binary => simp [Node.children]
  | _ => cases plain

end Nodes

section Walking

variable {ok : Node.Allowed}

/-- A walk that fills the current frame and those of the functions below. -/
def Fills (node : Node Tag) : Prop :=
  ∀ {st st' : State}, visit node st = .ok ((), st') →
    Filled (declared node) st st' ∧ Framed st'.annotations node.preorder

theorem fills_visitAll {nodes : List (Node Tag)} (each : ∀ node ∈ nodes, Fills node)
    (success : visitAll nodes st = .ok ((), st')) :
    Filled (declaredAll nodes) st st' ∧ Framed st'.annotations (Node.preorderAll nodes) := by
  induction nodes generalizing st with
  | nil =>
    cases visitAll_nil.mp success
    exact ⟨Filled.refl _, nofun⟩
  | cons node rest ih =>
    obtain ⟨st₁, visited, visitedRest⟩ := visitAll_cons.mp success
    obtain ⟨filled, framed⟩ := each node (by simp) visited
    obtain ⟨filledRest, framedRest⟩ := ih (fun other isRest => each other (by simp [isRest]))
      visitedRest
    exact ⟨filled.trans filledRest, (framed.extend filledRest.annotations).append framedRest⟩

theorem declaredAll_parameters {params : List (Node Tag)}
    (areParams : ∀ param ∈ params, IsParameter ok param) :
    declaredAll params = params.map Node.id := by
  induction params with
  | nil => rfl
  | cons param params ih =>
    obtain ⟨tag, name, type, rfl, _⟩ := areParams param (by simp)
    rw [declaredAll, ih fun other isRest => areParams other (by simp [isRest])]
    rfl

/-- Walking a node fills the current frame with what the node declares. A function starts with an
empty frame and leaves the one around as it was. -/
theorem fills_visit {node : Node Tag} (placed : Shaped ok true node ∨ IsParameter ok node) :
    Fills node := by
  induction node using Node.childInduction with
  | step node ih =>
  intro st st' success
  rcases placed with shaped | ⟨tag, name, type, rfl, _⟩
  case inr =>
    rw [visit] at success
    exact ⟨filled_bind success, by simp [Framed, Node.preorder]⟩
  by_cases plain : isPlain node = true
  · have notFunction : Scoping.isFunction node = false := by
      cases node <;> first | rfl | cases plain
    have notVariable : Scoping.itself node = [] := by
      cases node <;> first | rfl | cases plain
    obtain ⟨filled, framed⟩ := fills_visitAll (fun child member => ih child member
      (shaped.child member)) (visit_plain plain ▸ success)
    rw [Scoping.declared_eq notFunction, notVariable, Node.preorder_eq]
    refine ⟨filled, ?_⟩
    intro tag name params body type member
    rcases List.mem_cons.mp member with rfl | below
    · cases plain
    · exact framed tag name params body type below
  cases node with
  | declare tag mutability name type value =>
    rw [visit, Walks.then_ok] at success
    obtain ⟨st₁, bound, visited⟩ := success
    obtain ⟨filled, framed⟩ := ih value (by simp [Node.children]) (.inl shaped.2.2.statement)
      visited
    refine ⟨(filled_bind bound).trans filled, ?_⟩
    intro tag' name' params body type' member
    rw [Node.preorder, List.mem_cons] at member
    rcases member with same | below
    · cases same
    · exact framed tag' name' params body type' below
  | define tag name params body type =>
    rw [visit, start_bind] at success
    simp only [Walks.then_ok] at success
    obtain ⟨st₁, visitedParams, st₂, visitedBody, finished⟩ := success
    obtain ⟨filledParams, framedParams⟩ := fills_visitAll (fun param member =>
      ih param (by simp [Node.children, member]) (.inr (shaped.2.2.1 param member))) visitedParams
    obtain ⟨filledBody, framedBody⟩ := ih body (by simp [Node.children])
      (.inl shaped.2.2.2.statement) visitedBody
    have filled := filledParams.trans filledBody
    obtain ⟨locals, filling, ids, indexed⟩ := filled.filling {} rfl
    obtain ⟨written, current⟩ := finish_ok filling finished
    have extended := Annotations.extends_of_set written
    rw [declaredAll_parameters shaped.2.2.1] at ids indexed
    refine ⟨⟨filled.annotations.trans extended, ?_⟩, ?_⟩
    · intro outer filling
      exact ⟨outer, current.trans filling, by simp [declared], by simp [declared]⟩
    · intro tag' name' params' body' type' member
      rw [Node.preorder, List.mem_cons] at member
      rcases member with same | below
      · cases same
        refine ⟨locals, Annotations.some_of_set written, by simpa [Locals.ids] using ids, ?_⟩
        intro slot id found
        rw [ids] at found
        have noted := indexed slot id (by simpa [Locals.ids] using found)
        exact extended _ _ _ (by simpa [Locals.size] using noted)
      · exact ((framedParams.extend filledBody.annotations).append framedBody).extend extended
          tag' name' params' body' type' below
  | param | program => cases shaped
  | _ => exact absurd rfl plain

end Walking

end ScriptVM.Frames

namespace ScriptVM

/-- What giving out slots does. -/
theorem Document.assignSlots_ok {document framed : Document}
    (success : document.assignSlots = .ok framed) :
    ∃ u last, Frames.visit document.root ⟨document.annotations, none, []⟩ = .ok (u, last) ∧
      framed = { document with annotations := last.annotations } := by
  unfold assignSlots assignFrames at success
  simp only [StateT.run] at success
  cases finished : Frames.visit document.root ⟨document.annotations, none, []⟩ with
  | error e =>
    rw [finished] at success
    cases success
  | ok result =>
    rw [finished] at success
    cases success
    exact ⟨result.1, result.2, rfl, rfl⟩

/-- What giving out slots establishes of a program: its own frame holds what stands in no function,
and each function has a frame. -/
theorem Document.framed_of_assignSlots {ok : Node.Allowed} {document framed : Document}
    {tag : Tag} {name : String} {body : List (Node Tag)}
    (root : document.root = .program tag name body) (shaped : Node.ShapedAll ok true body)
    (success : document.assignSlots = .ok framed) :
    framed.root = document.root ∧ document.annotations.Extends framed.annotations ∧
      Frames.Framed framed.annotations document.root.preorder ∧
      ∃ locals : Locals, (framed.annotations.get tag.id).get? .locals = some (.locals locals) ∧
        locals.ids = Scoping.declaredAll body := by
  obtain ⟨_, last, finished, rfl⟩ := assignSlots_ok success
  rw [root, Frames.visit, Frames.start_bind, Walks.then_ok] at finished
  obtain ⟨st, visited, finished⟩ := finished
  obtain ⟨filled, framed⟩ := Frames.fills_visitAll (fun node member =>
    Frames.fills_visit (.inl (Node.shapedAll_iff.mp shaped node member))) visited
  obtain ⟨locals, filling, ids, _⟩ := filled.filling {} rfl
  obtain ⟨written, _⟩ := Frames.finish_ok filling finished
  have extended := Annotations.extends_of_set written
  refine ⟨rfl, filled.annotations.trans extended, ?_, locals, Annotations.some_of_set written,
    by simpa [Locals.ids] using ids⟩
  intro tag' name' params body' type member
  rw [root, Node.preorder, List.mem_cons] at member
  rcases member with same | below
  · cases same
  · exact framed.extend extended tag' name' params body' type below

end ScriptVM
