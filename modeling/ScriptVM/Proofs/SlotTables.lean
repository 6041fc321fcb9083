import Mathlib.Data.List.Nodup
import ScriptVM.Proofs.Identities
import ScriptVM.Proofs.PassesNoted
import ScriptVM.Proofs.Stages

/-!
The table of slots of every owner of a frame.

A variable has its slot in the frame of the nearest owner around it, a function or the program. The
tables follow the tree: parameters first, then the variables in the order of the tree. A variable is
known in its table by its name together with the scope that declares it. Resolving names declares a
name once in a scope, so this qualified name is known to no other variable.
-/
namespace ScriptVM

namespace Node

/-- The name under which a node is a variable. -/
def variableName? : Node Tag → Option String
  | .param _ name _ | .declare _ _ name _ _ => some name
  | _ => none

/-- The parameters of a function. -/
def parameters : Node Tag → List (Node Tag)
  | .define _ _ params _ _ => params
  | _ => []

/-- A node stands in another one with no owner of a frame between them. -/
inductive StandsIn : Node Tag → Node Tag → Prop
  | child {owner node : Node Tag} (member : node ∈ owner.children) : StandsIn owner node
  | through {owner between node : Node Tag} (member : between ∈ owner.children)
      (plain : Frames.ownsFrame between = false) (inside : StandsIn between node) : StandsIn owner node

theorem standsIn_iff {owner node : Node Tag} :
    owner.StandsIn node ↔ ∃ child ∈ owner.children,
      node = child ∨ Frames.ownsFrame child = false ∧ child.StandsIn node := by
  constructor
  · intro stands
    cases stands with
    | child member => exact ⟨node, member, .inl rfl⟩
    | through member plain inside => exact ⟨_, member, .inr ⟨plain, inside⟩⟩
  · rintro ⟨child, member, rfl | ⟨plain, inside⟩⟩
    · exact .child member
    · exact .through member plain inside

end Node

namespace Scoping

open Node (Shaped IsParameter)

variable {ok : Node.Allowed}

theorem mem_itself {node : Node Tag} {id : Nat} :
    id ∈ itself node ↔ Frames.isVariable node = true ∧ node.id = id := by
  cases node <;> simp [itself, Frames.isVariable, Node.id, Node.tag, eq_comm]

theorem ownsFrame_of_shaped {node : Node Tag} (placed : Shaped ok true node ∨ IsParameter ok node) :
    Frames.ownsFrame node = isFunction node := by
  cases node with
  | program =>
    rcases placed with shaped | ⟨_, _, _, impossible, _⟩
    · cases shaped
    · cases impossible
  | _ => rfl

/-- What a node declares is itself or a variable that stands in it. -/
theorem mem_declared_iff {node : Node Tag} {id : Nat}
    (placed : Shaped ok true node ∨ IsParameter ok node) :
    id ∈ declared node ↔ ∃ inner, (inner = node ∨ Frames.ownsFrame node = false ∧ node.StandsIn inner) ∧
      Frames.isVariable inner = true ∧ inner.id = id := by
  induction node using Node.childInduction with
  | step node ih =>
  rw [ownsFrame_of_shaped placed]
  cases function : isFunction node with
  | true =>
    cases node with
    | define => simp [declared, Frames.isVariable]
    | _ => cases function
  | false =>
    have children : ∀ child ∈ node.children, Shaped ok true child ∨ IsParameter ok child := by
      intro child member
      rcases placed with shaped | ⟨_, _, _, rfl, _⟩
      · exact shaped.child member
      · cases member
    rw [declared_eq function, List.mem_append, mem_declaredAll, mem_itself]
    constructor
    · rintro (⟨isVariable, same⟩ | ⟨child, member, below⟩)
      · exact ⟨node, .inl rfl, isVariable, same⟩
      · obtain ⟨inner, stands, isVariable⟩ := (ih child member (children child member)).mp below
        exact ⟨inner, .inr ⟨rfl, Node.standsIn_iff.mpr ⟨child, member, stands⟩⟩, isVariable⟩
    · rintro ⟨inner, rfl | ⟨_, stands⟩, isVariable⟩
      · exact .inl isVariable
      · obtain ⟨child, member, stands⟩ := Node.standsIn_iff.mp stands
        exact .inr ⟨child, member, (ih child member (children child member)).mpr
          ⟨inner, stands, isVariable⟩⟩

/-- What nodes declare are the variables that stand in the owner whose children they are. -/
theorem mem_declaredAll_children {owner : Node Tag} {id : Nat}
    (placed : ∀ child ∈ owner.children, Shaped ok true child ∨ IsParameter ok child) :
    id ∈ declaredAll owner.children ↔ ∃ node, owner.StandsIn node ∧ Frames.isVariable node = true ∧
      node.id = id := by
  rw [mem_declaredAll]
  constructor
  · rintro ⟨child, member, below⟩
    obtain ⟨inner, stands, isVariable⟩ := (mem_declared_iff (placed child member)).mp below
    exact ⟨inner, Node.standsIn_iff.mpr ⟨child, member, stands⟩, isVariable⟩
  · rintro ⟨inner, stands, isVariable⟩
    obtain ⟨child, member, stands⟩ := Node.standsIn_iff.mp stands
    exact ⟨child, member, (mem_declared_iff (placed child member)).mpr ⟨inner, stands, isVariable⟩⟩

theorem declaredAll_sublist_of {nodes : List (Node Tag)}
    (each : ∀ node ∈ nodes, (declared node).Sublist (node.preorder.map Node.id)) :
    (declaredAll nodes).Sublist ((Node.preorderAll nodes).map Node.id) := by
  induction nodes with
  | nil => exact .slnil
  | cons node rest ih =>
    rw [declaredAll, Node.preorderAll, List.map_append]
    exact (each node (by simp)).append (ih fun other member => each other (by simp [member]))

/-- Variables are declared in the order of the tree. -/
theorem declared_sublist (node : Node Tag) :
    (declared node).Sublist (node.preorder.map Node.id) := by
  induction node using Node.childInduction with
  | step node ih =>
    cases function : isFunction node with
    | true =>
      cases node with
      | define => exact List.nil_sublist _
      | _ => cases function
    | false =>
      have first : (itself node).Sublist [node.id] := by
        cases node with
        | param | declare => exact List.Sublist.refl _
        | _ => exact List.nil_sublist _
      rw [declared_eq function, Node.preorder_eq, List.map_cons]
      exact first.append (declaredAll_sublist_of ih)

theorem declaredAll_sublist (nodes : List (Node Tag)) :
    (declaredAll nodes).Sublist ((Node.preorderAll nodes).map Node.id) :=
  declaredAll_sublist_of fun node _ => declared_sublist node

end Scoping

section Qualified

theorem qualify_toList (scope : Nat) (name : String) :
    (qualify scope name).toList = 'n' :: 's' :: (Nat.toDigits 10 scope ++ '.' :: name.toList) := by
  simp [qualify, renderScope, Nat.toList_repr]

/-- Scope and name can be read off a qualified name: digits end at the point. -/
theorem qualify_injective {scope scope' : Nat} {name name' : String}
    (same : qualify scope name = qualify scope' name') : scope = scope' ∧ name = name' := by
  have digits : ∀ n, ∀ c ∈ Nat.toDigits 10 n, c.isDigit = true := by
    intro n c member
    exact Nat.isDigit_of_mem_toDigits (by decide) (by decide) member
  have texts := congrArg String.toList same
  simp only [qualify_toList, List.cons.injEq, true_and] at texts
  have numbers := congrArg (List.takeWhile Char.isDigit) texts
  rw [List.takeWhile_append_of_pos (digits scope), List.takeWhile_append_of_pos (digits scope')]
    at numbers
  simp only [List.takeWhile_cons, show ('.' : Char).isDigit = false by decide, Bool.false_eq_true,
    if_false, List.append_nil] at numbers
  have sameScope : scope = scope' := by
    have read := congrArg (Nat.ofDigitChars 10 · 0) numbers
    simpa only [Nat.ofDigitChars_ten_toDigits] using read
  subst sameScope
  have rest := List.append_cancel_left texts
  simp only [List.cons.injEq, true_and] at rest
  exact ⟨rfl, String.toList_inj.mp rest⟩

end Qualified

namespace Names

open Annotations (Extends)

variable {current : Option Nat} {scope : Nat} {name : String} {tag : Tag} {st st' : State}

/-- A walk over these nodes: what was declared stays declared, and every variable among them is
declared in the scope it is noted with. -/
structure Files (nodes : List (Node Tag)) (st st' : State) : Prop where
  annotations : st.annotations.Extends st'.annotations
  size : st.scopes.size ≤ st'.scopes.size
  members : ∀ scope name id, st.scopes.member? scope name = some id →
    st'.scopes.member? scope name = some id
  filed : ∀ node ∈ nodes, ∀ name, node.variableName? = some name →
    ∃ scope, (st'.annotations.get node.id).get? .scope = some (.scope scope) ∧
      st'.scopes.member? scope name = some node.id

theorem Files.refl (st : State) : Files [] st st :=
  ⟨Extends.refl _, Nat.le_refl _, fun _ _ _ found => found, nofun⟩

theorem Files.trans {first second : List (Node Tag)} {st₁ st₂ st₃ : State}
    (one : Files first st₁ st₂) (two : Files second st₂ st₃) : Files (first ++ second) st₁ st₃ where
  annotations := one.annotations.trans two.annotations
  size := Nat.le_trans one.size two.size
  members scope name id found := two.members scope name id (one.members scope name id found)
  filed node member name isVariable := by
    rcases List.mem_append.mp member with inFirst | inSecond
    · obtain ⟨scope, noted, found⟩ := one.filed node inFirst name isVariable
      exact ⟨scope, two.annotations _ _ _ noted, two.members _ _ _ found⟩
    · exact two.filed node inSecond name isVariable

/-- A node that is no variable needs nothing. -/
theorem Files.plain {node : Node Tag} (files : Files [] st st') (plain : node.variableName? = none) :
    Files [node] st st' where
  annotations := files.annotations
  size := files.size
  members := files.members
  filed other member name isVariable := by
    obtain rfl := List.mem_singleton.mp member
    rw [plain] at isVariable
    cases isVariable

theorem files_noted {id : Nat} {value : Note} (noted : Noted id value st st') : Files [] st st' where
  annotations := Annotations.extends_of_set noted.annotations
  size := Nat.le_of_eq (by rw [noted.scopes])
  members := by
    rw [noted.scopes]
    exact fun _ _ _ found => found
  filed := nofun

theorem files_enter {node : Node Tag} (entered : enter current node st = .ok (scope, st')) :
    Files [] st st' :=
  files_noted (enter_ok entered).2

theorem files_refer (referred : refer scope name tag st = .ok ((), st')) : Files [] st st' := by
  rcases refer_ok referred with ⟨_, _, _, noted⟩ | rfl
  · exact files_noted noted
  · exact ⟨Extends.refl _, Nat.le_refl _, fun _ _ _ found => found, nofun⟩

theorem files_openScope (opened : openScope current tag st = .ok (scope, st')) :
    Files [] st st' ∧ scope < st'.scopes.size := by
  obtain ⟨rfl, noted⟩ := openScope_ok opened
  have files := files_noted noted
  refine ⟨⟨files.annotations, ?_, ?_, nofun⟩, ?_⟩
  · rw [noted.scopes]
    simp [Scopes.size]
  · intro other name id found
    rw [noted.scopes, Scopes.member?_push]
    exact found
  · rw [noted.scopes]
    simp [Scopes.size]

/-- Only a name that the scope does not have yet is declared. -/
theorem declare_absent (success : declare scope name tag st = .ok ((), st')) :
    st.scopes.member? scope name = none := by
  rw [declare, Walks.get_bind] at success
  cases found : st.scopes.declare scope name tag.id tag.span with
  | error e =>
    rw [found] at success
    exact absurd success Walks.throw_ok
  | ok scopes =>
    unfold Scopes.declare at found
    split at found
    next => cases found
    next absent => exact absent

theorem files_declare (inside : scope < st.scopes.size)
    (success : declare scope name tag st = .ok ((), st')) :
    Files [] st st' ∧ st'.scopes.member? scope name = some tag.id := by
  have absent := declare_absent success
  rw [declare_ok success]
  refine ⟨⟨Extends.refl _, by simp [Scopes.size], ?_, nofun⟩, ?_⟩
  · intro other name' id found
    rw [Scopes.member?_modify]
    split
    next same =>
      obtain ⟨rfl, rfl, _⟩ := same
      rw [absent] at found
      cases found
    next => exact found
  · rw [Scopes.member?_modify, if_pos ⟨rfl, rfl, inside⟩]

theorem files_visitAll_of {home : Nat} {nodes : List (Node Tag)}
    (each : ∀ node ∈ nodes, ∀ {st st' : State}, home < st.scopes.size →
      visit (some home) node st = .ok ((), st') → Files node.preorder st st')
    (inside : home < st.scopes.size) (success : visitAll (some home) nodes st = .ok ((), st')) :
    Files (Node.preorderAll nodes) st st' := by
  induction nodes generalizing st with
  | nil =>
    cases visitAll_nil.mp success
    exact Files.refl _
  | cons node rest ih =>
    obtain ⟨st₁, visited, visitedRest⟩ := visitAll_cons.mp success
    have first := each node (by simp) inside visited
    exact first.trans (ih (fun other member => each other (by simp [member]))
      (Nat.lt_of_lt_of_le inside first.size) visitedRest)

/-- A variable is declared in the scope it was noted with on entering it. -/
theorem files_variable {home : Nat} {node : Node Tag} {st₁ st₂ : State} {below : List (Node Tag)}
    (isVariable : node.variableName? = some name) (isTag : node.id = tag.id)
    (inside : home < st.scopes.size) (entered : enter (some home) node st = .ok (scope, st₁))
    (between : Files below st₁ st₂) (declared : declare scope name tag st₂ = .ok ((), st')) :
    Files (node :: below) st st' := by
  obtain ⟨same, noted⟩ := enter_ok entered
  cases same
  have first := files_noted noted
  obtain ⟨last, found⟩ := files_declare
    (Nat.lt_of_lt_of_le inside (first.trans between).size) declared
  have all : Files below st st' := by
    simpa using (first.trans between).trans last
  refine ⟨all.annotations, all.size, all.members, ?_⟩
  intro other member name' isOther
  rcases List.mem_cons.mp member with rfl | isBelow
  · rw [isVariable] at isOther
    cases isOther
    refine ⟨scope, ?_, by rw [isTag]; exact found⟩
    exact (between.trans last).annotations _ _ _ (Annotations.some_of_set noted.annotations)
  · exact all.filed other isBelow name' isOther

/-- Walking a node declares every variable in it in the scope it is noted with. A function is
declared outside of the scope that it opens. -/
theorem files_visit {home : Nat} {node : Node Tag} (inside : home < st.scopes.size)
    (success : visit (some home) node st = .ok ((), st')) : Files node.preorder st st' := by
  induction node using Node.childInduction generalizing home st st' with
  | step node ih =>
  have children : ∀ {nodes : List (Node Tag)} {home : Nat} {st st' : State}, nodes ⊆ node.children →
      home < st.scopes.size → visitAll (some home) nodes st = .ok ((), st') →
      Files (Node.preorderAll nodes) st st' := by
    intro nodes home st st' subset inside visited
    exact files_visitAll_of (fun child member _ _ inside visited =>
      ih child (subset member) inside visited) inside visited
  by_cases plain : isPlain node = true
  · obtain ⟨scope, st₁, entered, visited⟩ := visit_plain_ok plain success
    have first := files_enter entered
    have rest := children (List.Subset.refl _) (Nat.lt_of_lt_of_le inside first.size) visited
    have noName : node.variableName? = none := by
      cases node <;> first | rfl | cases plain
    rw [Node.preorder_eq]
    exact (first.plain noName).trans rest
  cases node with
  | block tag body =>
    obtain ⟨scope, st₁, opened, visited⟩ := visit_block_ok success
    obtain ⟨first, isNew⟩ := files_openScope opened
    exact (first.plain rfl).trans (children (List.Subset.refl _) isNew visited)
  | program tag name body =>
    obtain ⟨scope, st₁, opened, visited⟩ := visit_program_ok success
    obtain ⟨first, isNew⟩ := files_openScope opened
    exact (first.plain rfl).trans (children (List.Subset.refl _) isNew visited)
  | define tag name params body type =>
    obtain ⟨scope, st₁, st₂, st₃, declared, opened, visitedParams, visitedBody⟩ :=
      visit_define_ok success
    have first := (files_declare inside declared).1
    obtain ⟨second, isNew⟩ := files_openScope opened
    have third := children (List.subset_append_left _ _) isNew visitedParams
    have last := ih body (by simp [Node.children]) (Nat.lt_of_lt_of_le isNew third.size) visitedBody
    rw [Node.preorder]
    exact ((first.trans second).plain rfl).trans (third.trans last)
  | param tag name type =>
    obtain ⟨scope, st₁, entered, declared⟩ := visit_param_ok success
    exact files_variable rfl rfl inside entered (Files.refl _) declared
  | declare tag mutability name type value =>
    obtain ⟨scope, st₁, st₂, entered, visited, declared⟩ := visit_declare_ok success
    have below := ih value (by simp [Node.children])
      (Nat.lt_of_lt_of_le inside (files_enter entered).size) visited
    rw [Node.preorder]
    exact files_variable rfl rfl inside entered below declared
  | assign tag name value =>
    obtain ⟨scope, st₁, st₂, entered, referred, visited⟩ := visit_assign_ok success
    have first := (files_enter entered).trans (files_refer referred)
    have rest := ih value (by simp [Node.children]) (Nat.lt_of_lt_of_le inside first.size) visited
    rw [Node.preorder]
    exact (first.plain rfl).trans rest
  | leaf tag kind =>
    cases kind with
    | valueId name =>
      obtain ⟨scope, st₁, entered, referred⟩ := visit_name_ok success
      exact ((files_enter entered).trans (files_refer referred)).plain rfl
    | _ => exact absurd rfl plain
  | _ => exact absurd rfl plain

theorem files_settleAll {functions : List Nat} {uses : List Pending} {u : PUnit}
    (success : uses.forM (settle functions) st = .ok (u, st')) : Files [] st st' := by
  induction uses generalizing st with
  | nil =>
    obtain ⟨_, rfl⟩ := Walks.pure_ok.mp success
    exact Files.refl _
  | cons use rest ih =>
    rw [List.forM, Walks.then_ok] at success
    obtain ⟨st₁, settled, settledRest⟩ := success
    obtain ⟨_, _, noted⟩ := settle_ok settled
    exact (files_noted noted).trans (ih settledRest)

end Names

/-- Once names are resolved, a scope that variables are noted with knows them by their names. -/
theorem Document.filed_of_resolveNames {document resolved : Document} {tag : Tag} {name : String}
    {body : List (Node Tag)} (root : document.root = .program tag name body)
    (success : document.resolveNames = .ok resolved) :
    ∀ node ∈ document.root.preorder, ∀ name, node.variableName? = some name →
      ∃ scope, (resolved.annotations.get node.id).get? .scope = some (.scope scope) ∧
        resolved.scopes.member? scope name = some node.id := by
  obtain ⟨⟨u, last⟩, walked, finished⟩ := Walks.except_bind_ok.mp success
  cases finished
  simp only [StateT.run, Names.resolveAll] at walked
  rw [Walks.then_ok] at walked
  obtain ⟨st, visited, settled⟩ := walked
  rw [Walks.get_bind] at settled
  rw [root] at visited ⊢
  obtain ⟨scope, st₁, opened, visitedBody⟩ := Names.visit_program_ok visited
  obtain ⟨first, isNew⟩ := Names.files_openScope opened
  have second := Names.files_visitAll_of (fun _ _ _ _ inside visited =>
    Names.files_visit inside visited) isNew visitedBody
  have all := ((first.plain (show (Node.program tag name body).variableName? = none from rfl)).trans second).trans
    (Names.files_settleAll settled)
  rw [List.append_nil] at all
  exact all.filed

namespace Frames

open Annotations (Extends)

variable {st st' : State}

/-- Every slot is named by the scope and the name of its variable, which is one of the nodes. -/
def Named (nodes : List (Node Tag)) (annotations : Annotations) (locals : Locals) : Prop :=
  ∀ qualified id, (qualified, id) ∈ locals.slots → ∃ node ∈ nodes, node.id = id ∧
    ∃ scope name, node.variableName? = some name ∧
      (annotations.get id).get? .scope = some (.scope scope) ∧ qualified = qualify scope name

theorem Named.extend {nodes : List (Node Tag)} {before after : Annotations} {locals : Locals}
    (named : Named nodes before locals) (extended : before.Extends after) :
    Named nodes after locals := by
  intro qualified id member
  obtain ⟨node, isNode, same, scope, name, isVariable, noted, isQualified⟩ := named qualified id member
  exact ⟨node, isNode, same, scope, name, isVariable, extended _ _ _ noted, isQualified⟩

/-- The frame being filled and the finished ones are named. -/
structure AllNamed (nodes : List (Node Tag)) (st : State) : Prop where
  current : ∀ locals, st.current = some locals → Named nodes st.annotations locals
  finished : ∀ id locals, (st.annotations.get id).get? .locals = some (.locals locals) →
    Named nodes st.annotations locals

theorem bind_named {nodes : List (Node Tag)} {node : Node Tag} {name : String} {u : Unit}
    (isNode : node ∈ nodes) (isVariable : node.variableName? = some name)
    (named : AllNamed nodes st) (success : bind node name st = .ok (u, st')) :
    AllNamed nodes st' ∧ st.annotations.Extends st'.annotations := by
  obtain ⟨locals, scope, filling, inScope, written, current⟩ := bind_ok success
  have extended := Annotations.extends_of_set written
  have noted : (st.annotations.get node.id).get? .scope = some (.scope scope) := by
    simp [Notes.get?, inScope]
  refine ⟨⟨?_, ?_⟩, extended⟩
  · intro locals' filling'
    rw [current] at filling'
    cases filling'
    intro qualified id member
    simp only [Locals.insert, List.mem_append, List.mem_singleton, Prod.mk.injEq] at member
    rcases member with old | ⟨rfl, rfl⟩
    · exact (named.current locals filling).extend extended qualified id old
    · exact ⟨node, isNode, rfl, scope, name, isVariable, extended _ _ _ noted, rfl⟩
  · intro id locals' found
    rw [Annotations.get?_of_set written] at found
    split at found
    next same => cases same.2
    next => exact (named.finished id locals' found).extend extended

/-- Closing a named frame, with a named one to go on with. -/
theorem finish_named {nodes : List (Node Tag)} {node : Node Tag} {name : String}
    {outer : Option Locals} {u : Unit} (named : AllNamed nodes st)
    (namedOuter : ∀ locals, outer = some locals → Named nodes st.annotations locals)
    (success : finish node name outer st = .ok (u, st')) :
    AllNamed nodes st' ∧ st.annotations.Extends st'.annotations := by
  simp only [finish, Walks.get_bind, Walks.set_bind] at success
  obtain ⟨written, current⟩ := note_ok success
  have extended := Annotations.extends_of_set written
  refine ⟨⟨?_, ?_⟩, extended⟩
  · intro locals filling
    exact (namedOuter locals (current.symm.trans filling)).extend extended
  · intro id locals found
    rw [Annotations.get?_of_set written] at found
    split at found
    next =>
      cases found
      cases filling : st.current with
      | none => simp [Named]
      | some locals => exact (named.current locals filling).extend extended
    next => exact (named.finished id locals found).extend extended

/-- Starting an empty frame. -/
theorem AllNamed.start {nodes : List (Node Tag)} (named : AllNamed nodes st) :
    AllNamed nodes { st with current := some {} } where
  current locals filling := by
    cases filling
    exact nofun
  finished := named.finished

/-- A walk names the slots it gives out. -/
def Names (nodes : List (Node Tag)) (node : Node Tag) : Prop :=
  ∀ {st st' : State}, AllNamed nodes st → visit node st = .ok ((), st') →
    AllNamed nodes st' ∧ st.annotations.Extends st'.annotations

theorem names_visitAll {nodes walked : List (Node Tag)} (each : ∀ node ∈ walked, Names nodes node)
    (named : AllNamed nodes st) (success : visitAll walked st = .ok ((), st')) :
    AllNamed nodes st' ∧ st.annotations.Extends st'.annotations := by
  induction walked generalizing st with
  | nil =>
    cases visitAll_nil.mp success
    exact ⟨named, Extends.refl _⟩
  | cons node rest ih =>
    obtain ⟨st₁, visited, visitedRest⟩ := visitAll_cons.mp success
    obtain ⟨named₁, extended₁⟩ := each node (by simp) named visited
    obtain ⟨named₂, extended₂⟩ := ih (fun other member => each other (by simp [member])) named₁
      visitedRest
    exact ⟨named₂, extended₁.trans extended₂⟩

theorem names_visit {nodes : List (Node Tag)} {node : Node Tag} (inside : node.preorder ⊆ nodes) :
    Names nodes node := by
  induction node using Node.childInduction with
  | step node ih =>
  intro st st' named success
  have below : ∀ child ∈ node.children, Names nodes child := fun child member =>
    ih child member (List.Subset.trans (Node.preorder_subset_of_child member) inside)
  by_cases plain : isPlain node = true
  · exact names_visitAll below named (visit_plain plain ▸ success)
  cases node with
  | param tag name type =>
    rw [visit] at success
    exact bind_named (inside (Node.self_mem_preorder _)) rfl named success
  | program tag name body =>
    rw [visit, start_bind] at success
    simp only [Walks.then_ok] at success
    obtain ⟨st₁, visited, finished⟩ := success
    obtain ⟨named₁, extended₁⟩ := names_visitAll below named.start visited
    obtain ⟨named₂, extended₂⟩ := finish_named named₁
      (fun locals isOuter => (named.current locals isOuter).extend extended₁) finished
    exact ⟨named₂, extended₁.trans extended₂⟩
  | define tag name params body type =>
    rw [visit, start_bind] at success
    simp only [Walks.then_ok] at success
    obtain ⟨st₁, visitedParams, st₂, visitedBody, finished⟩ := success
    obtain ⟨named₁, extended₁⟩ := names_visitAll
      (fun param member => below param (by simp [Node.children, member])) named.start visitedParams
    obtain ⟨named₂, extended₂⟩ := below body (by simp [Node.children]) named₁ visitedBody
    have extended := extended₁.trans extended₂
    obtain ⟨named₃, extended₃⟩ := finish_named named₂
      (fun locals isOuter => (named.current locals isOuter).extend extended) finished
    exact ⟨named₃, extended.trans extended₃⟩
  | declare tag mutability name type value =>
    rw [visit, Walks.then_ok] at success
    obtain ⟨st₁, bound, visited⟩ := success
    obtain ⟨named₁, extended₁⟩ := bind_named (inside (Node.self_mem_preorder _)) rfl named bound
    obtain ⟨named₂, extended₂⟩ := below value (by simp [Node.children]) named₁ visited
    exact ⟨named₂, extended₁.trans extended₂⟩
  | _ => exact absurd rfl plain

end Frames

/-- Giving out slots names them, if no frame was noted before. -/
theorem Document.named_of_assignSlots {document framed : Document}
    (unframed : ∀ id, (document.annotations.get id).get? .locals = none)
    (success : document.assignSlots = .ok framed) :
    ∀ id locals, (framed.annotations.get id).get? .locals = some (.locals locals) →
      Frames.Named document.root.preorder framed.annotations locals := by
  obtain ⟨_, last, walked, rfl⟩ := assignSlots_ok success
  have before : Frames.AllNamed document.root.preorder ⟨document.annotations, none, []⟩ := by
    refine ⟨nofun, ?_⟩
    intro id locals found
    rw [unframed] at found
    cases found
  exact (Frames.names_visit (List.Subset.refl _) before walked).1.finished

/-- The table of an owner: it lists the variables that stand in the owner, each once, in the order of
the tree with the parameters first; each is noted with its place in the table, and is found there
under its own qualified name. -/
structure Document.HasTable (document : Document) (owner : Node Tag) (table : Locals) : Prop where
  noted : (document.notes owner).locals = some table
  lists : ∀ id, id ∈ table.ids ↔
    ∃ node, owner.StandsIn node ∧ Frames.isVariable node = true ∧ node.id = id
  once : table.ids.Nodup
  parameters : ∃ others, table.ids = owner.parameters.map Node.id ++ others
  ordered : table.ids.Sublist (owner.preorder.map Node.id)
  indexed : ∀ slot id, table.ids[slot]? = some id →
    (document.annotations.get id).index = some slot
  named : ∀ qualified id, (qualified, id) ∈ table.slots → ∃ node, owner.StandsIn node ∧
    node.id = id ∧ ∃ scope name, node.variableName? = some name ∧
      (document.notes node).scope = some scope ∧ qualified = qualify scope name
  distinct : (table.slots.map Prod.fst).Nodup
  found : ∀ slot qualified id, table.slots[slot]? = some (qualified, id) →
    table.indexOf? qualified = some slot

theorem Node.StandsIn.mem_preorder {owner node : Node Tag} (stands : owner.StandsIn node) :
    node ∈ owner.preorder := by
  induction stands with
  | child member => exact Node.preorder_subset_of_child member (Node.self_mem_preorder _)
  | through member _ _ ih => exact Node.preorder_subset_of_child member ih

/-- The nodes of a part of a tree stand in the tree in the same order. -/
theorem Node.preorder_sublist {inner node : Node Tag} (inside : inner ∈ node.preorder) :
    inner.preorder.Sublist node.preorder := by
  induction node using Node.childInduction with
  | step node ih =>
    rcases Node.mem_preorder.mp inside with rfl | ⟨child, member, inChild⟩
    · exact List.Sublist.refl _
    · have parts : ∀ nodes : List (Node Tag), child ∈ nodes →
          child.preorder.Sublist (Node.preorderAll nodes) := by
        intro nodes isChild
        induction nodes with
        | nil => cases isChild
        | cons first rest ih =>
          rw [Node.preorderAll]
          rcases List.mem_cons.mp isChild with rfl | inRest
          · exact List.sublist_append_left _ _
          · exact (ih inRest).trans (List.sublist_append_right _ _)
      rw [Node.preorder_eq node]
      exact ((ih child member inChild).trans (parts _ member)).cons _

/-- In a table without a repeated name every slot is found by its name. -/
theorem Locals.indexOf?_of_distinct {table : Locals} {slot id : Nat} {qualified : String}
    (distinct : (table.slots.map Prod.fst).Nodup)
    (found : table.slots[slot]? = some (qualified, id)) :
    table.indexOf? qualified = some slot := by
  obtain ⟨inside, isSlot⟩ := List.getElem?_eq_some_iff.mp found
  rw [indexOf?, List.findIdx?_eq_some_iff_getElem]
  refine ⟨inside, by simp [isSlot], ?_⟩
  intro earlier before
  have different := List.pairwise_iff_getElem.mp distinct earlier slot
    (by simpa using Nat.lt_trans before inside) (by simpa using inside) before
  simpa [isSlot] using different

/-- Names are distinct where each is that of a variable in a scope that knows no other by it. -/
theorem Frames.Named.distinct {nodes : List (Node Tag)} {annotations : Annotations}
    {scopes : Scopes} {table : Locals} (named : Named nodes annotations table)
    (filed : ∀ node ∈ nodes, ∀ name, node.variableName? = some name →
      ∃ scope, (annotations.get node.id).get? .scope = some (.scope scope) ∧
        scopes.member? scope name = some node.id)
    (once : table.ids.Nodup) : (table.slots.map Prod.fst).Nodup := by
  rw [Locals.ids] at once
  refine List.Nodup.map_on ?_ once.of_map
  rintro ⟨qualified, id⟩ isOne ⟨_, id'⟩ isTwo rfl
  obtain ⟨one, isNode, rfl, scope, name, isVariable, noted, isQualified⟩ := named _ _ isOne
  obtain ⟨two, isNode', rfl, scope', name', isVariable', noted', isQualified'⟩ := named _ _ isTwo
  obtain ⟨rfl, rfl⟩ := qualify_injective (isQualified.symm.trans isQualified')
  obtain ⟨home, notedHome, known⟩ := filed one isNode name isVariable
  obtain ⟨home', notedHome', known'⟩ := filed two isNode' name isVariable'
  rw [noted] at notedHome
  rw [noted'] at notedHome'
  cases notedHome
  cases notedHome'
  rw [Option.some.inj (known.symm.trans known')]

/-- An owner whose children are of the right shape has its table. -/
theorem Document.hasTable {ok : Node.Allowed} {document : Document} {scopes : Scopes}
    {owner : Node Tag} {table : Locals}
    (isTree : document.IsTree) (isNode : owner ∈ document.root.preorder)
    (shaped : ∀ child ∈ owner.children, Node.Shaped ok true child ∨ Node.IsParameter ok child)
    (filed : ∀ node ∈ document.root.preorder, ∀ name, node.variableName? = some name →
      ∃ scope, (document.annotations.get node.id).get? .scope = some (.scope scope) ∧
        scopes.member? scope name = some node.id)
    (named : Frames.Named document.root.preorder document.annotations table)
    (noted : (document.annotations.get owner.id).get? .locals = some (.locals table))
    (ids : table.ids = Scoping.declaredAll owner.children)
    (parameters : ∃ others, table.ids = owner.parameters.map Node.id ++ others)
    (indexed : ∀ slot id, table.ids[slot]? = some id →
      (document.annotations.get id).get? .index = some (.index slot)) :
    document.HasTable owner table := by
  have lists : ∀ id, id ∈ table.ids ↔
      ∃ node, owner.StandsIn node ∧ Frames.isVariable node = true ∧ node.id = id := by
    intro id
    rw [ids]
    exact Scoping.mem_declaredAll_children shaped
  have ordered : table.ids.Sublist (owner.preorder.map Node.id) := by
    rw [ids, Node.preorder_eq, List.map_cons]
    exact (Scoping.declaredAll_sublist _).cons _
  have inside := Node.preorder_subset isNode
  have once : table.ids.Nodup :=
    (ordered.trans ((Node.preorder_sublist isNode).map Node.id)).nodup isTree
  have distinct := named.distinct filed once
  refine ⟨Notes.locals_of_get? noted, lists, once, parameters, ordered, ?_, ?_, distinct, ?_⟩
  · intro slot id found
    exact Notes.index_of_get? (indexed slot id found)
  · intro qualified id member
    obtain ⟨node, isVariable, rfl, scope, name, isName, inScope, isQualified⟩ :=
      named qualified id member
    have listed : node.id ∈ table.ids := List.mem_map.mpr ⟨_, member, rfl⟩
    obtain ⟨node', stands, _, same⟩ := (lists node.id).mp listed
    obtain rfl := Node.eq_of_id isTree (inside stands.mem_preorder) isVariable same
    refine ⟨node', stands, rfl, scope, name, isName, ?_, isQualified⟩
    simpa [Notes.get?, notes] using inScope
  · intro slot qualified id found
    exact Locals.indexOf?_of_distinct distinct found

/-- Later passes leave the tables as they are. -/
theorem Document.HasTable.extend {document document' : Document} {owner : Node Tag} {table : Locals}
    (has : document.HasTable owner table)
    (extended : document.annotations.Extends document'.annotations) :
    document'.HasTable owner table where
  noted := Notes.locals_of_get? (extended _ _ _ (by
    have noted := has.noted
    simp only [notes] at noted
    simp [Notes.get?, noted]))
  lists := has.lists
  once := has.once
  parameters := has.parameters
  ordered := has.ordered
  indexed slot id found := Notes.index_of_get? (extended _ _ _ (by
    simp [Notes.get?, has.indexed slot id found]))
  named qualified id member := by
    obtain ⟨node, stands, same, scope, name, isName, inScope, isQualified⟩ :=
      has.named qualified id member
    have noted : (document.annotations.get node.id).get? .scope = some (.scope scope) := by
      simp only [notes] at inScope
      simp [Notes.get?, inScope]
    refine ⟨node, stands, same, scope, name, isName, ?_, isQualified⟩
    simpa [Notes.get?, notes] using extended _ _ _ noted
  distinct := has.distinct
  found := has.found

/-- Once names are resolved and slots given out, every owner has its table. Variables are filed in
their scopes before slots are given out, and notes are never taken back. The owner is the program,
of which the frame is empty, or a function. -/
theorem Document.hasTable_of_assignSlots {ok : Node.Allowed} {document named slotted : Document}
    {tag : Tag} {name : String} {body : List (Node Tag)}
    (root : document.root = .program tag name body) (shaped : Node.ShapedAll ok true body)
    (empty : Scoping.declaredAll body = [])
    (isTree : document.IsTree) (scopes : document.scopes = {}) (notes : document.annotations = {})
    (resolve : document.resolveNames = .ok named) (assign : named.assignSlots = .ok slotted)
    {owner : Node Tag} (isNode : owner ∈ slotted.root.preorder)
    (owns : Frames.ownsFrame owner = true) : ∃ table, slotted.HasTable owner table := by
  have sameNamed := root_of_resolveNames resolve
  have only := (proper_resolveNames root isTree scopes notes)
  rw [resolve] at only
  have unframed : ∀ id, (named.annotations.get id).get? .locals = none :=
    fun id => only.2.2 id .locals (by decide)
  obtain ⟨sameSlotted, extended, framed, locals, noted, ids⟩ :=
    framed_of_assignSlots (sameNamed.trans root) shaped assign
  have named' := named_of_assignSlots unframed assign
  have filed := filed_of_resolveNames root resolve
  have sameRoot : slotted.root = document.root := sameSlotted.trans sameNamed
  rw [← sameNamed, ← sameSlotted] at filed
  rw [← sameSlotted] at named' framed
  have filed' : ∀ node ∈ slotted.root.preorder, ∀ name, node.variableName? = some name →
      ∃ scope, (slotted.annotations.get node.id).get? .scope = some (.scope scope) ∧
        named.scopes.member? scope name = some node.id := by
    intro node member name isVariable
    obtain ⟨scope, inScope, known⟩ := filed node member name isVariable
    exact ⟨scope, extended _ _ _ inScope, known⟩
  have isTree' : slotted.IsTree := by
    unfold IsTree at isTree ⊢
    rwa [sameRoot]
  have shapedInner : ∀ inner ∈ Node.preorderAll body,
      Node.Shaped ok true inner ∨ Node.IsParameter ok inner := by
    intro inner member
    obtain ⟨top, isTop, inTop⟩ := Node.mem_preorderAll.mp member
    exact (Node.shapedAll_iff.mp shaped top isTop).inner inTop
  have isOwner := isNode
  rw [sameRoot, root, Node.preorder, List.mem_cons] at isOwner
  rcases isOwner with rfl | below
  · have shapedChildren : ∀ child ∈ (Node.program tag name body).children,
        Node.Shaped ok true child ∨ Node.IsParameter ok child :=
      fun child member => .inl (Node.shapedAll_iff.mp shaped child member)
    refine ⟨locals, hasTable isTree' isNode shapedChildren filed' (named' _ _ noted) noted ids ?_ ?_⟩
    · exact ⟨locals.ids, rfl⟩
    · rw [ids, empty]
      exact nofun
  · have shapedOwner := shapedInner owner below
    cases owner with
    | define tag' name' params body' type =>
      obtain ⟨table, noted, ids, indexed⟩ := framed tag' name' params body' type isNode
      have shapedDefine : Node.Shaped ok true (.define tag' name' params body' type) := by
        rcases shapedOwner with shaped | ⟨_, _, _, impossible, _⟩
        · exact shaped
        · cases impossible
      have isAll : table.ids = Scoping.declaredAll
          (Node.define tag' name' params body' type).children := by
        rw [ids, Node.children, Scoping.declaredAll_append,
          Frames.declaredAll_parameters shapedDefine.2.2.1]
        simp [Scoping.declaredAll]
      refine ⟨table, hasTable isTree' isNode (fun child member => shapedDefine.child member) filed'
        (named' _ _ noted) noted isAll ⟨_, ids⟩ indexed⟩
    | program =>
      rcases shapedOwner with impossible | ⟨_, _, _, impossible, _⟩
      · cases impossible
      · cases impossible
    | _ => cases owns

/-- Every owner of a frame in an analysed text has its table. -/
theorem Program.hasTable_of_analyse {typeCheck : Bool} {anonymous source : String}
    {parsed document : Document} (parse : Document.parse anonymous source = .ok parsed)
    (analysed : Program.analyse typeCheck parsed = .ok document) {owner : Node Tag}
    (isNode : owner ∈ document.root.preorder) (owns : Frames.ownsFrame owner = true) :
    ∃ table, document.HasTable owner table := by
  obtain ⟨wrapped, wrap, analyse⟩ := Walks.except_bind_ok.mp analysed
  obtain ⟨named, resolve, analyse⟩ := Walks.except_bind_ok.mp analyse
  obtain ⟨slotted, assign, check⟩ := Walks.except_bind_ok.mp analyse
  obtain ⟨root, function, block, call, callee, name, body, isWrapped, shaped, noScopes, noNotes⟩ :=
    @Document.wrapped_of_parse .all _ _ _ _ parse trivial (fun _ _ _ _ => trivial) wrap
  have isTree := (Document.numbered_wrapProgram
    (Document.numbered_joinAlternatives (Document.numbered_parse parse)) wrap).isTree
  obtain ⟨same, extended⟩ := Program.Stages.extends_of_analyse check
  rw [same] at isNode
  obtain ⟨table, has⟩ := Document.hasTable_of_assignSlots isWrapped
    (Program.Stages.shaped_wrapped shaped trivial) rfl isTree noScopes noNotes resolve assign isNode
    owns
  exact ⟨table, has.extend extended⟩

end ScriptVM
