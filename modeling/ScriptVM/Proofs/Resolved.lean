import ScriptVM.Document.Names
import ScriptVM.Proofs.Scoping
import ScriptVM.Proofs.Shape
import ScriptVM.Proofs.Walks

/-!
What resolving names has done.

Every node is noted with a scope, once, so no two nodes of a resolved tree share an identity, and a
declaration is in a scope only if its node has been walked. A walk adds to the scope it stands in
what the node itself declares; whatever the node declares inside is in scopes of its own. Hence what
is in sight at a node is what has been declared before it, and every use of a variable of the
function itself comes after the declaration.
-/
namespace ScriptVM.Names

open Annotations (Extends)
open Node (Shaped ShapedAll)
open Scoping (InScope InScopeAll InScopeStatements Bound declared introduced)

variable {current : Option Nat} {scope : Nat} {name : String} {tag : Tag} {st st' : State}

section Operations

/-- A note was written, and nothing else. -/
structure Noted (id : Nat) (value : Note) (st st' : State) : Prop where
  scopes : st'.scopes = st.scopes
  pending : st'.pending = st.pending
  annotations : st.annotations.set id value = .ok st'.annotations

theorem note_ok {id : Nat} {value : Note} {u : Unit} (success : note id value st = .ok (u, st')) :
    Noted id value st st' := by
  rw [note, Walks.get_bind, Walks.lift_bind_ok] at success
  obtain ⟨annotations, written, finished⟩ := success
  rw [Walks.set_ok] at finished
  subst finished
  exact ⟨rfl, rfl, Annotations.write_ok.mp written⟩

theorem openScope_ok (success : openScope current tag st = .ok (scope, st')) :
    scope = st.scopes.size ∧
      Noted tag.id (.scope scope) { st with scopes := ⟨st.scopes.all.push ⟨current, []⟩⟩ } st' := by
  simp only [openScope, Walks.get_bind, Walks.set_bind] at success
  rw [Walks.bind_ok] at success
  obtain ⟨_, st₁, noted, finished⟩ := success
  rw [Walks.pure_ok] at finished
  obtain ⟨rfl, rfl⟩ := finished
  exact ⟨rfl, note_ok noted⟩

theorem enter_ok {node : Node Tag} (success : enter current node st = .ok (scope, st')) :
    current = some scope ∧ Noted node.id (.scope scope) st st' := by
  unfold enter at success
  split at success
  next scope' =>
    rw [Walks.bind_ok] at success
    obtain ⟨_, st₁, noted, finished⟩ := success
    rw [Walks.pure_ok] at finished
    obtain ⟨rfl, rfl⟩ := finished
    exact ⟨rfl, note_ok noted⟩
  next => exact absurd success Walks.throw_ok

theorem declare_ok {u : Unit} (success : declare scope name tag st = .ok (u, st')) :
    st' = { st with scopes := ⟨st.scopes.all.modify scope (Scopes.addMember name tag.id)⟩ } := by
  rw [declare, Walks.get_bind] at success
  cases found : st.scopes.declare scope name tag.id tag.span with
  | error e =>
    rw [found] at success
    exact absurd success Walks.throw_ok
  | ok scopes =>
    rw [found] at success
    unfold Scopes.declare at found
    split at found
    next => cases found
    next =>
      cases found
      exact Walks.set_ok.mp success

theorem refer_ok {u : Unit} (success : refer scope name tag st = .ok (u, st')) :
    (∃ home declaration, st.scopes.resolve scope name = some (home, declaration) ∧
      Noted tag.id (.binding declaration) st st') ∨
    st' = { st with pending := ⟨tag, scope, name⟩ :: st.pending } := by
  rw [refer, Walks.get_bind] at success
  cases found : st.scopes.resolve scope name with
  | none =>
    rw [found] at success
    exact .inr (Walks.set_ok.mp success)
  | some entry =>
    obtain ⟨home, declaration⟩ := entry
    rw [found] at success
    exact .inl ⟨home, declaration, rfl, note_ok success⟩

end Operations

section Nodes

/-- A node that opens no scope, declares nothing and uses no name itself. -/
def isPlain : Node Tag → Bool
  | .leaf _ (.valueId _) => false
  | .leaf .. | .branch .. | .orElse .. | .loop .. | .binary .. | .call .. | .aggregate .. => true
  | _ => false

variable {node : Node Tag}

theorem visitAll_nil : visitAll current [] st = .ok ((), st') ↔ st' = st := by
  rw [visitAll, Walks.pure_ok]
  simp

theorem visitAll_cons {rest : List (Node Tag)} :
    visitAll current (node :: rest) st = .ok ((), st') ↔
      ∃ st₁, visit current node st = .ok ((), st₁) ∧
        visitAll current rest st₁ = .ok ((), st') := by
  rw [visitAll, Walks.then_ok]

/-- A plain node is noted with its scope, then its children are walked. -/
theorem visit_plain (current : Option Nat) (plain : isPlain node = true) :
    visit current node = (do let _ ← enter current node; visitAll current node.children) := by
  cases node with
  | leaf tag kind =>
    cases kind with
    | valueId name => cases plain
    | _ => simp [Node.children]
  | call tag callee args trailing =>
    cases trailing with
    | none => simp [Node.children]
    | some trailing => simp [Node.children]
  | aggregate | orElse | branch | loop | binary => simp [Node.children]
  | _ => cases plain

theorem visit_plain_ok (plain : isPlain node = true)
    (success : visit current node st = .ok ((), st')) :
    ∃ scope st₁, enter current node st = .ok (scope, st₁) ∧
      visitAll current node.children st₁ = .ok ((), st') := by
  rw [visit_plain current plain] at success
  exact Walks.bind_ok.mp success

theorem visit_block_ok {body : List (Node Tag)}
    (success : visit current (.block tag body) st = .ok ((), st')) :
    ∃ scope st₁, openScope current tag st = .ok (scope, st₁) ∧
      visitAll (some scope) body st₁ = .ok ((), st') := by
  rw [visit, Walks.bind_ok] at success
  exact success

theorem visit_program_ok {body : List (Node Tag)}
    (success : visit current (.program tag name body) st = .ok ((), st')) :
    ∃ scope st₁, openScope current tag st = .ok (scope, st₁) ∧
      visitAll (some scope) body st₁ = .ok ((), st') := by
  rw [visit, Walks.bind_ok] at success
  exact success

theorem visit_define_ok {outer : Nat} {params : List (Node Tag)} {body : Node Tag}
    {result : Option String}
    (success : visit (some outer) (.define tag name params body result) st = .ok ((), st')) :
    ∃ scope st₁ st₂ st₃, declare outer name tag st = .ok ((), st₁) ∧
      openScope (some outer) tag st₁ = .ok (scope, st₂) ∧
      visitAll (some scope) params st₂ = .ok ((), st₃) ∧
      visit (some scope) body st₃ = .ok ((), st') := by
  rw [visit] at success
  simp only [Walks.then_ok] at success
  obtain ⟨st₁, declared, success⟩ := success
  rw [Walks.bind_ok] at success
  obtain ⟨scope, st₂, opened, success⟩ := success
  rw [Walks.then_ok] at success
  obtain ⟨st₃, visited, success⟩ := success
  exact ⟨scope, st₁, st₂, st₃, declared, opened, visited, success⟩

theorem visit_param_ok {type : Option String}
    (success : visit current (.param tag name type) st = .ok ((), st')) :
    ∃ scope st₁, enter current (.param tag name type) st = .ok (scope, st₁) ∧
      declare scope name tag st₁ = .ok ((), st') := by
  rw [visit, Walks.bind_ok] at success
  exact success

theorem visit_declare_ok {mutability : Mutability} {type : Option String} {value : Node Tag}
    (success : visit current (.declare tag mutability name type value) st = .ok ((), st')) :
    ∃ scope st₁ st₂, enter current (.declare tag mutability name type value) st = .ok (scope, st₁) ∧
      visit current value st₁ = .ok ((), st₂) ∧ declare scope name tag st₂ = .ok ((), st') := by
  rw [visit, Walks.bind_ok] at success
  obtain ⟨scope, st₁, entered, success⟩ := success
  rw [Walks.then_ok] at success
  obtain ⟨st₂, visited, success⟩ := success
  exact ⟨scope, st₁, st₂, entered, visited, success⟩

theorem visit_assign_ok {value : Node Tag}
    (success : visit current (.assign tag name value) st = .ok ((), st')) :
    ∃ scope st₁ st₂, enter current (.assign tag name value) st = .ok (scope, st₁) ∧
      refer scope name tag st₁ = .ok ((), st₂) ∧ visit current value st₂ = .ok ((), st') := by
  rw [visit, Walks.bind_ok] at success
  obtain ⟨scope, st₁, entered, success⟩ := success
  rw [Walks.then_ok] at success
  obtain ⟨st₂, referred, success⟩ := success
  exact ⟨scope, st₁, st₂, entered, referred, success⟩

theorem visit_name_ok (success : visit current (.leaf tag (.valueId name)) st = .ok ((), st')) :
    ∃ scope st₁, enter current (.leaf tag (.valueId name)) st = .ok (scope, st₁) ∧
      refer scope name tag st₁ = .ok ((), st') := by
  rw [visit, Walks.bind_ok] at success
  exact success

end Nodes

section Growth

/-- A node that has not been noted with a scope. -/
def Unvisited (st : State) (id : Nat) : Prop :=
  (st.annotations.get id).get? .scope = none

/-- Declarations are made of nodes that have been walked. -/
def MembersVisited (st : State) : Prop :=
  ∀ (scope : Nat) (entry : Scope), st.scopes.all[scope]? = some entry →
    ∀ name declaration, (name, declaration) ∈ entry.members → ¬ Unvisited st declaration

/-- A walk over nodes with these identities keeps what is noted, and each node is noted once. -/
structure Grown (ids : List Nat) (st st' : State) : Prop where
  annotations : st.annotations.Extends st'.annotations
  pending : st.pending ⊆ st'.pending
  fresh : ∀ id ∈ ids, Unvisited st id
  visited : ∀ id ∈ ids, ¬ Unvisited st' id
  distinct : ids.Nodup
  members : MembersVisited st → MembersVisited st'

theorem Unvisited.earlier {id : Nat} (extended : st.annotations.Extends st'.annotations)
    (unvisited : Unvisited st' id) : Unvisited st id :=
  extended.none_of_none unvisited

theorem Grown.trans {first second : List Nat} {st₁ st₂ st₃ : State} (one : Grown first st₁ st₂)
    (two : Grown second st₂ st₃) : Grown (first ++ second) st₁ st₃ where
  annotations := one.annotations.trans two.annotations
  pending := fun _ member => two.pending (one.pending member)
  fresh := by
    intro id member
    rcases List.mem_append.mp member with inFirst | inSecond
    · exact one.fresh id inFirst
    · exact (two.fresh id inSecond).earlier one.annotations
  visited := by
    intro id member
    rcases List.mem_append.mp member with inFirst | inSecond
    · exact fun unvisited => one.visited id inFirst (unvisited.earlier two.annotations)
    · exact two.visited id inSecond
  distinct := by
    refine List.nodup_append.mpr ⟨one.distinct, two.distinct, ?_⟩
    rintro id inFirst _ inSecond rfl
    exact one.visited id inFirst (two.fresh id inSecond)
  members := fun holds => two.members (one.members holds)

theorem MembersVisited.of_same_scopes (holds : MembersVisited st)
    (scopes : st'.scopes = st.scopes) (extended : st.annotations.Extends st'.annotations) :
    MembersVisited st' := by
  intro scope entry found name declaration member unvisited
  rw [scopes] at found
  exact holds scope entry found name declaration member (unvisited.earlier extended)

theorem Noted.grown_scope {id : Nat} (noted : Noted id (.scope scope) st st') :
    Grown [id] st st' where
  annotations := Annotations.extends_of_set noted.annotations
  pending := by simp [noted.pending]
  fresh := by
    simp only [List.mem_singleton, forall_eq]
    exact Annotations.none_of_set noted.annotations
  visited := by
    simp only [List.mem_singleton, forall_eq, Unvisited]
    have present := Annotations.some_of_set noted.annotations
    simp only [Note.key] at present
    simp [present]
  distinct := by simp
  members holds := holds.of_same_scopes noted.scopes (Annotations.extends_of_set noted.annotations)

theorem grown_refer (referred : refer scope name tag st = .ok ((), st')) : Grown [] st st' := by
  rcases refer_ok referred with ⟨home, declaration, _, noted⟩ | rfl
  · have extended := Annotations.extends_of_set noted.annotations
    exact ⟨extended, by simp [noted.pending], by simp, by simp, by simp,
      fun holds => holds.of_same_scopes noted.scopes extended⟩
  · exact ⟨Extends.refl _, by simp, by simp, by simp, by simp, fun holds => holds⟩

theorem grown_openScope (opened : openScope current tag st = .ok (scope, st')) :
    Grown [tag.id] st st' := by
  obtain ⟨rfl, noted⟩ := openScope_ok opened
  have grown := noted.grown_scope
  refine ⟨grown.annotations, grown.pending, grown.fresh, grown.visited, grown.distinct, ?_⟩
  intro holds
  refine grown.members ?_
  intro scope entry found name declaration member
  rw [Array.getElem?_push] at found
  split at found
  · cases found
    cases member
  · exact holds scope entry found name declaration member

theorem grown_declare (visited : ¬ Unvisited st tag.id)
    (success : declare scope name tag st = .ok ((), st')) : Grown [] st st' := by
  rw [declare_ok success]
  refine ⟨Extends.refl _, by simp, by simp, by simp, by simp, ?_⟩
  intro holds other entry found name' declaration member
  rw [Array.getElem?_modify] at found
  split at found
  next =>
    obtain ⟨old, foundOld, rfl⟩ := Option.map_eq_some_iff.mp found
    simp only [Scopes.addMember, List.mem_cons, Prod.mk.injEq] at member
    rcases member with ⟨rfl, rfl⟩ | inOld
    · exact visited
    · exact holds other old foundOld name' declaration inOld
  next => exact holds other entry found name' declaration member

end Growth

section Exposure

/-- Of the scopes there were, only one was added to, and only these declarations. -/
structure Adds (current : Nat) (added : List (String × Nat)) (before after : Scopes) : Prop where
  size : before.size ≤ after.size
  entries : ∀ other, other < before.size → after.all[other]? = (before.all[other]?).map fun entry =>
    if other = current then { entry with members := added ++ entry.members } else entry

/-- What a node declares in the scope it stands in. -/
def exposed : Node Tag → List (String × Nat)
  | .define tag name .. | .param tag name _ | .declare tag _ name _ _ => [(name, tag.id)]
  | _ => []

/-- What several nodes declare in the scope they stand in, the latest first. -/
def exposedAll : List (Node Tag) → List (String × Nat)
  | [] => []
  | node :: rest => exposedAll rest ++ exposed node

variable {home inner : Nat} {added added' : List (String × Nat)} {one two three : Scopes}

theorem Adds.refl (home : Nat) (scopes : Scopes) : Adds home [] scopes scopes := by
  refine ⟨Nat.le_refl _, ?_⟩
  intro other _
  cases scopes.all[other]? <;> simp

theorem Adds.of_eq (same : two = one) : Adds home [] one two :=
  same ▸ Adds.refl home one

theorem Adds.trans (first : Adds home added one two) (second : Adds home added' two three) :
    Adds home (added' ++ added) one three where
  size := Nat.le_trans first.size second.size
  entries other below := by
    rw [second.entries other (Nat.lt_of_lt_of_le below first.size), first.entries other below]
    cases one.all[other]? with
    | none => rfl
    | some entry => by_cases same : other = home <;> simp [same]

/-- What is added to a new scope does not show in the old ones. -/
theorem Adds.inside (first : Adds home added one two) (second : Adds inner added' two three)
    (new : one.size ≤ inner) : Adds home added one three where
  size := Nat.le_trans first.size second.size
  entries other below := by
    rw [second.entries other (Nat.lt_of_lt_of_le below first.size), first.entries other below]
    cases one.all[other]? with
    | none => rfl
    | some entry =>
      have different : other ≠ inner := Nat.ne_of_lt (Nat.lt_of_lt_of_le below new)
      simp [different]

theorem adds_openScope (opened : openScope current tag st = .ok (scope, st')) :
    Adds home [] st.scopes st'.scopes := by
  obtain ⟨_, noted⟩ := openScope_ok opened
  rw [noted.scopes]
  refine ⟨by simp [Scopes.size], ?_⟩
  intro other below
  have old : other ≠ st.scopes.all.size := Nat.ne_of_lt below
  rw [Array.getElem?_push, if_neg old]
  cases st.scopes.all[other]? <;> simp

theorem adds_refer (referred : refer scope name tag st = .ok ((), st')) :
    Adds home [] st.scopes st'.scopes := by
  rcases refer_ok referred with ⟨_, _, _, noted⟩ | rfl
  · exact Adds.of_eq noted.scopes
  · exact Adds.refl home st.scopes

theorem adds_declare (success : declare scope name tag st = .ok ((), st')) :
    Adds scope [(name, tag.id)] st.scopes st'.scopes := by
  rw [declare_ok success]
  refine ⟨by simp [Scopes.size], ?_⟩
  intro other below
  rw [Array.getElem?_modify]
  by_cases same : scope = other
  · simp only [if_pos same, if_pos same.symm]
    rfl
  · simp [same, Ne.symm same]

theorem exposed_of_expression {ok : Node.Allowed} {node : Node Tag} (shaped : Shaped ok false node) :
    exposed node = [] := by
  cases node with
  | define | declare => exact absurd shaped.1 (by simp)
  | param => cases shaped
  | _ => rfl

theorem exposedAll_of_expressions {ok : Node.Allowed} {nodes : List (Node Tag)}
    (shaped : ShapedAll ok false nodes) : exposedAll nodes = [] := by
  induction nodes with
  | nil => rfl
  | cons node rest ih => rw [exposedAll, ih shaped.2, exposed_of_expression shaped.1]; rfl

/-- The children of a plain node are expressions. -/
theorem children_of_plain {ok : Node.Allowed} {statement : Bool} {node : Node Tag}
    (plain : isPlain node = true) (shaped : Shaped ok statement node) :
    ShapedAll ok false node.children := by
  cases node with
  | leaf => trivial
  | branch => exact ⟨shaped.1, shaped.2.1, shaped.2.2, trivial⟩
  | orElse => exact ⟨shaped, trivial⟩
  | loop | binary => exact ⟨shaped.1, shaped.2, trivial⟩
  | aggregate => exact shaped.2
  | call tag callee args trailing =>
    cases trailing with
    | none =>
      simp only [Node.children, Option.toList_none, List.append_nil]
      exact shaped
    | some trailing =>
      simp only [Node.children, Option.toList_some, List.cons_append, ShapedAll]
      refine ⟨shaped.1, ?_⟩
      rw [Node.shapedAll_iff]
      intro node member
      rcases List.mem_append.mp member with isArg | isTrailing
      · exact Node.shapedAll_iff.mp shaped.2.1 node isArg
      · cases List.mem_singleton.mp isTrailing
        exact shaped.2.2
  | _ => cases plain

end Exposure

section Walked

variable {ok : Node.Allowed} {home : Nat}

/-- What a walk over nodes does to the state: it notes them and declares what they expose. -/
structure Walked (home : Nat) (nodes : List (Node Tag)) (added : List (String × Nat))
    (st st' : State) : Prop where
  grown : Grown (nodes.map Node.id) st st'
  adds : Adds home added st.scopes st'.scopes

theorem Walked.trans {first second : List (Node Tag)} {added added' : List (String × Nat)}
    {st₁ st₂ st₃ : State} (one : Walked home first added st₁ st₂)
    (two : Walked home second added' st₂ st₃) :
    Walked home (first ++ second) (added' ++ added) st₁ st₃ :=
  ⟨by simpa using one.grown.trans two.grown, one.adds.trans two.adds⟩

theorem walked_enter (home : Nat) {node : Node Tag}
    (entered : enter current node st = .ok (scope, st')) :
    Walked home [node] [] st st' := by
  obtain ⟨_, noted⟩ := enter_ok entered
  exact ⟨noted.grown_scope, Adds.of_eq noted.scopes⟩

/-- A function is noted with the scope it opens right after its name is declared outside. -/
theorem walked_declare_openScope (node : Node Tag) {outer : Nat} {st₁ : State}
    (isNode : node.id = tag.id) (success : declare outer name tag st = .ok ((), st₁))
    (opened : openScope current tag st₁ = .ok (scope, st')) :
    Walked outer [node] [(name, tag.id)] st st' := by
  have same := declare_ok success
  have grown := grown_openScope opened
  refine ⟨?_, (adds_declare success).trans (adds_openScope opened)⟩
  subst same
  simp only [List.map_cons, List.map_nil, isNode]
  refine ⟨grown.annotations, grown.pending, grown.fresh, grown.visited, grown.distinct, ?_⟩
  intro holds other entry found name' declaration member
  obtain ⟨_, noted⟩ := openScope_ok opened
  rw [noted.scopes, Array.getElem?_push] at found
  split at found
  · cases found
    cases member
  · rw [Array.getElem?_modify] at found
    split at found
    next =>
      obtain ⟨old, foundOld, rfl⟩ := Option.map_eq_some_iff.mp found
      simp only [Scopes.addMember, List.mem_cons, Prod.mk.injEq] at member
      rcases member with ⟨rfl, rfl⟩ | inOld
      · exact grown.visited tag.id (by simp)
      · intro unvisited
        exact holds other old foundOld name' declaration inOld (unvisited.earlier grown.annotations)
    next =>
      intro unvisited
      exact holds other entry found name' declaration member (unvisited.earlier grown.annotations)

/-- The scope that was opened is a new one. -/
theorem size_le_of_openScope (opened : openScope current tag st = .ok (scope, st')) :
    scope = st.scopes.size ∧ scope < st'.scopes.size := by
  obtain ⟨rfl, noted⟩ := openScope_ok opened
  refine ⟨rfl, ?_⟩
  rw [noted.scopes]
  simp [Scopes.size]

theorem walked_visitAll_of {nodes : List (Node Tag)}
    (each : ∀ node ∈ nodes, ∀ {st st' : State}, visit (some home) node st = .ok ((), st') →
      Walked home node.preorder (exposed node) st st')
    (success : visitAll (some home) nodes st = .ok ((), st')) :
    Walked home (Node.preorderAll nodes) (exposedAll nodes) st st' := by
  induction nodes generalizing st with
  | nil =>
    cases visitAll_nil.mp success
    exact ⟨⟨Extends.refl _, fun _ h => h, nofun, nofun, .nil, fun holds => holds⟩, Adds.refl _ _⟩
  | cons node rest ih =>
    obtain ⟨st₁, visited, visitedRest⟩ := visitAll_cons.mp success
    exact (each node (by simp) visited).trans (ih (fun other isRest => each other (by simp [isRest]))
      visitedRest)

/-- Walking a node notes all nodes below it, and adds to the scope it stands in what it exposes. -/
theorem walked_visit {node : Node Tag} (placed : Shaped ok true node ∨ Node.IsParameter ok node)
    (success : visit (some home) node st = .ok ((), st')) :
    Walked home node.preorder (exposed node) st st' := by
  induction node using Node.childInduction generalizing home st st' with
  | step node ih =>
  rcases placed with shaped | ⟨tag, name, type, rfl, _⟩
  case inr =>
    obtain ⟨scope, st₁, entered, declared⟩ := visit_param_ok success
    obtain ⟨same, _⟩ := enter_ok entered
    cases same
    have first := walked_enter home entered
    have visited := first.grown.visited tag.id (by simp [Node.id, Node.tag])
    have second : Walked home [] [(name, tag.id)] st₁ st' :=
      ⟨grown_declare visited declared, adds_declare declared⟩
    exact first.trans second
  by_cases plain : isPlain node = true
  · obtain ⟨scope, st₁, entered, visited⟩ := visit_plain_ok plain success
    have expressions := children_of_plain plain shaped
    have first := walked_enter home entered
    have rest := walked_visitAll_of (fun child member st st' visited =>
      ih child member (.inl (Node.shapedAll_iff.mp expressions child member).statement) visited)
      visited
    rw [exposedAll_of_expressions expressions] at rest
    have nothing : exposed node = [] := by
      cases node <;> first | rfl | cases plain
    rw [Node.preorder_eq, nothing]
    exact first.trans rest
  cases node with
  | block tag body =>
    obtain ⟨scope, st₁, opened, visited⟩ := visit_block_ok success
    obtain ⟨new, _⟩ := size_le_of_openScope opened
    have rest := walked_visitAll_of (fun child member st st' visited =>
      ih child member (.inl (Node.shapedAll_iff.mp shaped child member)) visited) visited
    refine ⟨?_, ?_⟩
    · rw [Node.preorder_eq]
      exact (grown_openScope opened).trans rest.grown
    · exact (adds_openScope opened).inside rest.adds (Nat.le_of_eq new.symm)
  | define tag name params body type =>
    obtain ⟨scope, st₁, st₂, st₃, declared, opened, visitedParams, visitedBody⟩ :=
      visit_define_ok success
    obtain ⟨new, _⟩ := size_le_of_openScope opened
    have first := walked_declare_openScope (.define tag name params body type) rfl declared
      opened
    have restParams := walked_visitAll_of (fun child member st st' visited =>
      ih child (by simp [Node.children, member]) (.inr (shaped.2.2.1 child member)) visited)
      visitedParams
    have restBody := ih body (by simp [Node.children]) (.inl shaped.2.2.2.statement) visitedBody
    have inner := restParams.trans restBody
    have older := (adds_declare declared).size
    refine ⟨?_, first.adds.inside inner.adds (by omega)⟩
    rw [Node.preorder]
    simpa using first.grown.trans inner.grown
  | declare tag mutability name type value =>
    obtain ⟨scope, st₁, st₂, entered, visited, declared⟩ := visit_declare_ok success
    obtain ⟨same, _⟩ := enter_ok entered
    cases same
    have first := walked_enter home entered
    have second := ih value (by simp [Node.children]) (.inl shaped.2.2.statement) visited
    rw [exposed_of_expression shaped.2.2] at second
    have both := first.trans second
    have third : Walked home [] [(name, tag.id)] st₂ st' :=
      ⟨grown_declare (both.grown.visited tag.id (by simp [Node.id, Node.tag])) declared,
        adds_declare declared⟩
    simpa [Node.preorder, exposed] using both.trans third
  | assign tag name value =>
    obtain ⟨scope, st₁, st₂, entered, referred, visited⟩ := visit_assign_ok success
    have first := walked_enter home entered
    have second : Walked home [] [] st₁ st₂ := ⟨grown_refer referred, adds_refer referred⟩
    have third := ih value (by simp [Node.children]) (.inl shaped.2.statement) visited
    rw [exposed_of_expression shaped.2] at third
    simpa [Node.preorder, exposed] using (first.trans second).trans third
  | leaf tag kind =>
    cases kind with
    | valueId name =>
      obtain ⟨scope, st₁, entered, referred⟩ := visit_name_ok success
      have first := walked_enter home entered
      have second : Walked home [] [] st₁ st' := ⟨grown_refer referred, adds_refer referred⟩
      exact first.trans second
    | _ => exact absurd rfl plain
  | param | program => cases shaped
  | _ => exact absurd rfl plain

theorem walked_visitAll {nodes : List (Node Tag)}
    (placed : ∀ node ∈ nodes, Shaped ok true node ∨ Node.IsParameter ok node)
    (success : visitAll (some home) nodes st = .ok ((), st')) :
    Walked home (Node.preorderAll nodes) (exposedAll nodes) st st' :=
  walked_visitAll_of (fun node member _ _ visited => walked_visit (placed node member) visited)
    success

end Walked

end ScriptVM.Names
