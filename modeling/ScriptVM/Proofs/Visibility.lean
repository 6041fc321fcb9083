import ScriptVM.Proofs.Resolved

/-!
What is in sight, and that uses come after declarations.

What a scope sees is what it declares and what the scope around it sees. Walking a node adds to it
what the node exposes, and only that. So a use that finds a variable of its own function finds one
that a statement before it has declared; a use that is put off finds a function.
-/
namespace ScriptVM.Names

open Annotations (Extends)
open Node (Shaped ShapedAll)
open Scoping (InScope InScopeAll InScopeStatements Bound declared introduced)

variable {scope home : Nat} {name : String} {tag : Tag} {st st' : State}

section Sight

variable {scopes one two : Scopes} {declaration : Nat} {added : List (String × Nat)}

/-- Some name refers to the declaration in a scope. -/
def Visible (scopes : Scopes) (scope declaration : Nat) : Prop :=
  ∃ name home, scopes.resolve scope name = some (home, declaration)

/-- What a scope sees is declared in it or seen around it. -/
theorem resolve_cases {found : Nat × Nat} (resolved : scopes.resolve scope name = some found) :
    (found.1 = scope ∧ scopes.member? scope name = some found.2) ∨
      scopes.member? scope name = none ∧ ∃ parent, scopes.parent? scope = some parent ∧
        parent < scope ∧ scopes.resolve parent name = some found := by
  rw [Scopes.resolve] at resolved
  cases member : scopes.member? scope name with
  | some node =>
    rw [member] at resolved
    cases resolved
    exact .inl ⟨rfl, rfl⟩
  | none =>
    rw [member] at resolved
    cases outer : scopes.parent? scope with
    | none =>
      rw [outer] at resolved
      cases resolved
    | some parent =>
      rw [outer] at resolved
      by_cases older : parent < scope
      · simp only [if_pos older] at resolved
        exact .inr ⟨rfl, parent, rfl, older, resolved⟩
      · simp only [if_neg older] at resolved
        cases resolved

theorem mem_of_lookup {entries : List (String × Nat)}
    (found : entries.lookup name = some declaration) : (name, declaration) ∈ entries := by
  obtain ⟨before, after, rfl, _⟩ := List.lookup_eq_some_iff.mp found
  simp

/-- What is in sight has been declared in some scope. -/
theorem Visible.member (visible : Visible scopes scope declaration) :
    ∃ (home : Nat) (entry : Scope) (name : String), scopes.all[home]? = some entry ∧
      (name, declaration) ∈ entry.members := by
  obtain ⟨name, home, resolved⟩ := visible
  induction scope using Nat.strongRecOn with
  | ind scope ih =>
    rcases resolve_cases resolved with ⟨rfl, member⟩ | ⟨_, parent, _, older, outer⟩
    · obtain ⟨entry, found, inside⟩ := Option.bind_eq_some_iff.mp member
      exact ⟨_, entry, name, found, mem_of_lookup inside⟩
    · exact ih parent older outer

theorem Adds.parent? (adds : Adds home added one two) (below : scope < one.size) :
    two.parent? scope = one.parent? scope := by
  simp only [Scopes.parent?, adds.entries scope below]
  cases one.all[scope]? with
  | none => rfl
  | some entry =>
    simp only [Option.map_some, Option.bind_some]
    split <;> rfl

/-- A name is declared in a scope because it was before or because it was added. -/
theorem Adds.member? (adds : Adds home added one two) (below : scope < one.size) :
    two.member? scope name =
      if scope = home then (added.lookup name).or (one.member? scope name)
      else one.member? scope name := by
  have inside : scope < one.all.size := below
  simp only [Scopes.member?, adds.entries scope below, Array.getElem?_eq_getElem inside]
  by_cases same : scope = home
  · simp [same, List.lookup_append]
  · simp [same]

/-- What is in sight was before, or was added. -/
theorem Visible.of_adds (adds : Adds home added one two) (below : scope < one.size)
    (visible : Visible two scope declaration) :
    Visible one scope declaration ∨ declaration ∈ added.map Prod.snd := by
  obtain ⟨name, place, resolved⟩ := visible
  suffices found : one.resolve scope name = some (place, declaration) ∨
      declaration ∈ added.map Prod.snd from
    found.imp_left fun same => ⟨name, place, same⟩
  induction scope using Nat.strongRecOn with
  | ind scope ih =>
    rcases resolve_cases resolved with ⟨rfl, member⟩ | ⟨absent, parent, outer, older, resolvedOuter⟩
    · rw [adds.member? below] at member
      split at member
      next =>
        rcases Option.or_eq_some_iff.mp member with isAdded | ⟨_, before⟩
        · exact .inr (List.mem_map.mpr ⟨_, mem_of_lookup isAdded, rfl⟩)
        · exact .inl (by rw [Scopes.resolve, before])
      next => exact .inl (by rw [Scopes.resolve, member])
    · rw [adds.parent? below] at outer
      have absentBefore : one.member? scope name = none := by
        rw [adds.member? below] at absent
        split at absent
        next => exact (Option.or_eq_none_iff.mp absent).2
        next => exact absent
      refine (ih parent older (Nat.lt_trans older below) resolvedOuter).imp_left fun found => ?_
      rw [Scopes.resolve, absentBefore, outer]
      simpa only [if_pos older] using found

/-- A new scope sees what the scope around it sees. -/
theorem Visible.of_openScope {outer : Nat}
    (opened : openScope (some outer) tag st = .ok (scope, st'))
    (below : outer < st.scopes.size) (visible : Visible st'.scopes scope declaration) :
    Visible st.scopes outer declaration := by
  have adds : Adds outer [] st.scopes st'.scopes := adds_openScope opened
  obtain ⟨rfl, noted⟩ := openScope_ok opened
  have last : st'.scopes.all[st.scopes.size]? = some ⟨some outer, []⟩ := by
    rw [noted.scopes]
    exact Array.getElem?_push_size
  obtain ⟨name, place, resolved⟩ := visible
  rcases resolve_cases resolved with ⟨_, member⟩ | ⟨_, parent, isOuter, _, resolvedOuter⟩
  · simp [Scopes.member?, last] at member
  · simp only [Scopes.parent?, last, Option.bind_some, Option.some.injEq] at isOuter
    subst isOuter
    rcases Visible.of_adds adds below ⟨name, place, resolvedOuter⟩ with before | isAdded
    · exact before
    · cases isAdded

end Sight

section Uses

variable {ok : Node.Allowed} {functions own known : List Nat} {binding : Nat → Option Nat}

/-- The bindings in the end: those noted so far, and functions for the uses that were put off. -/
structure Settles (functions : List Nat) (binding : Nat → Option Nat) (st : State) : Prop where
  bound : ∀ use declaration,
    (st.annotations.get use).get? .binding = some (.binding declaration) →
      binding use = some declaration
  pending : ∀ use ∈ st.pending, ∃ function ∈ functions, binding use.use.id = some function

theorem Settles.earlier {ids : List Nat} (settles : Settles functions binding st')
    (grown : Grown ids st st') : Settles functions binding st where
  bound use declaration noted := settles.bound use declaration (grown.annotations _ _ _ noted)
  pending use member := settles.pending use (grown.pending member)

/-- Of the variables of a function, only those known are in sight. -/
def Sighted (own known : List Nat) (scopes : Scopes) (scope : Nat) : Prop :=
  ∀ declaration ∈ own, Visible scopes scope declaration → declaration ∈ known

theorem Sighted.of_adds {added : List (String × Nat)} {one two : Scopes}
    (sighted : Sighted own known one scope) (adds : Adds home added one two)
    (below : scope < one.size) {others : List Nat}
    (introduces : ∀ declaration ∈ own, declaration ∈ added.map Prod.snd → declaration ∈ others) :
    Sighted own (others ++ known) two scope := by
  intro declaration isOwn visible
  rw [List.mem_append]
  rcases visible.of_adds adds below with before | isAdded
  · exact .inr (sighted declaration isOwn before)
  · exact .inl (introduces declaration isOwn isAdded)

theorem Sighted.of_nothing_added {one two : Scopes} (sighted : Sighted own known one scope)
    (adds : Adds home [] one two) (below : scope < one.size) : Sighted own known two scope :=
  by
  simpa using sighted.of_adds adds below (fun _ _ isAdded => isAdded)

/-- A use that finds a variable of its own function finds a known one. -/
theorem bound_refer (apart : ∀ id ∈ own, id ∉ functions)
    (sighted : Sighted own known st.scopes scope) (settles : Settles functions binding st')
    (referred : refer scope name tag st = .ok ((), st')) : Bound binding own known tag.id := by
  intro declaration bound isOwn
  rcases refer_ok referred with ⟨place, found, resolved, noted⟩ | rfl
  · have settled := settles.bound tag.id found (Annotations.some_of_set noted.annotations)
    rw [bound] at settled
    cases settled
    exact sighted declaration isOwn ⟨name, place, resolved⟩
  · obtain ⟨function, isFunction, settled⟩ := settles.pending ⟨tag, scope, name⟩ (by simp)
    rw [bound] at settled
    cases settled
    exact absurd isFunction (apart declaration isOwn)

/-- The functions among the nodes are listed. -/
def Listed (functions : List Nat) (nodes : List (Node Tag)) : Prop :=
  ∀ tag name params body type, .define tag name params body type ∈ nodes → tag.id ∈ functions

/-- A statement makes known the variable that it declares; a function is no variable. -/
theorem introduced_of_exposed {node : Node Tag} (apart : ∀ id ∈ own, id ∉ functions)
    (shaped : Shaped ok true node) (listed : Listed functions [node]) {declaration : Nat}
    (isOwn : declaration ∈ own) (isExposed : declaration ∈ (exposed node).map Prod.snd) :
    declaration ∈ introduced node := by
  cases node with
  | define tag name params body type =>
    simp only [exposed, List.map_cons, List.map_nil, List.mem_singleton] at isExposed
    subst isExposed
    exact absurd (listed tag name params body type (by simp)) (apart _ isOwn)
  | declare => exact isExposed
  | param => cases shaped
  | _ => cases isExposed

theorem inScope_of_plain {node : Node Tag} (plain : isPlain node = true)
    (inScope : InScopeAll binding own known node.children) : InScope binding own known node := by
  cases node with
  | leaf tag kind =>
    cases kind with
    | valueId name => cases plain
    | _ => trivial
  | call tag callee args trailing =>
    cases trailing with
    | none =>
      simp only [Node.children, Option.toList_none, List.append_nil] at inScope
      exact inScope
    | some trailing =>
      rw [Scoping.inScopeAll_iff] at inScope
      refine ⟨inScope callee (by simp [Node.children]), ?_,
        inScope trailing (by simp [Node.children])⟩
      rw [Scoping.inScopeAll_iff]
      exact fun arg member => inScope arg (by simp [Node.children, member])
  | aggregate => exact inScope
  | branch => exact ⟨inScope.1, inScope.2.1, inScope.2.2.1⟩
  | orElse => exact inScope.1
  | loop | binary => exact ⟨inScope.1, inScope.2.1⟩
  | _ => cases plain

/-- In a walk over this node, uses of the function's variables come after their declarations. -/
def KeepsOrder (functions own : List Nat) (binding : Nat → Option Nat) (node : Node Tag) : Prop :=
  ∀ {known : List Nat} {home : Nat} {st st' : State}, home < st.scopes.size →
    Sighted own known st.scopes home → Settles functions binding st' →
    visit (some home) node st = .ok ((), st') → InScope binding own known node

/-- Expressions make nothing known to each other. -/
theorem inScopeAll_visitAll {nodes : List (Node Tag)} (shaped : ShapedAll ok false nodes)
    (each : ∀ node ∈ nodes, KeepsOrder functions own binding node) (below : home < st.scopes.size)
    (sighted : Sighted own known st.scopes home) (settles : Settles functions binding st')
    (success : visitAll (some home) nodes st = .ok ((), st')) :
    InScopeAll binding own known nodes := by
  induction nodes generalizing st with
  | nil => trivial
  | cons node rest ih =>
    obtain ⟨st₁, visited, visitedRest⟩ := visitAll_cons.mp success
    have walked := walked_visit (.inl shaped.1.statement) visited
    have walkedRest := walked_visitAll
      (fun other isRest => .inl (Node.shapedAll_iff.mp shaped.2 other isRest).statement) visitedRest
    have adds := walked.adds
    rw [exposed_of_expression shaped.1] at adds
    refine ⟨each node (by simp) below sighted (settles.earlier walkedRest.grown) visited, ?_⟩
    exact ih shaped.2 (fun other isRest => each other (by simp [isRest]))
      (Nat.lt_of_lt_of_le below walked.adds.size) (sighted.of_nothing_added adds below) visitedRest

/-- Statements make their variables known to those after them. -/
theorem inScopeStatements_visitAll {nodes : List (Node Tag)} (apart : ∀ id ∈ own, id ∉ functions)
    (shaped : ShapedAll ok true nodes) (listed : Listed functions nodes)
    (each : ∀ node ∈ nodes, KeepsOrder functions own binding node) (below : home < st.scopes.size)
    (sighted : Sighted own known st.scopes home) (settles : Settles functions binding st')
    (success : visitAll (some home) nodes st = .ok ((), st')) :
    InScopeStatements binding own known nodes := by
  induction nodes generalizing st known with
  | nil => trivial
  | cons node rest ih =>
    obtain ⟨st₁, visited, visitedRest⟩ := visitAll_cons.mp success
    have walked := walked_visit (.inl shaped.1) visited
    have walkedRest := walked_visitAll
      (fun other isRest => .inl (Node.shapedAll_iff.mp shaped.2 other isRest)) visitedRest
    refine ⟨each node (by simp) below sighted (settles.earlier walkedRest.grown) visited, ?_⟩
    have listedNode : Listed functions [node] := fun _ _ _ _ _ member =>
      listed _ _ _ _ _ (List.mem_cons.mpr (.inl (List.mem_singleton.mp member)))
    have listedRest : Listed functions rest := fun _ _ _ _ _ member =>
      listed _ _ _ _ _ (List.mem_cons_of_mem _ member)
    exact ih shaped.2 listedRest (fun other isRest => each other (by simp [isRest]))
      (Nat.lt_of_lt_of_le below walked.adds.size)
      (sighted.of_adds walked.adds below fun _ isOwn isExposed =>
        introduced_of_exposed apart shaped.1 listedNode isOwn isExposed) visitedRest

/-- Every use of a variable of the function itself comes after its declaration. Carried down the
tree is that what is visible and belongs to the function has a value. An expression adds nothing to
the scope it stands in, so its children have it one after the other. -/
theorem keepsOrder_visit {node : Node Tag} (apart : ∀ id ∈ own, id ∉ functions)
    (shaped : Shaped ok true node) (listed : Listed functions node.preorder) :
    KeepsOrder functions own binding node := by
  induction node using Node.childInduction with
  | step node ih =>
  have listedChild : ∀ child ∈ node.children, Listed functions child.preorder :=
    fun child member _ _ _ _ _ inside =>
      listed _ _ _ _ _ (Node.preorder_subset_of_child member inside)
  intro known home st st' below sighted settles success
  by_cases plain : isPlain node = true
  · obtain ⟨scope, st₁, entered, visited⟩ := visit_plain_ok plain success
    have expressions := children_of_plain plain shaped
    have walked := walked_enter home entered
    refine inScope_of_plain plain (inScopeAll_visitAll expressions (fun child member => ?_)
      (Nat.lt_of_lt_of_le below walked.adds.size) (sighted.of_nothing_added walked.adds below)
      settles visited)
    exact ih child member (Node.shapedAll_iff.mp expressions child member).statement
      (listedChild child member)
  cases node with
  | block tag body =>
    obtain ⟨scope, st₁, opened, visited⟩ := visit_block_ok success
    obtain ⟨_, inside⟩ := size_le_of_openScope opened
    refine inScopeStatements_visitAll apart shaped ?_ (fun child member => ?_) inside ?_ settles
      visited
    · intro tag name params body type member
      exact listedChild _ member _ _ _ _ _ (Node.self_mem_preorder _)
    · exact ih child member (Node.shapedAll_iff.mp shaped child member) (listedChild child member)
    · intro declaration isOwn visible
      exact sighted declaration isOwn (visible.of_openScope opened below)
  | declare tag mutability name type value =>
    obtain ⟨scope, st₁, st₂, entered, visited, declared⟩ := visit_declare_ok success
    have walked := walked_enter home entered
    have grown := walked_visit (.inl shaped.2.2.statement) visited
    have isVisited : ¬ Unvisited st₂ tag.id :=
      (walked.trans grown).grown.visited tag.id (by simp [Node.id, Node.tag])
    exact ih value (by simp [Node.children]) shaped.2.2.statement
      (listedChild value (by simp [Node.children])) (Nat.lt_of_lt_of_le below walked.adds.size)
      (sighted.of_nothing_added walked.adds below)
      (settles.earlier (grown_declare isVisited declared)) visited
  | assign tag name value =>
    obtain ⟨scope, st₁, st₂, entered, referred, visited⟩ := visit_assign_ok success
    obtain ⟨same, _⟩ := enter_ok entered
    cases same
    have walked := walked_enter home entered
    have walkedValue := walked_visit (.inl shaped.2.statement) visited
    have sighted₁ := sighted.of_nothing_added walked.adds below
    have below₁ := Nat.lt_of_lt_of_le below walked.adds.size
    have adds : Adds home [] st₁.scopes st₂.scopes := adds_refer referred
    refine ⟨bound_refer apart sighted₁ (settles.earlier walkedValue.grown) referred, ?_⟩
    exact ih value (by simp [Node.children]) shaped.2.statement
      (listedChild value (by simp [Node.children])) (Nat.lt_of_lt_of_le below₁ adds.size)
      (sighted₁.of_nothing_added adds below₁) settles visited
  | leaf tag kind =>
    cases kind with
    | valueId name =>
      obtain ⟨scope, st₁, entered, referred⟩ := visit_name_ok success
      obtain ⟨same, _⟩ := enter_ok entered
      cases same
      have walked := walked_enter home entered
      exact bound_refer apart (sighted.of_nothing_added walked.adds below) settles referred
    | _ => exact absurd rfl plain
  | define => trivial
  | param | program => cases shaped
  | _ => exact absurd rfl plain

end Uses

section Functions

variable {ok : Node.Allowed} {functions : List Nat} {binding : Nat → Option Nat}

/-- In every function of a node, uses of variables come after their declarations. -/
def Ordered (binding : Nat → Option Nat) (nodes : List (Node Tag)) : Prop :=
  ∀ tag name params body type, .define tag name params body type ∈ nodes →
    InScope binding (params.map Node.id ++ declared body) (params.map Node.id) body

/-- The variables of a function are no functions. -/
def Apart (functions : List Nat) (nodes : List (Node Tag)) : Prop :=
  ∀ tag name params body type, .define tag name params body type ∈ nodes →
    ∀ id ∈ params.map Node.id ++ declared body, id ∉ functions

theorem Unvisited.of_declared {id : Nat} {body : Node Tag} (shaped : Shaped ok false body)
    (visited : visit (some home) body st = .ok ((), st')) (isDeclared : id ∈ declared body) :
    Unvisited st id := by
  obtain ⟨inner, inside, isItself⟩ := Scoping.mem_declared isDeclared
  have grown := (walked_visit (.inl shaped.statement) visited).grown
  rw [← (Scoping.id_of_itself isItself).1]
  exact grown.fresh inner.id (List.mem_map.mpr ⟨inner, inside, rfl⟩)

theorem MembersVisited.of_visible {declaration : Nat} (holds : MembersVisited st)
    (visible : Visible st.scopes scope declaration) : ¬ Unvisited st declaration := by
  obtain ⟨place, entry, name, found, member⟩ := visible.member
  exact holds place entry found name declaration member

/-- Where the body of a function is walked, only its parameters are in sight of its variables. -/
theorem sighted_parameters {params : List Nat} {body : Node Tag} (shaped : Shaped ok false body)
    (members : MembersVisited st) (visited : visit (some scope) body st = .ok ((), st')) :
    Sighted (params ++ declared body) params st.scopes scope := by
  intro declaration isOwn visible
  rcases List.mem_append.mp isOwn with isParam | isDeclared
  · exact isParam
  · exact absurd (Unvisited.of_declared shaped visited isDeclared) (members.of_visible visible)

/-- A walk that keeps the order in every function of a node. -/
def OrdersFunctions (functions : List Nat) (binding : Nat → Option Nat) (node : Node Tag) : Prop :=
  ∀ {home : Nat} {st st' : State}, MembersVisited st → Settles functions binding st' →
    visit (some home) node st = .ok ((), st') → Ordered binding node.preorder

theorem ordered_visitAll {nodes : List (Node Tag)}
    (placed : ∀ node ∈ nodes, Shaped ok true node ∨ Node.IsParameter ok node)
    (each : ∀ node ∈ nodes, OrdersFunctions functions binding node) (members : MembersVisited st)
    (settles : Settles functions binding st')
    (success : visitAll (some home) nodes st = .ok ((), st')) :
    Ordered binding (Node.preorderAll nodes) := by
  induction nodes generalizing st with
  | nil => nofun
  | cons node rest ih =>
    obtain ⟨st₁, visited, visitedRest⟩ := visitAll_cons.mp success
    have walked := walked_visit (placed node (by simp)) visited
    have placedRest : ∀ other ∈ rest, Shaped ok true other ∨ Node.IsParameter ok other :=
      fun other isRest => placed other (by simp [isRest])
    have walkedRest := walked_visitAll placedRest visitedRest
    have ordered := each node (by simp) members (settles.earlier walkedRest.grown) visited
    have orderedRest := ih placedRest (fun other isRest => each other (by simp [isRest]))
      (walked.grown.members members) visitedRest
    intro tag name params body type member
    rcases List.mem_append.mp member with inNode | inRest
    · exact ordered tag name params body type inNode
    · exact orderedRest tag name params body type inRest

/-- Every function of a walked tree uses its variables after their declarations. -/
theorem ordersFunctions_visit {node : Node Tag}
    (placed : Shaped ok true node ∨ Node.IsParameter ok node)
    (listed : Listed functions node.preorder) (apart : Apart functions node.preorder) :
    OrdersFunctions functions binding node := by
  induction node using Node.childInduction with
  | step node ih =>
  have within : ∀ child ∈ node.children, (Shaped ok true child ∨ Node.IsParameter ok child) →
      OrdersFunctions functions binding child := fun child member placed =>
    ih child member placed
      (fun _ _ _ _ _ inside => listed _ _ _ _ _ (Node.preorder_subset_of_child member inside))
      (fun _ _ _ _ _ inside => apart _ _ _ _ _ (Node.preorder_subset_of_child member inside))
  intro home st st' members settles success tag name params body type member
  rcases placed with shaped | ⟨tag', name', type', rfl, _⟩
  case inr => simp [Node.preorder] at member
  rw [Node.preorder_eq, List.mem_cons] at member
  by_cases plain : isPlain node = true
  · obtain ⟨scope, st₁, entered, visited⟩ := visit_plain_ok plain success
    have walked := walked_enter home entered
    have expressions := children_of_plain plain shaped
    have placed : ∀ child ∈ node.children, Shaped ok true child ∨ Node.IsParameter ok child :=
      fun child isChild => .inl (Node.shapedAll_iff.mp expressions child isChild).statement
    rcases member with rfl | below
    · cases plain
    · exact ordered_visitAll placed (fun child isChild => within child isChild (placed child isChild))
        (walked.grown.members members) settles visited tag name params body type below
  cases node with
  | block tag' statements =>
    obtain ⟨scope, st₁, opened, visited⟩ := visit_block_ok success
    have placed : ∀ child ∈ statements, Shaped ok true child ∨ Node.IsParameter ok child :=
      fun child isChild => .inl (Node.shapedAll_iff.mp shaped child isChild)
    rcases member with same | below
    · cases same
    · exact ordered_visitAll placed (fun child isChild => within child isChild (placed child isChild))
        ((grown_openScope opened).members members) settles visited tag name params body type below
  | define tag' name' params' body' type' =>
    obtain ⟨scope, st₁, st₂, st₃, declared, opened, visitedParams, visitedBody⟩ :=
      visit_define_ok success
    obtain ⟨_, inside⟩ := size_le_of_openScope opened
    have first := walked_declare_openScope (.define tag' name' params' body' type') rfl declared
      opened
    have walkedParams := walked_visitAll (fun param isParam => .inr (shaped.2.2.1 param isParam))
      visitedParams
    have members₃ := walkedParams.grown.members (first.grown.members members)
    have listedBody : Listed functions body'.preorder := fun _ _ _ _ _ inside =>
      listed _ _ _ _ _ (Node.preorder_subset_of_child (by simp [Node.children]) inside)
    rcases member with same | below
    · cases same
      exact keepsOrder_visit (apart tag name params body type (Node.self_mem_preorder _))
        shaped.2.2.2.statement listedBody (Nat.lt_of_lt_of_le inside walkedParams.adds.size)
        (sighted_parameters shaped.2.2.2 members₃ visitedBody) settles visitedBody
    · simp only [Node.children, Node.mem_preorderAll, List.mem_append, List.mem_singleton] at below
      obtain ⟨top, isParam | rfl, insideTop⟩ := below
      · obtain ⟨_, _, _, rfl, _⟩ := shaped.2.2.1 top isParam
        simp [Node.preorder] at insideTop
      · exact within top (by simp [Node.children]) (.inl shaped.2.2.2.statement) members₃ settles
          visitedBody tag name params body type insideTop
  | declare tag' mutability name' type' value =>
    obtain ⟨scope, st₁, st₂, entered, visited, declared⟩ := visit_declare_ok success
    have walked := walked_enter home entered
    have walkedValue := walked_visit (.inl shaped.2.2.statement) visited
    have isVisited : ¬ Unvisited st₂ tag'.id :=
      (walked.trans walkedValue).grown.visited tag'.id (by simp [Node.id, Node.tag])
    rcases member with same | below
    · cases same
    · simp only [Node.children, Node.preorderAll, List.append_nil] at below
      exact within value (by simp [Node.children]) (.inl shaped.2.2.statement)
        (walked.grown.members members) (settles.earlier (grown_declare isVisited declared)) visited
        tag name params body type below
  | assign tag' name' value =>
    obtain ⟨scope, st₁, st₂, entered, referred, visited⟩ := visit_assign_ok success
    have walked := walked_enter home entered
    rcases member with same | below
    · cases same
    · simp only [Node.children, Node.preorderAll, List.append_nil] at below
      exact within value (by simp [Node.children]) (.inl shaped.2.statement)
        ((grown_refer referred).members (walked.grown.members members)) settles visited
        tag name params body type below
  | leaf => simp [Node.children, Node.preorderAll] at member
  | param | program => cases shaped
  | _ => exact absurd rfl plain

end Functions

section Pending

variable {u : Unit}

theorem mem_functions {root : Node Tag} {id : Nat} :
    id ∈ functions root ↔
      ∃ tag name params body type, .define tag name params body type ∈ root.preorder ∧
        tag.id = id := by
  simp only [functions, List.mem_filterMap]
  constructor
  · rintro ⟨node, inside, isFunction⟩
    cases node with
    | define tag name params body type =>
      exact ⟨tag, name, params, body, type, inside, Option.some.inj isFunction⟩
    | _ => cases isFunction
  · rintro ⟨tag, name, params, body, type, inside, rfl⟩
    exact ⟨_, inside, rfl⟩

/-- A use that was put off is noted with a function. -/
theorem settle_ok {functions : List Nat} {use : Pending}
    (success : settle functions use st = .ok (u, st')) :
    ∃ function ∈ functions, Noted use.use.id (.binding function) st st' := by
  rw [settle, Walks.get_bind] at success
  cases found : st.scopes.lookup use.scope use.name use.use.span with
  | error e =>
    rw [found] at success
    exact absurd success Walks.throw_ok
  | ok function =>
    rw [found] at success
    by_cases isFunction : functions.contains function = true
    · simp only [if_pos isFunction] at success
      exact ⟨function, List.contains_iff_mem.mp isFunction, note_ok success⟩
    · simp only [if_neg isFunction] at success
      exact absurd success Walks.throw_ok

theorem settleAll_ok {functions : List Nat} {uses : List Pending}
    (success : uses.forM (settle functions) st = .ok (u, st')) :
    st.annotations.Extends st'.annotations ∧ ∀ use ∈ uses, ∃ function ∈ functions,
      (st'.annotations.get use.use.id).get? .binding = some (.binding function) := by
  induction uses generalizing st with
  | nil =>
    obtain ⟨_, rfl⟩ := Walks.pure_ok.mp success
    exact ⟨Extends.refl _, nofun⟩
  | cons use rest ih =>
    rw [List.forM, Walks.then_ok] at success
    obtain ⟨st₁, settled, settledRest⟩ := success
    obtain ⟨function, isFunction, noted⟩ := settle_ok settled
    obtain ⟨extended, bound⟩ := ih settledRest
    refine ⟨(Annotations.extends_of_set noted.annotations).trans extended, ?_⟩
    intro other member
    rcases List.mem_cons.mp member with rfl | inRest
    · exact ⟨function, isFunction, extended _ _ _ (Annotations.some_of_set noted.annotations)⟩
    · exact bound other inRest

end Pending

/-- Identities that are all different keep variables apart from functions. -/
theorem apart_of_nodup {ok : Node.Allowed} {root : Node Tag} {body : List (Node Tag)}
    (distinct : (root.preorder.map Node.id).Nodup) (inside : Node.preorderAll body ⊆ root.preorder)
    (shaped : ShapedAll ok true body) : Apart (functions root) (Node.preorderAll body) := by
  intro tag name params body' type member id isOwn isFunction
  obtain ⟨top, isTop, inTop⟩ := Node.mem_preorderAll.mp member
  have shapedDefine := (Node.shapedAll_iff.mp shaped top isTop).inner inTop
  have below : (Node.define tag name params body' type).preorder ⊆ root.preorder :=
    fun _ inner => inside (Node.mem_preorderAll.mpr ⟨top, isTop, Node.preorder_subset inTop inner⟩)
  have isVariable : ∃ inner ∈ root.preorder, inner.id = id ∧ Scoping.isFunction inner = false := by
    rcases List.mem_append.mp isOwn with isParam | isDeclared
    · obtain ⟨param, isParameter, rfl⟩ := List.mem_map.mp isParam
      refine ⟨param, below ?_, rfl, ?_⟩
      · exact Node.preorder_subset_of_child (List.mem_append_left _ isParameter)
          (Node.self_mem_preorder param)
      · rcases shapedDefine with shaped | ⟨_, _, _, impossible, _⟩
        · obtain ⟨_, _, _, rfl, _⟩ := shaped.2.2.1 param isParameter
          rfl
        · cases impossible
    · obtain ⟨inner, inBody, isItself⟩ := Scoping.mem_declared isDeclared
      obtain ⟨same, plain⟩ := Scoping.id_of_itself isItself
      refine ⟨inner, below (Node.preorder_subset_of_child ?_ inBody), same, plain⟩
      simp [Node.children]
  obtain ⟨inner, inRoot, rfl, plain⟩ := isVariable
  obtain ⟨_, _, _, _, _, functionInRoot, same⟩ := mem_functions.mp isFunction
  rw [← Node.eq_of_id distinct functionInRoot inRoot same] at plain
  cases plain

end ScriptVM.Names

namespace ScriptVM

open Names

/-- What is known of a tree whose names have been resolved. -/
structure Resolved (root : Node Tag) (annotations : Annotations) : Prop where
  distinct : (root.preorder.map Node.id).Nodup
  ordered : Ordered (fun use => (annotations.get use).binding) root.preorder

theorem Document.root_of_resolveNames {document resolved : Document}
    (success : document.resolveNames = .ok resolved) : resolved.root = document.root := by
  obtain ⟨result, _, finished⟩ := Walks.except_bind_ok.mp success
  cases finished
  rfl

/-- Resolving names notes every use with a declaration that comes before it, and whatever is noted
later leaves it so. -/
theorem Document.resolved_of_resolveNames {ok : Node.Allowed} {document resolved : Document}
    {tag : Tag} {name : String} {body : List (Node Tag)}
    (root : document.root = .program tag name body) (shaped : Node.ShapedAll ok true body)
    (scopes : document.scopes = {}) (success : document.resolveNames = .ok resolved)
    {annotations : Annotations} (extended : resolved.annotations.Extends annotations) :
    Resolved document.root annotations := by
  obtain ⟨⟨u, last⟩, walked, finished⟩ := Walks.except_bind_ok.mp success
  cases finished
  simp only [StateT.run, resolveAll] at walked
  rw [Walks.then_ok] at walked
  obtain ⟨st, visited, settled⟩ := walked
  rw [Walks.get_bind] at settled
  obtain ⟨extendedSettled, bound⟩ := settleAll_ok settled
  rw [root] at visited
  obtain ⟨scope, st₁, opened, visitedBody⟩ := visit_program_ok visited
  have grown := grown_openScope opened
  have placed : ∀ node ∈ body, Node.Shaped ok true node ∨ Node.IsParameter ok node :=
    fun node member => .inl (Node.shapedAll_iff.mp shaped node member)
  have walked := walked_visitAll placed visitedBody
  have inside : Node.preorderAll body ⊆ document.root.preorder := by
    rw [root, Node.preorder]
    exact List.subset_cons_self _ _
  have distinct : (document.root.preorder.map Node.id).Nodup := by
    rw [root, Node.preorder]
    exact (grown.trans walked.grown).distinct
  have settles : Settles (functions document.root) (fun use => (annotations.get use).binding) st := by
    refine ⟨?_, ?_⟩
    · intro use declaration noted
      exact Notes.binding_of_get? (extended _ _ _ (extendedSettled _ _ _ noted))
    · intro use member
      obtain ⟨function, isFunction, noted⟩ := bound use (List.mem_reverse.mpr member)
      exact ⟨function, isFunction, Notes.binding_of_get? (extended _ _ _ noted)⟩
  have members : MembersVisited st₁ := by
    refine grown.members ?_
    intro scope entry found
    rw [scopes] at found
    simp at found
  refine ⟨distinct, ?_⟩
  intro tag' name' params body' type member
  have apart := apart_of_nodup distinct inside shaped
  refine ordered_visitAll placed (fun node isNode => ?_) members settles visitedBody tag' name'
    params body' type ?_
  · refine ordersFunctions_visit (placed node isNode) ?_ ?_
    · intro tag name params body type below
      exact mem_functions.mpr ⟨tag, name, params, body, type,
        inside (Node.mem_preorderAll.mpr ⟨node, isNode, below⟩), rfl⟩
    · intro tag name params body type below
      exact apart tag name params body type (Node.mem_preorderAll.mpr ⟨node, isNode, below⟩)
  · rw [root, Node.preorder, List.mem_cons] at member
    rcases member with same | below
    · cases same
    · exact below

end ScriptVM
