import ScriptVM.Proofs.Disciplines
import ScriptVM.Proofs.Identities
import ScriptVM.Proofs.Visibility

/-!
Resolving names notes every node and every use.

Each node is noted with a scope when the walk comes to it, and a use with its declaration or put off
until the end; so no note is written twice, and in the end every use refers to a node of the tree. A
text is refused only for a name that is declared twice or not at all.
-/
namespace ScriptVM.Names

open Annotations (Extends Confined)
open Walks (Proper Discipline)
open Walks.Discipline (Checked)

variable {all : List Nat} {scope : Nat} {name : String} {st st' : State}

/-- A node that refers to a declaration. -/
def isUse : Node Tag → Bool
  | .leaf _ (.valueId _) | .assign .. => true
  | _ => false

/-- A use refers to a declaration. -/
def HasBinding (annotations : Annotations) (use : Nat) : Prop :=
  ∃ declaration, (annotations.get use).get? .binding = some (.binding declaration)

/-- Declarations are nodes of the tree; only nodes that have been walked are uses, and those put off
refer to nothing yet. -/
structure Sane (all : List Nat) (st : State) : Prop where
  members : ∀ (home : Nat) (entry : Scope), st.scopes.all[home]? = some entry →
    ∀ member ∈ entry.members, member.2 ∈ all
  bound : ∀ use declaration,
    (st.annotations.get use).get? .binding = some (.binding declaration) →
      ¬ Unvisited st use ∧ declaration ∈ all
  pending : ∀ use ∈ st.pending, ¬ Unvisited st use.use.id ∧
    (st.annotations.get use.use.id).get? .binding = none
  distinct : (st.pending.map fun use => use.use.id).Nodup

section Sane

theorem Unvisited.not_bound {id : Nat} (sane : Sane all st) (unvisited : Unvisited st id) :
    (st.annotations.get id).get? .binding = none := by
  cases noted : (st.annotations.get id).get? .binding with
  | none => rfl
  | some note =>
    obtain ⟨declaration, _, rfl⟩ := Option.map_eq_some_iff.mp noted
    exact absurd unvisited (sane.bound id declaration noted).1

theorem Unvisited.not_pending {id : Nat} (sane : Sane all st) (unvisited : Unvisited st id) :
    id ∉ st.pending.map fun use => use.use.id := by
  intro member
  obtain ⟨use, isPending, rfl⟩ := List.mem_map.mp member
  exact (sane.pending use isPending).1 unvisited

theorem Sane.visible (sane : Sane all st) {declaration : Nat}
    (visible : Visible st.scopes scope declaration) : declaration ∈ all := by
  obtain ⟨home, entry, name, found, member⟩ := visible.member
  exact sane.members home entry found _ member

theorem Sane.opened (sane : Sane all st) (parent : Option Nat) :
    Sane all { st with scopes := ⟨st.scopes.all.push ⟨parent, []⟩⟩ } := by
  refine ⟨?_, sane.bound, sane.pending, sane.distinct⟩
  intro home entry found member isMember
  rw [Array.getElem?_push] at found
  split at found
  · cases found
    cases isMember
  · exact sane.members home entry found member isMember

theorem Sane.declared (sane : Sane all st) {id : Nat} (inside : id ∈ all) (scope : Nat)
    (name : String) :
    Sane all { st with scopes := ⟨st.scopes.all.modify scope (Scopes.addMember name id)⟩ } := by
  refine ⟨?_, sane.bound, sane.pending, sane.distinct⟩
  intro home entry found member isMember
  rw [Array.getElem?_modify] at found
  split at found
  next =>
    obtain ⟨old, foundOld, rfl⟩ := Option.map_eq_some_iff.mp found
    rcases List.mem_cons.mp isMember with rfl | inOld
    · exact inside
    · exact sane.members home old foundOld member inOld
  next => exact sane.members home entry found member isMember

theorem Sane.noted_scope (sane : Sane all st) {id : Nat}
    (noted : Noted id (.scope scope) st st') : Sane all st' := by
  have extended := Annotations.extends_of_set noted.annotations
  have sameBinding : ∀ use, (st'.annotations.get use).get? .binding =
      (st.annotations.get use).get? .binding := by
    intro use
    rw [Annotations.get?_of_set noted.annotations, if_neg (by simp [Note.key])]
  refine ⟨?_, ?_, ?_, ?_⟩
  · rw [noted.scopes]
    exact sane.members
  · intro use declaration found
    rw [sameBinding] at found
    obtain ⟨visited, inside⟩ := sane.bound use declaration found
    exact ⟨fun unvisited => visited (unvisited.earlier extended), inside⟩
  · intro use isPending
    rw [noted.pending] at isPending
    obtain ⟨visited, absent⟩ := sane.pending use isPending
    exact ⟨fun unvisited => visited (unvisited.earlier extended), by rw [sameBinding, absent]⟩
  · rw [noted.pending]
    exact sane.distinct

/-- A walked node that was not put off is noted with a declaration. -/
theorem Sane.noted_binding (sane : Sane all st) {id declaration : Nat} (visited : ¬ Unvisited st id)
    (notPending : id ∉ st.pending.map fun use => use.use.id) (inside : declaration ∈ all)
    (noted : Noted id (.binding declaration) st st') : Sane all st' := by
  have extended := Annotations.extends_of_set noted.annotations
  have later : ∀ {use : Nat}, ¬ Unvisited st use → ¬ Unvisited st' use :=
    fun visited unvisited => visited (unvisited.earlier extended)
  refine ⟨?_, ?_, ?_, ?_⟩
  · rw [noted.scopes]
    exact sane.members
  · intro use found isBound
    rw [Annotations.get?_of_set noted.annotations] at isBound
    split at isBound
    next same =>
      cases isBound
      rw [same.1]
      exact ⟨later visited, inside⟩
    next =>
      obtain ⟨visitedUse, isInside⟩ := sane.bound use found isBound
      exact ⟨later visitedUse, isInside⟩
  · intro use isPending
    rw [noted.pending] at isPending
    obtain ⟨visitedUse, absent⟩ := sane.pending use isPending
    refine ⟨later visitedUse, ?_⟩
    rw [Annotations.get?_of_set noted.annotations, if_neg, absent]
    rintro ⟨same, _⟩
    exact notPending (same ▸ List.mem_map_of_mem isPending)
  · rw [noted.pending]
    exact sane.distinct

theorem Sane.put_off (sane : Sane all st) {tag : Tag} (visited : ¬ Unvisited st tag.id)
    (absent : (st.annotations.get tag.id).get? .binding = none)
    (notPending : tag.id ∉ st.pending.map fun use => use.use.id) :
    Sane all { st with pending := ⟨tag, scope, name⟩ :: st.pending } := by
  refine ⟨sane.members, sane.bound, ?_, List.nodup_cons.mpr ⟨notPending, sane.distinct⟩⟩
  intro use isPending
  rcases List.mem_cons.mp isPending with rfl | before
  · exact ⟨visited, absent⟩
  · exact sane.pending use before

end Sane

section Discipline

variable {nodes nodes' : List (Node Tag)} {node : Node Tag}

/-- A use has been noted with its declaration or put off. -/
def Referred (st : State) (use : Nat) : Prop :=
  HasBinding st.annotations use ∨ ∃ pending ∈ st.pending, pending.use.id = use

/-- A walk has been to these nodes. -/
structure Visited (all : List Nat) (nodes : List (Node Tag)) (st st' : State) : Prop where
  annotations : st.annotations.Extends st'.annotations
  confined : Confined [.scope, .binding] (nodes.map Node.id) st.annotations st'.annotations
  pending : st.pending ⊆ st'.pending
  visited : ∀ node ∈ nodes, ¬ Unvisited st' node.id
  referred : ∀ node ∈ nodes, isUse node = true → Referred st' node.id
  sane : Sane all st'

/-- Nodes that are all different and that no walk has been to. -/
structure Ahead (all : List Nat) (nodes : List (Node Tag)) (st : State) : Prop where
  distinct : (nodes.map Node.id).Nodup
  unvisited : ∀ node ∈ nodes, Unvisited st node.id
  sane : Sane all st

theorem Referred.later {use : Nat} (referred : Referred st use)
    (annotations : st.annotations.Extends st'.annotations) (pending : st.pending ⊆ st'.pending) :
    Referred st' use := by
  rcases referred with ⟨declaration, found⟩ | ⟨use', isPending, same⟩
  · exact .inl ⟨declaration, annotations _ _ _ found⟩
  · exact .inr ⟨use', pending isPending, same⟩

theorem Visited.trans {st'' : State} (one : Visited all nodes st st')
    (two : Visited all nodes' st' st'') : Visited all (nodes ++ nodes') st st'' where
  annotations := one.annotations.trans two.annotations
  confined := by
    rw [List.map_append]
    exact one.confined.append two.confined
  pending := fun _ member => two.pending (one.pending member)
  visited := by
    intro node member
    rcases List.mem_append.mp member with inFirst | inSecond
    · exact fun unvisited => one.visited node inFirst (unvisited.earlier two.annotations)
    · exact two.visited node inSecond
  referred := by
    intro node member used
    rcases List.mem_append.mp member with inFirst | inSecond
    · exact (one.referred node inFirst used).later two.annotations two.pending
    · exact two.referred node inSecond used
  sane := two.sane

theorem Ahead.second (ahead : Ahead all (nodes ++ nodes') st) (done : Visited all nodes st st') :
    Ahead all nodes' st' := by
  have distinct := ahead.distinct
  rw [List.map_append, List.nodup_append] at distinct
  refine ⟨distinct.2.1, fun node member => ?_, done.sane⟩
  have elsewhere : node.id ∉ nodes.map Node.id :=
    fun inFirst => distinct.2.2 _ inFirst _ (List.mem_map_of_mem member) rfl
  show (st'.annotations.get node.id).get? .scope = none
  rw [done.confined node.id .scope (.inr elsewhere)]
  exact ahead.unvisited node (List.mem_append_right _ member)

/-- How names are resolved in a tree with the given identities. -/
def discipline (all : List Nat) : Discipline State where
  Ready := Ahead all
  Done := Visited all
  nothing ahead := ⟨Extends.refl _, .refl _ _ _, fun _ member => member, nofun, nofun, ahead.sane⟩
  first ahead := by
    refine ⟨?_, fun node member => ahead.unvisited node (List.mem_append_left _ member), ahead.sane⟩
    have distinct := ahead.distinct
    rw [List.map_append, List.nodup_append] at distinct
    exact distinct.1
  second := Ahead.second
  both := Visited.trans
  readyPerm perm ahead :=
    ⟨(perm.map Node.id).nodup_iff.mp ahead.distinct,
      fun node member => ahead.unvisited node (perm.mem_iff.mpr member), ahead.sane⟩
  donePerm perm done :=
    { done with
      confined := done.confined.widen (perm.map Node.id).subset
      visited := fun node member => done.visited node (perm.mem_iff.mpr member)
      referred := fun node member => done.referred node (perm.mem_iff.mpr member) }

end Discipline

section Steps

variable {current : Option Nat} {node : Node Tag} {tag : Tag}

theorem exists_note {id : Nat} (value : Note)
    (absent : (st.annotations.get id).get? value.key = none) :
    ∃ st', note id value st = .ok ((), st') ∧ Noted id value st st' := by
  obtain ⟨annotations, written⟩ := Annotations.exists_set absent
  have noted : note id value st = .ok ((), { st with annotations }) := by
    rw [note, Walks.get_bind, Walks.lift_bind_ok]
    exact ⟨annotations, Annotations.write_ok.mpr written, rfl⟩
  exact ⟨_, noted, note_ok noted⟩

/-- A node with a scope of its own has been noted, in a state that is still sane. -/
theorem visited_scope {st₁ : State}
    (annotations : st₁.annotations = st.annotations) (pending : st₁.pending = st.pending)
    (sane : Sane all st₁) (noted : Noted node.id (.scope scope) st₁ st')
    (referred : isUse node = true → Referred st' node.id) : Visited all [node] st st' where
  annotations := by
    rw [← annotations]
    exact Annotations.extends_of_set noted.annotations
  confined := by
    rw [← annotations]
    exact Annotations.confined_of_set (by simp [Note.key]) (by simp) noted.annotations
  pending := by
    rw [noted.pending, pending]
    exact fun _ member => member
  visited := by
    simp only [List.mem_singleton, forall_eq]
    exact (noted.grown_scope).visited node.id (by simp)
  referred := by
    simpa only [List.mem_singleton, forall_eq] using referred
  sane := sane.noted_scope noted

theorem Ahead.unvisited_node (ahead : Ahead all [node] st) : Unvisited st node.id :=
  ahead.unvisited node (by simp)

theorem exists_enter (unvisited : Unvisited st node.id) (scope : Nat) :
    ∃ st', enter (some scope) node st = .ok (scope, st') ∧ Noted node.id (.scope scope) st st' := by
  obtain ⟨st', written, noted⟩ := exists_note (.scope scope) unvisited
  refine ⟨st', ?_, noted⟩
  rw [enter, Walks.bind_ok]
  exact ⟨(), st', written, rfl⟩

theorem checked_enter (scope : Nat) (plain : isUse node = false) :
    (discipline all).Checked [node] (fun home => home = scope) (enter (some scope) node) := by
  intro st ahead
  obtain ⟨st', entered, noted⟩ := exists_enter ahead.unvisited_node scope
  rw [entered]
  exact ⟨rfl, visited_scope rfl rfl ahead.sane noted (by simp [plain])⟩

theorem checked_openScope (current : Option Nat) (isNode : node.tag = tag)
    (plain : isUse node = false) :
    (discipline all).Checked [node] (fun _ => True) (openScope current tag) := by
  intro st ahead
  subst isNode
  have unvisited : Unvisited st node.tag.id := ahead.unvisited_node
  let opening : State := { st with scopes := ⟨st.scopes.all.push ⟨current, []⟩⟩ }
  have sane : Sane all opening := ahead.sane.opened current
  obtain ⟨st', written, noted⟩ : ∃ st', note node.tag.id (.scope st.scopes.size) opening =
      .ok ((), st') ∧ Noted node.tag.id (.scope st.scopes.size) opening st' :=
    exists_note _ unvisited
  have opened : openScope current node.tag st = .ok (st.scopes.size, st') := by
    simp only [openScope, Walks.get_bind, Walks.set_bind]
    rw [Walks.bind_ok]
    exact ⟨(), st', written, rfl⟩
  rw [opened]
  have annotations : opening.annotations = st.annotations := rfl
  have pending : opening.pending = st.pending := rfl
  exact ⟨trivial, visited_scope annotations pending sane noted (by simp [plain])⟩

theorem checked_declare (scope : Nat) (name : String) (inside : tag.id ∈ all) :
    (discipline all).Checked [] (fun _ => True) (declare scope name tag) := by
  intro st ahead
  unfold declare
  rw [Walks.get_bind]
  cases found : st.scopes.declare scope name tag.id tag.span with
  | error e => exact rfl
  | ok scopes =>
    have declares : declare scope name tag st = .ok ((), { st with scopes }) := by
      rw [declare, Walks.get_bind, found]
      rfl
    have isState := declare_ok declares
    refine ⟨trivial, ?_⟩
    show Visited all [] st { st with scopes }
    rw [isState]
    exact ⟨Extends.refl _, .refl _ _ _, fun _ member => member, List.forall_mem_nil _,
      List.forall_mem_nil _, ahead.sane.declared inside scope name⟩

/-- A use is noted with its scope, and then with its declaration or put off. -/
theorem checked_use (scope : Nat) (name : String) (isNode : node.tag = tag) :
    (discipline all).Checked [node] (fun _ => True)
      (enter (some scope) node >>= fun home => refer home name tag) := by
  intro st ahead
  subst isNode
  have unvisited := ahead.unvisited_node
  obtain ⟨st₁, entered, noted⟩ := exists_enter unvisited scope
  have sane₁ := ahead.sane.noted_scope noted
  have visited : ¬ Unvisited st₁ node.id := noted.grown_scope.visited node.id (by simp)
  have notPending : node.id ∉ st₁.pending.map fun use => use.use.id := by
    rw [noted.pending]
    exact unvisited.not_pending ahead.sane
  have absent : (st₁.annotations.get node.id).get? .binding = none := by
    rw [Annotations.get?_of_set noted.annotations, if_neg (by simp [Note.key])]
    exact unvisited.not_bound ahead.sane
  have run : (enter (some scope) node >>= fun home => refer home name node.tag) st =
      refer scope name node.tag st₁ := by
    show (enter (some scope) node st >>= fun result => refer result.1 name node.tag result.2) = _
    rw [entered]
    rfl
  have confined : Confined [.scope, .binding] ([node].map Node.id) st.annotations st₁.annotations :=
    Annotations.confined_of_set (by simp [Note.key]) (by simp) noted.annotations
  have extended := Annotations.extends_of_set noted.annotations
  rw [run, refer, Walks.get_bind]
  cases resolved : st₁.scopes.resolve scope name with
  | none =>
    refine ⟨trivial, extended, confined, ?_, ?_, ?_, sane₁.put_off visited absent notPending⟩
    · rw [← noted.pending]
      exact List.subset_cons_self _ _
    · simp only [List.mem_singleton, forall_eq]
      exact visited
    · simp only [List.mem_singleton, forall_eq]
      exact fun _ => .inr ⟨_, List.mem_cons_self, rfl⟩
  | some entry =>
    obtain ⟨home, declaration⟩ := entry
    obtain ⟨st₂, written, noted₂⟩ := exists_note (.binding declaration) absent
    have extended₂ := Annotations.extends_of_set noted₂.annotations
    have inside : declaration ∈ all := sane₁.visible ⟨name, home, resolved⟩
    show Proper _ _ (note node.tag.id (.binding declaration) st₁)
    rw [show note node.tag.id (.binding declaration) st₁ = .ok ((), st₂) from written]
    refine ⟨trivial, extended.trans extended₂, ?_, ?_, ?_, ?_,
      sane₁.noted_binding visited notPending inside noted₂⟩
    · exact confined.trans
        (Annotations.confined_of_set (by simp [Note.key]) (by simp) noted₂.annotations)
    · rw [noted₂.pending, noted.pending]
      exact fun _ member => member
    · simp only [List.mem_singleton, forall_eq]
      exact fun unvisited => visited (unvisited.earlier extended₂)
    · simp only [List.mem_singleton, forall_eq]
      exact fun _ => .inl ⟨declaration, Annotations.some_of_set noted₂.annotations⟩

end Steps

section Nodes

variable {node : Node Tag}

theorem checked_visitAll {nodes : List (Node Tag)}
    (each : ∀ node ∈ nodes,
      (discipline all).Checked node.preorder (fun _ => True) (visit (some scope) node)) :
    (discipline all).Checked (Node.preorderAll nodes) (fun _ => True)
      (visitAll (some scope) nodes) := by
  induction nodes with
  | nil =>
    rw [visitAll]
    exact .pure trivial
  | cons node rest ih =>
    rw [visitAll]
    exact (each node (by simp)).bind fun _ _ =>
      ih fun other member => each other (by simp [member])

/-- A walk over a tree refuses it for nothing but a name. -/
theorem checked_visit {node : Node Tag} (inside : ∀ inner ∈ node.preorder, inner.id ∈ all)
    (scope : Nat) :
    (discipline all).Checked node.preorder (fun _ => True) (visit (some scope) node) := by
  induction node using Node.childInduction generalizing scope with
  | step node ih =>
  have here : node.id ∈ all := inside node (Node.self_mem_preorder node)
  have below : ∀ child ∈ node.children, ∀ scope,
      (discipline all).Checked child.preorder (fun _ => True) (visit (some scope) child) :=
    fun child member => ih child member fun inner isInner =>
      inside inner (Node.preorder_subset_of_child member isInner)
  by_cases plain : isPlain node = true
  · rw [visit_plain (some scope) plain, Node.preorder_eq]
    have notUse : isUse node = false := by
      cases node with
      | leaf tag kind => cases kind <;> first | rfl | cases plain
      | _ => first | rfl | cases plain
    exact (checked_enter scope notUse).bind fun _ _ =>
      checked_visitAll fun child member => below child member scope
  cases node with
  | program tag name body | block tag body =>
    rw [visit]
    exact (checked_openScope (some scope) rfl rfl).bind fun home _ =>
      checked_visitAll fun child member => below child member home
  | define tag name params body type =>
    rw [visit, Node.preorder]
    refine (checked_declare scope name here).before fun _ _ => ?_
    refine (checked_openScope (some scope) rfl rfl).bind fun home _ => ?_
    refine (checked_visitAll fun child member => ?_).bind fun _ _ => ?_
    · exact below child (by simp [Node.children, member]) home
    · exact below body (by simp [Node.children]) home
  | param tag name type =>
    rw [visit, Node.preorder]
    exact (checked_enter scope rfl).after fun home _ => checked_declare home name here
  | declare tag mutability name type value =>
    rw [visit, Node.preorder]
    refine (checked_enter scope rfl).bind fun home _ => ?_
    exact (below value (by simp [Node.children]) scope).after fun _ _ =>
      checked_declare home name here
  | assign tag name value =>
    rw [visit, Node.preorder, ← bind_assoc]
    exact (checked_use scope name rfl).bind fun _ _ => below value (by simp [Node.children]) scope
  | leaf tag kind =>
    cases kind with
    | valueId name =>
      rw [visit]
      exact checked_use scope name rfl
    | _ => exact absurd rfl plain
  | _ => exact absurd rfl plain

end Nodes

section Settling

/-- Every binding is to a node of the tree. -/
def BindsInside (all : List Nat) (annotations : Annotations) : Prop :=
  ∀ use declaration, (annotations.get use).get? .binding = some (.binding declaration) →
    declaration ∈ all

/-- Uses that were put off have been settled. -/
structure Settled (all : List Nat) (uses : List Pending) (before after : Annotations) : Prop where
  annotations : before.Extends after
  confined : Confined [.scope, .binding] (uses.map fun use => use.use.id) before after
  inside : BindsInside all after
  bound : ∀ use ∈ uses, HasBinding after use.use.id

/-- A use that was put off is noted with a function, or refused. -/
theorem proper_settle (functions : List Nat) {use : Pending}
    (absent : (st.annotations.get use.use.id).get? .binding = none) :
    Proper PassError.isInternal (fun result => ∃ declaration ∈ functions,
      Noted use.use.id (.binding declaration) st result.2) (settle functions use st) := by
  rw [settle, Walks.get_bind]
  cases st.scopes.lookup use.scope use.name use.use.span with
  | error e => exact rfl
  | ok declaration =>
    by_cases isFunction : functions.contains declaration = true
    · obtain ⟨st', written, noted⟩ := exists_note (.binding declaration) absent
      simp only [if_pos isFunction, written]
      exact ⟨declaration, List.contains_iff_mem.mp isFunction, noted⟩
    · simp only [if_neg isFunction]
      exact rfl

/-- Uses without a binding are settled with no internal error. Every use is put off once, so the ones
that are left stay free of a binding while one is settled. -/
theorem proper_settleAll {functions : List Nat} {uses : List Pending}
    (distinct : (uses.map fun use => use.use.id).Nodup)
    (absent : ∀ use ∈ uses, (st.annotations.get use.use.id).get? .binding = none)
    (inside : BindsInside all st.annotations) (known : functions ⊆ all) :
    Proper PassError.isInternal (fun result => Settled all uses st.annotations result.2.annotations)
      (uses.forM (settle functions) st) := by
  induction uses generalizing st with
  | nil => exact ⟨Extends.refl _, .refl _ _ _, inside, nofun⟩
  | cons use rest ih =>
    obtain ⟨notInRest, distinctRest⟩ := List.nodup_cons.mp distinct
    show Proper _ _ (settle functions use st >>= fun result =>
      rest.forM (settle functions) result.2)
    refine (proper_settle functions (absent use (by simp))).bind ?_
    rintro ⟨_, st₁⟩ ⟨declaration, isFunction, noted⟩
    have get? := Annotations.get?_of_set noted.annotations
    have absentRest : ∀ other ∈ rest, (st₁.annotations.get other.use.id).get? .binding = none := by
      intro other member
      have different : other.use.id ≠ use.use.id := by
        intro same
        exact notInRest (List.mem_map.mpr ⟨other, member, same⟩)
      rw [get?, if_neg (fun same => different same.1)]
      exact absent other (by simp [member])
    have insideNow : BindsInside all st₁.annotations := by
      intro other found isBound
      rw [get?] at isBound
      split at isBound
      next =>
        cases isBound
        exact known isFunction
      next => exact inside other found isBound
    refine (ih distinctRest absentRest insideNow).weaken ?_
    rintro ⟨_, st₂⟩ done
    refine ⟨(Annotations.extends_of_set noted.annotations).trans done.annotations, ?_, done.inside, ?_⟩
    · exact (Annotations.confined_of_set (by simp [Note.key]) List.mem_cons_self
        noted.annotations).trans (done.confined.widen (List.subset_cons_self _ _))
    · intro other member
      rcases List.mem_cons.mp member with rfl | inRest
      · exact ⟨declaration, done.annotations _ _ _ (Annotations.some_of_set noted.annotations)⟩
      · exact done.bound other inRest

end Settling

end ScriptVM.Names

namespace ScriptVM

open Names
open Walks (Proper)

/-- What is noted when names are resolved: the scope of every node and the declaration of every use,
which is a node of the tree. -/
structure NamesNoted (root : Node Tag) (annotations : Annotations) : Prop where
  scope : ∀ node ∈ root.preorder, (annotations.get node.id).get? .scope ≠ none
  bound : ∀ node ∈ root.preorder, isUse node = true → ∃ declaration ∈ root.preorder,
    (annotations.get node.id).get? .binding = some (.binding declaration.id)

/-- The walk and the uses that it put off, together. -/
theorem Names.proper_resolveAll {root : Node Tag} {tag : Tag} {name : String}
    {body : List (Node Tag)} (isProgram : root = .program tag name body)
    (isTree : (root.preorder.map Node.id).Nodup) :
    Proper PassError.isInternal (fun result => NamesNoted root result.2.annotations ∧
      result.2.annotations.Only [.scope, .binding]) (resolveAll root ⟨{}, {}, []⟩) := by
  let all := root.preorder.map Node.id
  have inside : ∀ inner ∈ root.preorder, inner.id ∈ all :=
    fun inner member => List.mem_map_of_mem member
  have ahead : Ahead all root.preorder ⟨{}, {}, []⟩ :=
    ⟨isTree, fun _ _ => rfl, by simp, nofun, nofun, .nil⟩
  have checked : (discipline all).Checked root.preorder (fun _ => True) (visit none root) := by
    rw [isProgram] at inside ⊢
    rw [visit, Node.preorder]
    refine (checked_openScope none rfl rfl).bind fun scope _ => checked_visitAll fun node member => ?_
    refine checked_visit (fun inner isInner => inside inner ?_) scope
    exact Node.preorder_subset_of_child member isInner
  have known : functions root ⊆ all := by
    intro id isFunction
    obtain ⟨tag, name, params, body, type, member, rfl⟩ := mem_functions.mp isFunction
    exact List.mem_map.mpr ⟨_, member, rfl⟩
  show Proper _ _ (visit none root ⟨{}, {}, []⟩ >>= fun result =>
    result.2.pending.reverse.forM (settle (functions root)) result.2)
  refine (checked _ ahead).bind ?_
  rintro ⟨_, st⟩ ⟨_, visited⟩
  have settled := proper_settleAll
    (((List.reverse_perm st.pending).map _).nodup_iff.mpr visited.sane.distinct)
    (fun use member => (visited.sane.pending use (List.mem_reverse.mp member)).2)
    (fun use declaration found => (visited.sane.bound use declaration found).2) known
  refine settled.weaken ?_
  rintro ⟨_, last⟩ done
  refine ⟨⟨?_, ?_⟩, ?_⟩
  · intro node member absent
    exact visited.visited node member (done.annotations.none_of_none absent)
  · intro node member used
    have bound : HasBinding last.annotations node.id := by
      rcases visited.referred node member used with ⟨declaration, found⟩ | ⟨use, isPending, same⟩
      · exact ⟨declaration, done.annotations _ _ _ found⟩
      · rw [← same]
        exact done.bound use (List.mem_reverse.mpr isPending)
    obtain ⟨id, found⟩ := bound
    obtain ⟨declaration, isDeclaration, rfl⟩ := List.mem_map.mp (done.inside _ _ found)
    exact ⟨declaration, isDeclaration, found⟩
  · intro id key outside
    rw [done.confined id key (.inl outside), visited.confined id key (.inl outside)]
    cases key <;> rfl

/-- Resolving names in a new document notes its names and nothing else, or refuses it for a name. -/
theorem Document.proper_resolveNames {document : Document} {tag : Tag} {name : String}
    {body : List (Node Tag)} (isProgram : document.root = .program tag name body)
    (isTree : document.IsTree) (scopes : document.scopes = {})
    (annotations : document.annotations = {}) :
    Proper PassError.isInternal (fun resolved => resolved.root = document.root ∧
      NamesNoted document.root resolved.annotations ∧
      resolved.annotations.Only [.scope, .binding]) document.resolveNames := by
  have resolved := Names.proper_resolveAll isProgram isTree
  unfold resolveNames
  rw [scopes, annotations]
  exact resolved.bind fun _ noted => ⟨rfl, noted⟩

end ScriptVM
