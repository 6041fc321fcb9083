import ScriptVM.Proofs.Lexical

/-!
Names are resolved by lexical scoping.

The walk that resolves names comes to the declarations and uses of a tree in their order. A use is
noted with the innermost declaration where the walk comes to it, or put off when there is none, and
what was put off is settled with a function when all declarations are known. A name is refused as
declared twice or as not declared at all only where the tree says so.
-/
namespace ScriptVM.Lexical

open Names (State Walk Unvisited Noted functions)

section Walk

variable {paths paths' : List (List Nat)} {seen before new new' : List Occurrence}
  {use : Occurrence} {st st' : State} {current : Option Nat} {scope : Nat} {path : List Nat}
  {name : String} {tag : Tag}

/-- A use was put off from where it stands. -/
structure PutOff (paths : List (List Nat)) (use : Occurrence) (pending : Names.Pending) : Prop where
  node : pending.use.id = use.node
  name : pending.name = use.name
  scope : Standing paths (some pending.scope) use.path

/-- A use that the walk came to after `before` was noted with the innermost declaration, or put off
if there was none. -/
def Answered (paths : List (List Nat)) (st : State) (before : List Occurrence)
    (use : Occurrence) : Prop :=
  match innermost before use.path use.name with
  | some declaration =>
    (st.annotations.get use.node).get? .binding = some (.binding declaration)
  | none => ∃ pending ∈ st.pending, PutOff paths use pending

/-- The state of a walk that has come to these declarations and uses. -/
structure Models (paths : List (List Nat)) (seen : List Occurrence) (st : State) : Prop where
  arena : Arena paths seen st.scopes
  opened : ∀ owner, some owner ∈ paths.map List.head? → ¬ Unvisited st owner
  answered : ∀ before use, before ++ [use] <+: seen → use.isDeclaration = false →
    Answered paths st before use
  pending : ∀ pending ∈ st.pending, ∃ before use, before ++ [use] <+: seen ∧
    use.isDeclaration = false ∧ innermost before use.path use.name = none ∧
    PutOff paths use pending

theorem PutOff.later {pending : Names.Pending} (putOff : PutOff paths use pending)
    (grown : paths <+: paths') : PutOff paths' use pending :=
  ⟨putOff.node, putOff.name, putOff.scope.later grown⟩

theorem Answered.later (answered : Answered paths st before use) (grown : paths <+: paths')
    (annotations : st.annotations.Extends st'.annotations) (pending : st.pending ⊆ st'.pending) :
    Answered paths' st' before use := by
  unfold Answered at answered ⊢
  split at answered
  next => exact annotations _ _ _ answered
  next =>
    obtain ⟨putOff, isPending, asked⟩ := answered
    exact ⟨putOff, pending isPending, asked.later grown⟩

/-- The walk goes on over scopes and notes, and comes to no use. -/
theorem Models.step {seen' : List Occurrence} (models : Models paths seen st)
    (grown : paths <+: paths') (annotations : st.annotations.Extends st'.annotations)
    (pending : st'.pending = st.pending) (arena : Arena paths' seen' st'.scopes)
    (opened : ∀ owner, some owner ∈ paths'.map List.head? → ¬ Unvisited st' owner)
    (same : ∀ before use, use.isDeclaration = false →
      (before ++ [use] <+: seen' ↔ before ++ [use] <+: seen)) : Models paths' seen' st' := by
  refine ⟨arena, opened, ?_, ?_⟩
  · intro before use reached isUse
    refine (models.answered before use ((same before use isUse).mp reached) isUse).later grown
      annotations ?_
    rw [pending]
    exact List.Subset.refl _
  · intro use' isPending
    rw [pending] at isPending
    obtain ⟨before, use, reached, isUse, nothing, putOff⟩ := models.pending use' isPending
    exact ⟨before, use, (same before use isUse).mpr reached, isUse, nothing, putOff.later grown⟩

theorem Models.stillOpened (models : Models paths seen st)
    (annotations : st.annotations.Extends st'.annotations) (owner : Nat)
    (isOwner : some owner ∈ paths.map List.head?) : ¬ Unvisited st' owner :=
  fun unvisited => models.opened owner isOwner (unvisited.earlier annotations)

theorem Models.noted_scope {id : Nat} (models : Models paths seen st)
    (noted : Noted id (.scope scope) st st') : Models paths seen st' := by
  have annotations := Annotations.extends_of_set noted.annotations
  exact models.step (List.prefix_refl _) annotations noted.pending (noted.scopes ▸ models.arena)
    (models.stillOpened annotations) fun _ _ _ => Iff.rfl

/-- The node that opens a scope has not been noted before, so it owns no other. -/
theorem Models.openScope (models : Models paths seen st) (standing : Standing paths current path)
    (opened : Names.openScope current tag st = .ok (scope, st')) :
    Models (paths ++ [tag.id :: path]) seen st' ∧
      (paths ++ [tag.id :: path])[scope]? = some (tag.id :: path) := by
  obtain ⟨rfl, noted⟩ := Names.openScope_ok opened
  have annotations := Annotations.extends_of_set noted.annotations
  have grown := noted.grown_scope
  have isNew : some tag.id ∉ paths.map List.head? := fun isOwner =>
    models.opened tag.id isOwner (grown.fresh tag.id (by simp))
  refine ⟨?_, ?_⟩
  · refine models.step (List.prefix_append _ _) annotations noted.pending ?_ ?_
      fun _ _ _ => Iff.rfl
    · rw [noted.scopes]
      exact models.arena.push standing isNew
    · intro owner isOwner
      rw [List.map_append, List.mem_append] at isOwner
      rcases isOwner with before | isNew
      · exact models.stillOpened annotations owner before
      · simp only [List.map_cons, List.map_nil, List.head?_cons, List.mem_singleton,
          Option.some.injEq] at isNew
        rw [isNew]
        exact grown.visited tag.id (by simp)
  · rw [← models.arena.size, List.getElem?_append_right (Nat.le_refl _), Nat.sub_self]
    rfl

/-- The last that the walk came to, or one before it. -/
theorem prefix_concat {last : Occurrence} (reached : before ++ [use] <+: seen ++ [last]) :
    (before = seen ∧ use = last) ∨ before ++ [use] <+: seen := by
  rcases List.prefix_concat_iff.mp reached with same | earlier
  · obtain ⟨rfl, isLast⟩ := List.append_inj' same rfl
    exact .inl ⟨rfl, List.singleton_inj.mp isLast⟩
  · exact .inr earlier

theorem Models.declared (models : Models paths seen st) {scopes : Scopes}
    (arena : Arena paths (seen ++ [⟨path, name, tag.id, true⟩]) scopes) :
    Models paths (seen ++ [⟨path, name, tag.id, true⟩]) { st with scopes } := by
  refine models.step (List.prefix_refl _) (Annotations.Extends.refl _) rfl arena models.opened ?_
  intro before use isUse
  refine ⟨fun reached => ?_, fun reached => reached.trans (List.prefix_append _ _)⟩
  rcases prefix_concat reached with ⟨_, rfl⟩ | earlier
  · cases isUse
  · exact earlier

theorem Arena.used {scopes : Scopes} (arena : Arena paths seen scopes) (path : List Nat)
    (name : String) (id : Nat) : Arena paths (seen ++ [⟨path, name, id, false⟩]) scopes := by
  have notDeclared : ∀ other name',
      Occurrence.declaresIn other name' ⟨path, name, id, false⟩ = false := fun _ _ => rfl
  refine ⟨arena.size, arena.owners, arena.parents, ?_, ?_, ?_⟩
  · intro scope owner outer found name'
    rw [arena.members scope owner outer found name', declaration?, declaration?, List.find?_append,
      List.find?_singleton, notDeclared]
    simp
  · intro occurrence isSeen declares
    rcases List.mem_append.mp isSeen with before | isNew
    · exact arena.homes occurrence before declares
    · rw [List.mem_singleton.mp isNew] at declares
      cases declares
  · rintro ⟨scope, name', counted⟩
    rw [List.countP_append, List.countP_singleton, notDeclared] at counted
    exact arena.once ⟨scope, name', counted⟩

/-- A use is answered where the walk comes to it. Whatever else is noted or put off, the uses before
it keep their answers. -/
theorem Models.refer (models : Models paths seen st) (standing : Standing paths (some scope) path)
    (referred : Names.refer scope name tag st = .ok ((), st')) :
    Models paths (seen ++ [⟨path, name, tag.id, false⟩]) st' := by
  have found := models.arena.resolve standing name
  have arena := models.arena.used path name tag.id
  have earlier : ∀ {last : State} {before : List Occurrence} {use : Occurrence},
      st.annotations.Extends last.annotations → st.pending ⊆ last.pending →
      before ++ [use] <+: seen → use.isDeclaration = false → Answered paths last before use :=
    fun annotations pending reached isUse =>
      (models.answered _ _ reached isUse).later (List.prefix_refl _) annotations pending
  have stillPending : ∀ pending ∈ st.pending, ∃ before use,
      before ++ [use] <+: seen ++ [⟨path, name, tag.id, false⟩] ∧ use.isDeclaration = false ∧
        innermost before use.path use.name = none ∧ PutOff paths use pending := by
    intro pending isPending
    obtain ⟨before, use, reached, rest⟩ := models.pending pending isPending
    exact ⟨before, use, reached.trans (List.prefix_append _ _), rest⟩
  rw [Names.refer, Walks.get_bind] at referred
  cases resolved : st.scopes.resolve scope name with
  | none =>
    rw [resolved] at referred found
    cases Walks.set_ok.mp referred
    refine ⟨arena, models.opened, ?_, ?_⟩
    · intro before use reached isUse
      rcases prefix_concat reached with ⟨rfl, rfl⟩ | reached
      · unfold Answered
        rw [← found]
        exact ⟨_, List.mem_cons_self, rfl, rfl, standing⟩
      · exact earlier (Annotations.Extends.refl _) (List.subset_cons_self _ _) reached isUse
    · intro pending isPending
      rcases List.mem_cons.mp isPending with rfl | before
      · exact ⟨seen, _, List.prefix_refl _, rfl, found.symm, rfl, rfl, standing⟩
      · exact stillPending pending before
  | some entry =>
    obtain ⟨home, declaration⟩ := entry
    rw [resolved] at referred found
    have noted := Names.note_ok referred
    have annotations := Annotations.extends_of_set noted.annotations
    refine ⟨noted.scopes ▸ arena, models.stillOpened annotations, ?_, ?_⟩
    · intro before use reached isUse
      rcases prefix_concat reached with ⟨rfl, rfl⟩ | reached
      · unfold Answered
        rw [← found]
        exact Annotations.some_of_set noted.annotations
      · exact earlier annotations (by rw [noted.pending]; exact List.Subset.refl _) reached isUse
    · rw [noted.pending]
      exact stillPending

/-- What a walk comes to that starts in the given state: it goes on over the new declarations and
uses, or refuses internally, or refuses a name that a scope declares twice. -/
def Comes {α : Type} (paths : List (List Nat)) (all : List Occurrence) :
    Except PassError (α × State) → Prop
  | .ok (_, st) => ∃ paths', paths <+: paths' ∧ Models paths' all st
  | .error e => e.isInternal = true ∨
    (∃ name span, e = .name (.duplicate name span)) ∧ DeclaresTwice all

/-- A walk from where it stands that comes to these declarations and uses. -/
def Follows {α : Type} (current : Option Nat) (path : List Nat) (new : List Occurrence)
    (x : Walk α) : Prop :=
  ∀ paths seen st, Standing paths current path → Models paths seen st →
    Comes paths (seen ++ new) (x st)

section Steps

variable {α : Type}

theorem Follows.nothing : Follows current path [] (pure () : Walk Unit) := by
  intro paths seen st _ models
  rw [List.append_nil]
  exact ⟨paths, List.prefix_refl _, models⟩

theorem Follows.bind {x : Walk Unit} {f : Unit → Walk α} (first : Follows current path new x)
    (rest : Follows current path new' (f ())) : Follows current path (new ++ new') (x >>= f) := by
  intro paths seen st standing models
  have one := first paths seen st standing models
  show Comes _ _ (x st >>= fun result => f result.1 result.2)
  cases walked : x st with
  | error e =>
    rw [walked] at one
    refine one.imp_right fun refused => ⟨refused.1, ?_⟩
    rw [← List.append_assoc]
    exact refused.2.later
  | ok result =>
    obtain ⟨_, st₁⟩ := result
    rw [walked] at one
    obtain ⟨paths₁, grown, models₁⟩ := one
    have two := rest paths₁ _ st₁ (standing.later grown) models₁
    rw [List.append_assoc] at two
    show Comes _ _ (f () st₁)
    revert two
    cases f () st₁ with
    | error e => exact id
    | ok result =>
      rintro ⟨paths₂, grown', models₂⟩
      exact ⟨paths₂, grown.trans grown', models₂⟩

/-- A note is refused internally only. -/
theorem internal_of_note {id : Nat} {value : Note} {e : PassError}
    (refused : Names.note id value st = .error e) : e.isInternal = true := by
  rw [Names.note, Walks.get_bind, Annotations.write] at refused
  cases written : st.annotations.set id value with
  | error e' =>
    rw [written] at refused
    cases refused
    rfl
  | ok annotations =>
    rw [written] at refused
    cases refused

/-- A node is noted with the scope it stands in, and then the walk goes on. -/
theorem Follows.enter (node : Node Tag) {f : Nat → Walk α}
    (rest : Follows (some scope) path new (f scope)) :
    Follows (some scope) path new (Names.enter (some scope) node >>= f) := by
  have noted : Follows (some scope) path [] (Names.note node.id (.scope scope)) := by
    intro paths seen st _ models
    rw [List.append_nil]
    cases noted : Names.note node.id (.scope scope) st with
    | error e => exact .inl (internal_of_note noted)
    | ok result => exact ⟨paths, List.prefix_refl _, models.noted_scope (Names.note_ok noted)⟩
  have split : (Names.enter (some scope) node >>= f) =
      (Names.note node.id (.scope scope) >>= fun _ => f scope) := by
    simp [Names.enter]
  rw [split]
  exact noted.bind rest

/-- A node opens a scope, and then the walk goes on inside. -/
theorem Follows.openScope {f : Nat → Walk α}
    (inside : ∀ scope, Follows (some scope) (tag.id :: path) new (f scope)) :
    Follows current path new (Names.openScope current tag >>= f) := by
  intro paths seen st standing models
  show Comes _ _ (Names.openScope current tag st >>= fun result => f result.1 result.2)
  cases opened : Names.openScope current tag st with
  | error e =>
    left
    simp only [Names.openScope, Walks.get_bind, Walks.set_bind] at opened
    rcases Walks.bind_error.mp opened with refused | ⟨_, _, _, impossible⟩
    · exact internal_of_note refused
    · cases impossible
  | ok result =>
    obtain ⟨scope, st₁⟩ := result
    obtain ⟨models₁, standing₁⟩ := models.openScope standing opened
    have come := inside scope _ _ st₁ standing₁ models₁
    show Comes _ _ (f scope st₁)
    revert come
    cases f scope st₁ with
    | error e => exact id
    | ok result =>
      rintro ⟨paths₂, grown, models₂⟩
      exact ⟨paths₂, (List.prefix_append _ _).trans grown, models₂⟩

theorem follows_declare (name : String) (tag : Tag) :
    Follows (some scope) path [⟨path, name, tag.id, true⟩] (Names.declare scope name tag) := by
  intro paths seen st standing models
  rw [Names.declare, Walks.get_bind]
  rcases models.arena.declare standing name tag.id tag.span with
    ⟨refused, twice⟩ | ⟨scopes, declared, arena⟩
  · rw [refused]
    exact .inr ⟨⟨name, tag.span, rfl⟩, twice⟩
  · rw [declared]
    exact ⟨paths, List.prefix_refl _, models.declared arena⟩

theorem follows_refer (name : String) (tag : Tag) :
    Follows (some scope) path [⟨path, name, tag.id, false⟩] (Names.refer scope name tag) := by
  intro paths seen st standing models
  cases referred : Names.refer scope name tag st with
  | error e =>
    left
    rw [Names.refer, Walks.get_bind] at referred
    cases resolved : st.scopes.resolve scope name with
    | none =>
      rw [resolved] at referred
      cases referred
    | some entry =>
      rw [resolved] at referred
      exact internal_of_note referred
  | ok result => exact ⟨paths, List.prefix_refl _, models.refer standing referred⟩

end Steps

theorem follows_visitAll {nodes : List (Node Tag)}
    (each : ∀ node ∈ nodes,
      Follows (some scope) path (occurrences path node) (Names.visit (some scope) node)) :
    Follows (some scope) path (occurrencesAll path nodes) (Names.visitAll (some scope) nodes) := by
  induction nodes with
  | nil =>
    rw [Names.visitAll]
    exact .nothing
  | cons node rest ih =>
    rw [Names.visitAll]
    exact (each node (by simp)).bind (ih fun other member => each other (by simp [member]))

/-- Resolving names comes to the declarations and uses of a tree in their order. -/
theorem follows_visit (node : Node Tag) (scope : Nat) (path : List Nat) :
    Follows (some scope) path (occurrences path node) (Names.visit (some scope) node) := by
  induction node using Node.childInduction generalizing scope path with
  | step node ih =>
  by_cases plain : Names.isPlain node = true
  · rw [Names.visit_plain (some scope) plain, occurrences_plain path plain]
    exact .enter node (follows_visitAll fun child member => ih child member scope path)
  cases node with
  | program tag name body | block tag body =>
    rw [Names.visit, occurrences]
    exact .openScope fun inner => follows_visitAll fun child member => ih child member inner _
  | define tag name params body type =>
    rw [Names.visit, occurrences, ← List.singleton_append]
    refine (follows_declare name tag).bind (.openScope fun inner => ?_)
    refine Follows.bind (follows_visitAll fun param member => ?_) ?_
    · exact ih param (by simp [Node.children, member]) inner _
    · exact ih body (by simp [Node.children]) inner _
  | param tag name type =>
    rw [Names.visit, occurrences]
    exact .enter _ (follows_declare name tag)
  | declare tag mutability name type value =>
    rw [Names.visit, occurrences]
    exact .enter _ ((ih value (by simp [Node.children]) scope path).bind (follows_declare name tag))
  | assign tag name value =>
    rw [Names.visit, occurrences, ← List.singleton_append]
    exact .enter _ ((follows_refer name tag).bind (ih value (by simp [Node.children]) scope path))
  | leaf tag kind =>
    cases kind with
    | valueId name =>
      rw [Names.visit, occurrences]
      exact .enter _ (follows_refer name tag)
    | _ => exact absurd rfl plain
  | _ => exact absurd rfl plain

/-- The walk over a whole program, which no scope is around. -/
theorem comes_visit (tag : Tag) (name : String) (body : List (Node Tag)) :
    Comes [] (occurrences [] (.program tag name body))
      (Names.visit none (.program tag name body) ⟨{}, {}, []⟩) := by
  have start : Models [] [] ⟨{}, {}, []⟩ := by
    refine ⟨⟨rfl, .nil, nofun, nofun, nofun, ?_⟩, nofun, ?_, nofun⟩
    · rintro ⟨scope, name, counted⟩
      cases counted
    · intro before use reached
      simp at reached
  have follows : Follows none [] (occurrences [] (.program tag name body))
      (Names.visit none (.program tag name body)) := by
    rw [Names.visit, occurrences]
    exact .openScope fun scope => follows_visitAll fun node _ => follows_visit node scope _
  exact follows [] [] _ rfl start

end Walk

section Settling

/-- The function that a use that was put off refers to in the end. -/
def settled (listed : List Nat) (scopes : Scopes) (use : Names.Pending) : Option Nat :=
  ((scopes.resolve use.scope use.name).map Prod.snd).filter listed.contains

/-- A use that was put off is noted with its function, or refused for having none. -/
theorem settle_cases (listed : List Nat) (use : Names.Pending) (st : State) :
    (∃ function st', Names.settle listed use st = .ok ((), st') ∧
      settled listed st.scopes use = some function ∧
      Noted use.use.id (.binding function) st st') ∨
    ∃ e, Names.settle listed use st = .error e ∧
      (e.isInternal = true ∨ (∃ name span, e = .name (.unresolved name span)) ∧
        settled listed st.scopes use = none) := by
  rw [Names.settle, Walks.get_bind, Scopes.lookup, settled]
  cases st.scopes.resolve use.scope use.name with
  | none => exact .inr ⟨_, rfl, .inr ⟨⟨_, _, rfl⟩, rfl⟩⟩
  | some entry =>
    obtain ⟨home, declaration⟩ := entry
    simp only [Option.map_some, Option.filter_some]
    by_cases isFunction : listed.contains declaration = true
    · rw [if_pos isFunction, if_pos isFunction]
      cases noted : Names.note use.use.id (.binding declaration) st with
      | error e => exact .inr ⟨e, rfl, .inl (internal_of_note noted)⟩
      | ok result => exact .inl ⟨declaration, result.2, rfl, rfl, Names.note_ok noted⟩
    · rw [if_neg isFunction, if_neg isFunction]
      exact .inr ⟨_, rfl, .inr ⟨⟨_, _, rfl⟩, rfl⟩⟩

/-- Uses that were put off are noted with their functions, or one of them is refused. -/
theorem settleAll_cases (listed : List Nat) (uses : List Names.Pending) (st : State) :
    (∃ st', uses.forM (Names.settle listed) st = .ok ((), st') ∧
      st.annotations.Extends st'.annotations ∧
      ∀ use ∈ uses, ∃ function, settled listed st.scopes use = some function ∧
        (st'.annotations.get use.use.id).get? .binding = some (.binding function)) ∨
    ∃ e, uses.forM (Names.settle listed) st = .error e ∧
      (e.isInternal = true ∨ (∃ name span, e = .name (.unresolved name span)) ∧
        ∃ use ∈ uses, settled listed st.scopes use = none) := by
  induction uses generalizing st with
  | nil => exact .inl ⟨st, rfl, Annotations.Extends.refl _, nofun⟩
  | cons use rest ih =>
    have unfolded : (use :: rest).forM (Names.settle listed) st =
        (Names.settle listed use st >>= fun result => rest.forM (Names.settle listed) result.2) :=
      rfl
    rw [unfolded]
    rcases settle_cases listed use st with
      ⟨function, st₁, done, isSettled, noted⟩ | ⟨e, refused, reason⟩
    · have annotations := Annotations.extends_of_set noted.annotations
      rw [done]
      show (∃ st', rest.forM (Names.settle listed) st₁ = .ok ((), st') ∧ _) ∨
        ∃ e, rest.forM (Names.settle listed) st₁ = .error e ∧ _
      have following := ih st₁
      rw [noted.scopes] at following
      rcases following with ⟨st', doneRest, extended, bound⟩ | ⟨e, refused, reason⟩
      · refine .inl ⟨st', doneRest, annotations.trans extended, ?_⟩
        intro other member
        rcases List.mem_cons.mp member with rfl | inRest
        · exact ⟨function, isSettled,
            extended _ _ _ (Annotations.some_of_set noted.annotations)⟩
        · exact bound other inRest
      · refine .inr ⟨e, refused, reason.imp_right ?_⟩
        rintro ⟨isUnresolved, other, inRest, unsettled⟩
        exact ⟨isUnresolved, other, List.mem_cons_of_mem _ inRest, unsettled⟩
    · rw [refused]
      refine .inr ⟨e, rfl, reason.imp_right ?_⟩
      rintro ⟨isUnresolved, unsettled⟩
      exact ⟨isUnresolved, use, List.mem_cons_self, unsettled⟩

/-- Where a walk over a whole program ends, what a use that was put off is settled with is what the
rule says of it. -/
theorem Models.settled_eq {root : Node Tag} {paths : List (List Nat)} {st : State}
    {before : List Occurrence} {use : Occurrence} {pending : Names.Pending}
    (models : Models paths (occurrences [] root) st)
    (nothing : innermost before use.path use.name = none) (putOff : PutOff paths use pending) :
    settled (functions root) st.scopes pending = referent root before use := by
  rw [settled, putOff.name, models.arena.resolve putOff.scope, referent, nothing, Option.none_or]

end Settling

end ScriptVM.Lexical

namespace ScriptVM

open Lexical
open Walks (Proper)

/-- How resolving the names of a program ends, by what its tree says. First comes the walk, in which
a duplicate shows, then the uses that were put off, of which the walk could not find the
declaration. -/
theorem Names.resolveAll_cases {root : Node Tag} {tag : Tag} {name : String}
    {body : List (Node Tag)} (isProgram : root = .program tag name body)
    (isTree : (root.preorder.map Node.id).Nodup) :
    (∃ st, resolveAll root ⟨{}, {}, []⟩ = .ok ((), st) ∧ ¬ DeclaresTwice (occurrences [] root) ∧
      ∀ node ∈ root.preorder, isUse node = true → ∃ declaration,
        prescribed root node.id = some declaration ∧
        (st.annotations.get node.id).get? .binding = some (.binding declaration)) ∨
    (∃ name span, resolveAll root ⟨{}, {}, []⟩ = .error (.name (.duplicate name span)) ∧
      DeclaresTwice (occurrences [] root)) ∨
    ∃ name span, resolveAll root ⟨{}, {}, []⟩ = .error (.name (.unresolved name span)) ∧
      ¬ DeclaresTwice (occurrences [] root) ∧
      ∃ node ∈ root.preorder, isUse node = true ∧ prescribed root node.id = none := by
  have come := comes_visit tag name body
  have proper := proper_resolveAll isProgram isTree
  rw [← isProgram] at come
  have unfolded : resolveAll root ⟨{}, {}, []⟩ =
      (visit none root ⟨{}, {}, []⟩ >>= fun result =>
        result.2.pending.reverse.forM (settle (functions root)) result.2) := rfl
  rw [unfolded] at proper ⊢
  cases walked : visit none root ⟨{}, {}, []⟩ with
  | error e =>
    rw [walked] at come proper
    rcases come with internal | ⟨⟨name, span, rfl⟩, twice⟩
    · exact absurd proper (by simp [bind, Except.bind, Proper, internal])
    · exact .inr (.inl ⟨name, span, rfl, twice⟩)
  | ok result =>
    obtain ⟨_, st⟩ := result
    rw [walked] at come proper
    obtain ⟨paths, _, models⟩ := come
    have once := models.arena.once
    change Proper _ _ (st.pending.reverse.forM (settle (functions root)) st) at proper
    show (∃ st', st.pending.reverse.forM (settle (functions root)) st = .ok ((), st') ∧ _) ∨
      (∃ name span, st.pending.reverse.forM (settle (functions root)) st =
        .error (.name (.duplicate name span)) ∧ _) ∨
      ∃ name span, st.pending.reverse.forM (settle (functions root)) st =
        .error (.name (.unresolved name span)) ∧ _
    rcases settleAll_cases (functions root) st.pending.reverse st with
      ⟨st', done, extended, bound⟩ | ⟨e, refused, reason⟩
    · refine .inl ⟨st', done, once, ?_⟩
      intro node member used
      obtain ⟨before, use, reached, isUse, same⟩ := exists_use member used
      rw [← same, prescribed_eq isTree reached isUse]
      have answered := models.answered before use reached isUse
      unfold Answered at answered
      cases found : innermost before use.path use.name with
      | some declaration =>
        rw [found] at answered
        exact ⟨declaration, by rw [referent, found, Option.some_or], extended _ _ _ answered⟩
      | none =>
        rw [found] at answered
        obtain ⟨pending, isPending, putOff⟩ := answered
        obtain ⟨function, isSettled, noted⟩ := bound pending (List.mem_reverse.mpr isPending)
        rw [models.settled_eq found putOff] at isSettled
        rw [putOff.node] at noted
        exact ⟨function, isSettled, noted⟩
    · rw [refused] at proper
      rcases reason with internal | ⟨⟨name, span, rfl⟩, pending, isPending, unsettled⟩
      · exact absurd proper (by simp [Proper, internal])
      obtain ⟨before, use, reached, isUse, nothing, putOff⟩ :=
        models.pending pending (List.mem_reverse.mp isPending)
      obtain ⟨node, member, used, same⟩ := exists_node reached isUse
      refine .inr (.inr ⟨name, span, refused, once, node, member, used, ?_⟩)
      rw [same, prescribed_eq isTree reached isUse, ← models.settled_eq nothing putOff, unsettled]

/-- Names are resolved by lexical scoping. A program is refused for a name that is declared twice
just if some scope declares one name twice; otherwise it is refused for a name without a declaration
just if the rule gives some use none; otherwise every use is noted with what the rule gives it. -/
theorem Document.resolves_lexically {anonymous source : String}
    {parsed document : Document} (parse : Document.parse anonymous source = .ok parsed)
    (prepared : parsed.joinAlternatives.wrapProgram = .ok document) :
    ((∃ name span, document.resolveNames = .error (.name (.duplicate name span))) ↔
      DeclaresTwice (occurrences [] document.root)) ∧
    (¬ DeclaresTwice (occurrences [] document.root) →
      ((∃ name span, document.resolveNames = .error (.name (.unresolved name span))) ↔
        ∃ node ∈ document.root.preorder, Names.isUse node = true ∧
          prescribed document.root node.id = none) ∧
      ((∀ node ∈ document.root.preorder, Names.isUse node = true →
          prescribed document.root node.id ≠ none) →
        ∃ resolved, document.resolveNames = .ok resolved ∧ resolved.root = document.root ∧
          ∀ node ∈ document.root.preorder, Names.isUse node = true →
            (resolved.notes node).binding = prescribed document.root node.id)) := by
  have isTree := (numbered_wrapProgram (numbered_joinAlternatives (numbered_parse parse))
    prepared).isTree
  obtain ⟨tag, name, body, next, rfl, _⟩ :=
    @shaped_parse .all _ _ _ parse trivial fun _ _ _ _ => trivial
  have wrapped := wrapProgram_eq tag name body next {} {}
  rw [prepared] at wrapped
  cases wrapped
  unfold resolveNames
  simp only [StateT.run]
  have isProgram : (wrapping tag next body).tree name = .program _ name _ := rfl
  rcases Names.resolveAll_cases isProgram isTree with
    ⟨st, done, once, bound⟩ | ⟨name, span, refused, twice⟩ |
      ⟨name, span, refused, once, node, member, used, unbound⟩
  · rw [done]
    refine ⟨⟨nofun, fun twice => absurd twice once⟩, fun _ => ⟨⟨nofun, ?_⟩, ?_⟩⟩
    · rintro ⟨node, member, used, unbound⟩
      obtain ⟨declaration, isBound, _⟩ := bound node member used
      rw [unbound] at isBound
      cases isBound
    · refine fun _ => ⟨_, rfl, rfl, ?_⟩
      intro node member used
      obtain ⟨declaration, isBound, noted⟩ := bound node member used
      rw [isBound]
      exact Notes.binding_of_get? noted
  · rw [refused]
    exact ⟨⟨fun _ => twice, fun _ => ⟨name, span, rfl⟩⟩, fun once => absurd twice once⟩
  · rw [refused]
    refine ⟨⟨nofun, fun twice => absurd twice once⟩, fun _ => ⟨⟨fun _ => ?_, fun _ => ?_⟩, ?_⟩⟩
    · exact ⟨node, member, used, unbound⟩
    · exact ⟨name, span, rfl⟩
    · exact fun all => absurd unbound (all node member used)

/-- A function called before it is written, one that uses a variable around it, and a parameter that
hides that variable. -/
theorem Document.resolves_lexically_of_shadowing :
    ∃ parsed document resolved,
      Document.parse "main"
        "val x = 1; def f(n) \x7b g(x + n) \x7d; def g(x) \x7b x \x7d; f(2)" = .ok parsed ∧
      parsed.joinAlternatives.wrapProgram = .ok document ∧
      document.resolveNames = .ok resolved ∧
      (document.root.preorder.filter Names.isUse).map
          (fun use => (use.id, (resolved.notes use).binding)) =
        [(4, some 14), (5, some 2), (6, some 3), (12, some 11), (15, some 10), (21, some 20)] := by
  have computed : ((Document.parse "main"
      "val x = 1; def f(n) \x7b g(x + n) \x7d; def g(x) \x7b x \x7d; f(2)").toOption.bind
        fun parsed => parsed.joinAlternatives.wrapProgram.toOption.map
          fun document => (decide (DeclaresTwice (occurrences [] document.root)),
            (document.root.preorder.filter Names.isUse).map
              fun use => (use.id, prescribed document.root use.id))) =
      some (false,
        [(4, some 14), (5, some 2), (6, some 3), (12, some 11), (15, some 10), (21, some 20)]) := by
    decide +kernel
  obtain ⟨parsed, parse, wrapped⟩ := Option.bind_eq_some_iff.mp computed
  obtain ⟨document, prepare, found⟩ := Option.map_eq_some_iff.mp wrapped
  have parse := ok_of_toOption parse
  have prepared := ok_of_toOption prepare
  rw [Prod.mk.injEq, decide_eq_false_iff_not] at found
  obtain ⟨once, rule⟩ := found
  have everyUse : ∀ node ∈ document.root.preorder, Names.isUse node = true →
      prescribed document.root node.id ≠ none := by
    intro node member used unbound
    have listed : (node.id, prescribed document.root node.id) ∈
        (document.root.preorder.filter Names.isUse).map
          fun use => (use.id, prescribed document.root use.id) :=
      List.mem_map.mpr ⟨node, List.mem_filter.mpr ⟨member, used⟩, rfl⟩
    rw [rule, unbound] at listed
    simp at listed
  obtain ⟨resolved, success, _, bound⟩ :=
    ((resolves_lexically parse prepared).2 once).2 everyUse
  refine ⟨parsed, document, resolved, parse, prepared, success, ?_⟩
  rw [← rule]
  refine List.map_congr_left fun node isIn => ?_
  obtain ⟨member, used⟩ := List.mem_filter.mp isIn
  rw [bound node member used]

end ScriptVM
