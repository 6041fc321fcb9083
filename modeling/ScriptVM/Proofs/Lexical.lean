import ScriptVM.Proofs.NamesNoted

/-!
Lexical scoping, said of the tree alone.

Programs, blocks and functions are scopes. A walk from left to right comes to the declarations and
the uses of names in a certain order: to a function and to a parameter when it enters the node, to a
variable after its value. A use refers to the declaration of its name in the innermost scope around
it that has one already, and if none has, to the one in the innermost scope that has one in the end,
if that is a function.

The scopes that are opened while names are resolved hold, at every moment, the declarations that the
walk has come to. So what is found in them is what this rule says.
-/
namespace ScriptVM.Lexical

open Names (isUse functions)

/-- A declaration or a use of a name. -/
structure Occurrence where
  /-- The scopes around it by their nodes, the innermost first. -/
  path : List Nat
  name : String
  node : Nat
  isDeclaration : Bool
deriving DecidableEq, Repr

mutual

/-- The declarations and uses of a tree that stands in scopes, in the order a walk comes to them. -/
def occurrences (path : List Nat) : Node Tag → List Occurrence
  | .leaf tag (.valueId name) => [⟨path, name, tag.id, false⟩]
  | .leaf .. => []
  | .param tag name _ => [⟨path, name, tag.id, true⟩]
  | .program tag _ body | .block tag body => occurrencesAll (tag.id :: path) body
  | .define tag name params body _ =>
    ⟨path, name, tag.id, true⟩ ::
      (occurrencesAll (tag.id :: path) params ++ occurrences (tag.id :: path) body)
  | .declare tag _ name _ value => occurrences path value ++ [⟨path, name, tag.id, true⟩]
  | .assign tag name value => ⟨path, name, tag.id, false⟩ :: occurrences path value
  | .branch _ pred yes no =>
    occurrences path pred ++ occurrences path yes ++ occurrences path no
  | .orElse _ body => occurrences path body
  | .loop _ pred body => occurrences path pred ++ occurrences path body
  | .binary _ _ left right => occurrences path left ++ occurrences path right
  | .call _ callee args none => occurrences path callee ++ occurrencesAll path args
  | .call _ callee args (some trailing) =>
    occurrences path callee ++ occurrencesAll path args ++ occurrences path trailing
  | .aggregate _ _ elements => occurrencesAll path elements

/-- The declarations and uses of several trees, from left to right. -/
def occurrencesAll (path : List Nat) : List (Node Tag) → List Occurrence
  | [] => []
  | node :: rest => occurrences path node ++ occurrencesAll path rest

end

namespace Occurrence

/-- Whether it declares a name in a scope. -/
def declaresIn (scope : Nat) (name : String) (occurrence : Occurrence) : Bool :=
  occurrence.isDeclaration && occurrence.path.head? == some scope && occurrence.name == name

/-- Whether it is the use that a node makes. -/
def isUseBy (node : Nat) (occurrence : Occurrence) : Bool :=
  !occurrence.isDeclaration && occurrence.node == node

end Occurrence

/-- The declaration of a name in a scope, if the walk has come to one. -/
def declaration? (seen : List Occurrence) (name : String) (scope : Nat) : Option Nat :=
  (seen.find? (·.declaresIn scope name)).map Occurrence.node

/-- The declaration of a name in the innermost scope that has one. -/
def innermost (seen : List Occurrence) (path : List Nat) (name : String) : Option Nat :=
  path.findSome? (declaration? seen name)

/-- Some scope declares one name twice. -/
def DeclaresTwice (all : List Occurrence) : Prop :=
  ∃ scope name, 1 < all.countP (·.declaresIn scope name)

theorem declaresTwice_iff {all : List Occurrence} :
    DeclaresTwice all ↔ ∃ occurrence ∈ all, ∃ scope ∈ occurrence.path.head?,
      1 < all.countP (·.declaresIn scope occurrence.name) := by
  constructor
  · rintro ⟨scope, name, counted⟩
    obtain ⟨occurrence, member, declares⟩ :=
      List.countP_pos_iff.mp (Nat.lt_of_succ_lt counted)
    simp only [Occurrence.declaresIn, Bool.and_eq_true, beq_iff_eq] at declares
    obtain ⟨⟨_, isHome⟩, rfl⟩ := declares
    exact ⟨occurrence, member, scope, isHome, counted⟩
  · rintro ⟨occurrence, _, scope, _, counted⟩
    exact ⟨scope, occurrence.name, counted⟩

instance : DecidablePred DeclaresTwice := fun _ =>
  decidable_of_iff _ declaresTwice_iff.symm

/-- What a use refers to that the walk comes to after `seen`. -/
def referent (root : Node Tag) (seen : List Occurrence) (use : Occurrence) : Option Nat :=
  (innermost seen use.path use.name).or
    ((innermost (occurrences [] root) use.path use.name).filter (functions root).contains)

/-- What the use that a node makes refers to. -/
def prescribed (root : Node Tag) (node : Nat) : Option Nat :=
  ((occurrences [] root).find? (·.isUseBy node)).bind
    (referent root ((occurrences [] root).takeWhile (!·.isUseBy node)))

section Uses

variable {root : Node Tag} {before : List Occurrence} {use : Occurrence}

theorem occurrencesAll_append (path : List Nat) (first second : List (Node Tag)) :
    occurrencesAll path (first ++ second) =
      occurrencesAll path first ++ occurrencesAll path second := by
  induction first with
  | nil => rfl
  | cons node rest ih => simp [occurrencesAll, ih]

/-- What occurs in a plain node occurs in its children. -/
theorem occurrences_plain (path : List Nat) {node : Node Tag} (plain : Names.isPlain node = true) :
    occurrences path node = occurrencesAll path node.children := by
  cases node with
  | leaf tag kind =>
    cases kind with
    | valueId name => cases plain
    | _ => rfl
  | call tag callee args trailing =>
    cases trailing with
    | none => simp [occurrences, occurrencesAll, Node.children]
    | some trailing =>
      simp [occurrences, occurrencesAll, occurrencesAll_append, Node.children]
  | branch | orElse | loop | binary | aggregate =>
    simp [occurrences, occurrencesAll, Node.children]
  | _ => cases plain

/-- The nodes of the uses among some occurrences. -/
def usesOf (all : List Occurrence) : List Nat :=
  (all.filter (!·.isDeclaration)).map Occurrence.node

theorem usesOf_append (first second : List Occurrence) :
    usesOf (first ++ second) = usesOf first ++ usesOf second := by
  simp [usesOf]

/-- The uses among some nodes. -/
def usesIn (nodes : List (Node Tag)) : List Nat :=
  (nodes.filter isUse).map Node.id

theorem usesIn_append (first second : List (Node Tag)) :
    usesIn (first ++ second) = usesIn first ++ usesIn second := by
  simp [usesIn]

theorem usesOf_occurrencesAll {path : List Nat} {nodes : List (Node Tag)}
    (each : ∀ node ∈ nodes, usesOf (occurrences path node) = usesIn node.preorder) :
    usesOf (occurrencesAll path nodes) = usesIn (Node.preorderAll nodes) := by
  induction nodes with
  | nil => rfl
  | cons node rest ih =>
    rw [occurrencesAll, Node.preorderAll, usesOf_append, usesIn_append, each node (by simp),
      ih fun other member => each other (by simp [member])]

/-- The walk comes to the uses of a tree in preorder. -/
theorem usesOf_occurrences (path : List Nat) (node : Node Tag) :
    usesOf (occurrences path node) = usesIn node.preorder := by
  induction node using Node.childInduction generalizing path with
  | step node ih =>
  have below := fun path => usesOf_occurrencesAll fun child member => ih child member path
  rw [Node.preorder_eq, ← List.singleton_append, usesIn_append]
  by_cases plain : Names.isPlain node = true
  · have notUse : isUse node = false := by
      cases node with
      | leaf tag kind => cases kind <;> first | rfl | cases plain
      | _ => first | rfl | cases plain
    rw [occurrences_plain path plain, below path]
    simp [usesIn, notUse]
  cases node with
  | program tag name body | block tag body =>
    rw [occurrences, ← below (tag.id :: path)]
    rfl
  | define tag name params body type =>
    have whole : occurrences path (.define tag name params body type) =
        [⟨path, name, tag.id, true⟩] ++
          occurrencesAll (tag.id :: path) (Node.define tag name params body type).children := by
      simp [occurrences, Node.children, occurrencesAll_append, occurrencesAll]
    rw [whole, usesOf_append, below (tag.id :: path)]
    rfl
  | param => rfl
  | declare tag mutability name type value =>
    have inside := ih value (by simp [Node.children]) path
    rw [occurrences, usesOf_append, inside]
    simp [usesOf, usesIn, isUse, Node.children, Node.preorderAll]
  | assign tag name value =>
    have inside := ih value (by simp [Node.children]) path
    rw [occurrences, ← List.singleton_append, usesOf_append, inside]
    simp only [Node.children, Node.preorderAll, List.append_nil]
    rfl
  | leaf tag kind =>
    cases kind with
    | valueId name => rfl
    | _ => exact absurd rfl plain
  | _ => exact absurd rfl plain

/-- The walk comes to every use. -/
theorem exists_use {node : Node Tag} (member : node ∈ root.preorder) (used : isUse node = true) :
    ∃ before use, before ++ [use] <+: occurrences [] root ∧ use.isDeclaration = false ∧
      use.node = node.id := by
  have isUsed : node.id ∈ usesOf (occurrences [] root) := by
    rw [usesOf_occurrences]
    exact List.mem_map_of_mem (List.mem_filter.mpr ⟨member, used⟩)
  obtain ⟨use, isIn, same⟩ := List.mem_map.mp isUsed
  obtain ⟨inside, isUse⟩ := List.mem_filter.mp isIn
  obtain ⟨before, after, split⟩ := List.append_of_mem inside
  exact ⟨before, use, ⟨after, by simp [split]⟩, by simpa using isUse, same⟩

/-- Every use that the walk comes to is one that a node makes. -/
theorem exists_node (reached : before ++ [use] <+: occurrences [] root)
    (isUse : use.isDeclaration = false) :
    ∃ node ∈ root.preorder, Names.isUse node = true ∧ node.id = use.node := by
  have inside : use ∈ occurrences [] root := reached.subset (by simp)
  have isUsed : use.node ∈ usesOf (occurrences [] root) :=
    List.mem_map_of_mem (List.mem_filter.mpr ⟨inside, by simp [isUse]⟩)
  rw [usesOf_occurrences] at isUsed
  obtain ⟨node, isIn, same⟩ := List.mem_map.mp isUsed
  obtain ⟨member, used⟩ := List.mem_filter.mp isIn
  exact ⟨node, member, used, same⟩

/-- The rule for a node is the rule for the use it makes. -/
theorem prescribed_eq (isTree : (root.preorder.map Node.id).Nodup)
    (reached : before ++ [use] <+: occurrences [] root) (isUse : use.isDeclaration = false) :
    prescribed root use.node = referent root before use := by
  obtain ⟨after, split⟩ := reached
  have distinct : (usesOf (occurrences [] root)).Nodup := by
    rw [usesOf_occurrences]
    exact ((List.filter_sublist).map _).nodup isTree
  have here : use.isUseBy use.node = true := by
    simp [Occurrence.isUseBy, isUse]
  have notBefore : ∀ other ∈ before, other.isUseBy use.node = false := by
    intro other member
    rw [Bool.eq_false_iff]
    intro same
    simp only [Occurrence.isUseBy, Bool.and_eq_true, Bool.not_eq_true', beq_iff_eq] at same
    rw [← split, usesOf_append, usesOf_append, List.nodup_append, List.nodup_append] at distinct
    refine distinct.1.2.2 other.node ?_ use.node ?_ same.2
    · exact List.mem_map_of_mem (List.mem_filter.mpr ⟨member, by simp [same.1]⟩)
    · exact List.mem_map_of_mem (List.mem_filter.mpr ⟨by simp, by simp [isUse]⟩)
  have found : (occurrences [] root).find? (·.isUseBy use.node) = some use := by
    rw [← split, List.append_assoc, List.find?_append, List.find?_eq_none.mpr ?_]
    · simp [here]
    · intro other member
      simp [notBefore other member]
  have seen : (occurrences [] root).takeWhile (!·.isUseBy use.node) = before := by
    rw [← split, List.append_assoc, List.takeWhile_append_of_pos]
    · simp [here]
    · intro other member
      simp [notBefore other member]
  rw [prescribed, found, seen]
  rfl

end Uses

section Arena

variable {paths : List (List Nat)} {seen : List Occurrence} {scopes : Scopes} {scope id : Nat}
  {path : List Nat} {name : String}

/-- The scopes that have been opened, each with those around it, and what the walk has come to. -/
structure Arena (paths : List (List Nat)) (seen : List Occurrence) (scopes : Scopes) : Prop where
  size : paths.length = scopes.size
  owners : (paths.map List.head?).Nodup
  parents : ∀ (scope : Nat) (path : List Nat), paths[scope]? = some path →
    ∃ owner outer, path = owner :: outer ∧
      ((outer = [] ∧ scopes.parent? scope = none) ∨
        ∃ parent, parent < scope ∧ scopes.parent? scope = some parent ∧
          paths[parent]? = some outer)
  members : ∀ (scope owner : Nat) (outer : List Nat), paths[scope]? = some (owner :: outer) →
    ∀ name, scopes.member? scope name = declaration? seen name owner
  homes : ∀ occurrence ∈ seen, occurrence.isDeclaration = true → occurrence.path ∈ paths
  once : ¬ DeclaresTwice seen

/-- Where a node stands: in a scope, with those around it, or in none. -/
def Standing (paths : List (List Nat)) : Option Nat → List Nat → Prop
  | none, path => path = []
  | some scope, path => paths[scope]? = some path

/-- A scope keeps its number and its place. -/
theorem Standing.later {paths' : List (List Nat)} {current : Option Nat}
    (standing : Standing paths current path) (grown : paths <+: paths') :
    Standing paths' current path := by
  cases current with
  | none => exact standing
  | some scope =>
    obtain ⟨more, rfl⟩ := grown
    obtain ⟨below, _⟩ := List.getElem?_eq_some_iff.mp standing
    exact (List.getElem?_append_left below).trans standing

theorem declaration?_eq_none :
    declaration? seen name scope = none ↔ seen.countP (·.declaresIn scope name) = 0 := by
  simp [declaration?, List.countP_eq_zero]

theorem DeclaresTwice.later {more : List Occurrence} (twice : DeclaresTwice seen) :
    DeclaresTwice (seen ++ more) := by
  obtain ⟨scope, name, counted⟩ := twice
  exact ⟨scope, name, by rw [List.countP_append]; omega⟩

theorem Arena.lt_size (arena : Arena paths seen scopes)
    (standing : Standing paths (some scope) path) : scope < scopes.size := by
  rw [← arena.size]
  exact (List.getElem?_eq_some_iff.mp standing).1

/-- Scopes of different numbers are opened by different nodes. -/
theorem Arena.scope_eq {other owner : Nat} {outer outer' : List Nat}
    (arena : Arena paths seen scopes) (one : paths[scope]? = some (owner :: outer))
    (two : paths[other]? = some (owner :: outer')) : scope = other := by
  refine (List.getElem?_inj ?_ arena.owners).mp ?_
  · rw [List.length_map]
    exact (List.getElem?_eq_some_iff.mp one).1
  · rw [List.getElem?_map, List.getElem?_map, one, two]
    rfl

/-- What is found from a scope is the innermost declaration. -/
theorem Arena.resolve (arena : Arena paths seen scopes)
    (standing : Standing paths (some scope) path) (name : String) :
    (scopes.resolve scope name).map Prod.snd = innermost seen path name := by
  induction scope using Nat.strongRecOn generalizing path with
  | ind scope ih =>
    obtain ⟨owner, outer, rfl, around⟩ := arena.parents scope path standing
    rw [Scopes.resolve, arena.members scope owner outer standing name, innermost,
      List.findSome?_cons]
    cases declaration? seen name owner with
    | some node => rfl
    | none =>
      rcases around with ⟨rfl, outermost⟩ | ⟨parent, older, isParent, standingOuter⟩
      · rw [outermost]
        rfl
      · simp only [isParent, if_pos older]
        exact ih parent older standingOuter

/-- A scope that a new node opens has nothing in it. -/
theorem Arena.push {current : Option Nat} (arena : Arena paths seen scopes)
    (standing : Standing paths current path) (new : some id ∉ paths.map List.head?) :
    Arena (paths ++ [id :: path]) seen ⟨scopes.all.push ⟨current, []⟩⟩ := by
  have old : ∀ {scope : Nat} {other : List Nat}, Standing paths (some scope) other →
      Standing (paths ++ [id :: path]) (some scope) other :=
    fun standing => standing.later (List.prefix_append _ _)
  have split : ∀ {scope : Nat} {other : List Nat}, (paths ++ [id :: path])[scope]? = some other →
      paths[scope]? = some other ∨ scope = paths.length ∧ other = id :: path := by
    intro scope other found
    rcases Nat.lt_or_ge scope paths.length with below | above
    · rw [List.getElem?_append_left below] at found
      exact .inl found
    · rw [List.getElem?_append_right above] at found
      obtain ⟨inside, same⟩ := List.getElem?_eq_some_iff.mp found
      simp only [List.length_singleton] at inside
      refine .inr ⟨by omega, ?_⟩
      simpa using same.symm
  refine ⟨?_, ?_, ?_, ?_, ?_, arena.once⟩
  · simp [Scopes.size, arena.size]
  · rw [List.map_append, List.nodup_append]
    refine ⟨arena.owners, by simp, ?_⟩
    rintro owner isOwner _ isNew rfl
    simp only [List.map_cons, List.map_nil, List.head?_cons, List.mem_singleton] at isNew
    exact new (isNew ▸ isOwner)
  · intro scope other found
    rw [Scopes.parent?_push, ← arena.size]
    rcases split found with before | ⟨rfl, rfl⟩
    · have below := (List.getElem?_eq_some_iff.mp before).1
      rw [if_neg (Nat.ne_of_lt below)]
      obtain ⟨owner, outer, same, around⟩ := arena.parents scope other before
      refine ⟨owner, outer, same, around.imp_right ?_⟩
      rintro ⟨parent, older, isParent, standingOuter⟩
      exact ⟨parent, older, isParent, old standingOuter⟩
    · rw [if_pos rfl]
      refine ⟨id, path, rfl, ?_⟩
      cases current with
      | none => exact .inl ⟨standing, rfl⟩
      | some scope =>
        exact .inr ⟨scope, (List.getElem?_eq_some_iff.mp standing).1, rfl, old standing⟩
  · intro scope owner outer found name
    rw [Scopes.member?_push]
    rcases split found with before | ⟨rfl, isNew⟩
    · exact arena.members scope owner outer before name
    · cases isNew
      have outside : scopes.member? paths.length name = none := by
        rw [Scopes.member?, arena.size, Scopes.size, Array.getElem?_size]
        rfl
      rw [outside, eq_comm, declaration?, Option.map_eq_none_iff, List.find?_eq_none]
      intro occurrence isSeen declares
      simp only [Occurrence.declaresIn, Bool.and_eq_true, beq_iff_eq] at declares
      refine new ?_
      rw [← declares.1.2]
      exact List.mem_map_of_mem (arena.homes occurrence isSeen declares.1.1)
  · intro occurrence isSeen declares
    exact List.mem_append_left _ (arena.homes occurrence isSeen declares)

/-- A declaration is made in its scope, unless the scope has one of that name. -/
theorem Arena.declare (arena : Arena paths seen scopes)
    (standing : Standing paths (some scope) path) (name : String) (id : Nat) (span : Span) :
    (scopes.declare scope name id span = .error (.duplicate name span) ∧
      DeclaresTwice (seen ++ [⟨path, name, id, true⟩])) ∨
    ∃ scopes', scopes.declare scope name id span = .ok scopes' ∧
      Arena paths (seen ++ [⟨path, name, id, true⟩]) scopes' := by
  obtain ⟨owner, outer, rfl, _⟩ := arena.parents scope path standing
  have isMember := arena.members scope owner outer standing name
  have declares : ∀ other name',
      Occurrence.declaresIn other name' ⟨owner :: outer, name, id, true⟩ =
        (owner == other && name == name') := fun other name' => by
    simp [Occurrence.declaresIn]
  cases known : scopes.member? scope name with
  | some node =>
    refine .inl ⟨by rw [Scopes.declare, known], owner, name, ?_⟩
    have counted : seen.countP (·.declaresIn owner name) ≠ 0 := fun none => by
      rw [known, declaration?_eq_none.mpr none] at isMember
      cases isMember
    rw [List.countP_append, List.countP_singleton, declares]
    simp only [beq_self_eq_true, Bool.and_self, if_true]
    omega
  | none =>
    rw [known, eq_comm, declaration?_eq_none] at isMember
    refine .inr ⟨_, by rw [Scopes.declare, known], ?_⟩
    refine ⟨?_, arena.owners, ?_, ?_, ?_, ?_⟩
    · simpa [Scopes.size] using arena.size
    · intro other path found
      rw [Scopes.parent?_modify]
      exact arena.parents other path found
    · intro other owner' outer' found name'
      rw [Scopes.member?_modify, declaration?, List.find?_append, List.find?_singleton, declares,
        arena.members other owner' outer' found name', declaration?]
      by_cases here : scope = other ∧ name' = name ∧ other < scopes.size
      · rw [if_pos here]
        obtain ⟨rfl, rfl, _⟩ := here
        rw [standing] at found
        cases found
        rw [List.find?_eq_none.mpr (by simpa [List.countP_eq_zero] using isMember)]
        simp
      · rw [if_neg here]
        have apart : (owner == owner' && name == name') = false := by
          rw [Bool.eq_false_iff]
          intro same
          simp only [Bool.and_eq_true, beq_iff_eq] at same
          obtain ⟨rfl, rfl⟩ := same
          exact here ⟨arena.scope_eq standing found, rfl, arena.lt_size found⟩
        simp [apart]
    · intro occurrence isSeen isDeclaration
      rcases List.mem_append.mp isSeen with before | isNew
      · exact arena.homes occurrence before isDeclaration
      · rw [List.mem_singleton.mp isNew]
        exact List.mem_of_getElem? standing
    · rintro ⟨other, name', counted⟩
      rw [List.countP_append, List.countP_singleton, declares] at counted
      have atMost : seen.countP (·.declaresIn other name') ≤ 1 :=
        Nat.not_lt.mp fun twice => arena.once ⟨other, name', twice⟩
      by_cases same : owner = other ∧ name = name'
      · obtain ⟨rfl, rfl⟩ := same
        simp [isMember] at counted
      · have apart : (owner == other && name == name') = false := by
          simpa using fun first second => same ⟨first, second⟩
        simp only [apart] at counted
        simp at counted
        omega

end Arena

end ScriptVM.Lexical
