import ScriptVM.Proofs.Numbering

/-!
The grammar: how a syntax tree is written in tokens.

A tree is well formed if it is made of what a program may be made of, each in its place. It is
written with every operation and every predicate in brackets, a tuple of one element with a comma at
its end, and statements with their ends between them; a predicate that has brackets of its own needs
no more. A variable without a value may leave the value out, and a module that takes its name from
elsewhere may leave out its name, or its reserved words too.
-/
namespace ScriptVM

namespace Node

variable {α : Type}

/-- The tree without its tags. -/
def bare (node : Node α) : Node Unit :=
  node.map fun _ => ()

mutual

/-- Tags that are forgotten do not matter before. -/
theorem bare_map {β : Type} (f : α → β) : ∀ node : Node α, (node.map f).bare = node.bare
  | leaf .. | param .. => rfl
  | program _ _ body | block _ body | aggregate _ _ body => by
    simp only [bare, map, mapAll_unit_map f body]
  | define _ _ params body _ => by
    simp only [bare, map, mapAll_unit_map f params, Node.define.injEq, true_and, and_true]
    exact bare_map f body
  | declare _ _ _ _ value => by
    simp only [bare, map, Node.declare.injEq, true_and]
    exact bare_map f value
  | assign _ name value => congrArg (Node.assign () name) (bare_map f value)
  | orElse _ body => congrArg (Node.orElse ()) (bare_map f body)
  | branch _ pred yes no => by
    simp only [bare, map, Node.branch.injEq, true_and]
    exact ⟨bare_map f pred, bare_map f yes, bare_map f no⟩
  | loop _ left right | binary _ _ left right => by
    simp only [bare, map, Node.loop.injEq, Node.binary.injEq, true_and]
    exact ⟨bare_map f left, bare_map f right⟩
  | call _ callee args none => by
    simp only [bare, map, mapAll_unit_map f args, Node.call.injEq, true_and, and_true]
    exact bare_map f callee
  | call _ callee args (some trailing) => by
    simp only [bare, map, mapAll_unit_map f args, Node.call.injEq, true_and, Option.some.injEq]
    exact ⟨bare_map f callee, bare_map f trailing⟩

theorem mapAll_unit_map {β : Type} (f : α → β) : ∀ nodes : List (Node α),
    mapAll (fun _ => ()) (mapAll f nodes) = mapAll (fun _ => ()) nodes
  | [] => rfl
  | node :: rest => by
    simp only [mapAll, mapAll_unit_map f rest, List.cons.injEq, and_true]
    exact bare_map f node

end

/-- Whether the node is a block. -/
def isBlock : Node α → Bool
  | block .. => true
  | _ => false

/-- Whether the node is a branch. -/
def isBranch : Node α → Bool
  | branch .. => true
  | _ => false

/-- Whether the node is a parameter. -/
def isParam : Node α → Bool
  | param .. => true
  | _ => false

/-- Whether the node is the name of a value. -/
def isName : Node α → Bool
  | leaf _ (.valueId _) => true
  | _ => false

mutual

/-- A tree that may stand where a statement may, or else where an expression may. -/
def WellFormed (statement : Bool) : Node α → Prop
  | leaf _ (.bool text) => text = Keyword.yes.spelling ∨ text = Keyword.no.spelling
  | leaf _ (.symbolId text) => text ≠ "-"
  | leaf _ .noop => False
  | leaf .. => True
  | param .. | program .. => False
  | block _ body => WellFormedAll true body
  | define _ _ params body _ =>
    statement = true ∧ (∀ param ∈ params, param.isParam = true) ∧ body.isBlock = true ∧
      WellFormed false body
  | declare _ _ _ _ value => statement = true ∧ WellFormed false value
  | assign _ _ value => statement = true ∧ WellFormed false value
  | branch _ pred yes no =>
    WellFormed false pred ∧ (yes.isBlock = true ∧ WellFormed false yes) ∧
      (no.isUnit = true ∨ no.isBlock = true ∨ no.isBranch = true) ∧ WellFormed false no
  | orElse _ body =>
    statement = true ∧ (body.isBlock = true ∨ body.isBranch = true) ∧ WellFormed false body
  | loop _ pred body => WellFormed false pred ∧ body.isBlock = true ∧ WellFormed false body
  | binary _ _ left right => WellFormed false left ∧ WellFormed false right
  | call _ callee args none => callee.isName = true ∧ WellFormedAll false args
  | call _ callee args (some trailing) =>
    callee.isName = true ∧ WellFormedAll false args ∧ trailing.isBlock = true ∧
      WellFormed false trailing
  | aggregate _ .tuple elements => elements ≠ [] ∧ WellFormedAll false elements
  | aggregate _ .list elements => WellFormedAll false elements

/-- The same for several trees. -/
def WellFormedAll (statement : Bool) : List (Node α) → Prop
  | [] => True
  | node :: rest => WellFormed statement node ∧ WellFormedAll statement rest

end

/-- A module of statements. -/
def IsModule : Node α → Prop
  | program _ _ body => WellFormedAll true body
  | _ => False

theorem wellFormedAll_iff {statement : Bool} {nodes : List (Node α)} :
    WellFormedAll statement nodes ↔ ∀ node ∈ nodes, WellFormed statement node := by
  induction nodes with
  | nil => simp [WellFormedAll]
  | cons node rest ih => simp [WellFormedAll, ih]

end Node

namespace Grammar

open Token (Kind)

/-- What a run of tokens may write. -/
inductive Phrase where
  | expression (node : Node Unit)
  | statement (node : Node Unit)
  /-- Statements with their ends between them. -/
  | statements (nodes : List (Node Unit))
  /-- An expression with round brackets of its own. -/
  | brackets (node : Node Unit)
  /-- Statements between braces. -/
  | braces (body : List (Node Unit))
  /-- A predicate. -/
  | guard (node : Node Unit)
  /-- A branch. -/
  | conditional (node : Node Unit)
  /-- What may follow the reserved word of the other half of a branch. -/
  | alternative (node : Node Unit)
  /-- Expressions with commas between them. -/
  | elements (nodes : List (Node Unit))
  /-- Expressions with a comma before each. -/
  | others (nodes : List (Node Unit))
  /-- Parameters with commas between them. -/
  | parameters (nodes : List (Node Unit))

/-- The reserved word that declares a variable. -/
def declarator : Mutability → Keyword
  | .val => .val
  | .var => .var

/-- The name of a type, if there is one. -/
def typed : Option String → List Kind
  | none => []
  | some name => [.typeId name]

/-- How phrases are written. -/
inductive Writes : Phrase → List Kind → Prop where
  | int (text : String) : Writes (.expression (.leaf () (.int text))) [.int text]
  | real (text : String) : Writes (.expression (.leaf () (.real text))) [.real text]
  | yes : Writes (.expression (.leaf () (.bool Keyword.yes.spelling))) [.word .yes]
  | no : Writes (.expression (.leaf () (.bool Keyword.no.spelling))) [.word .no]
  | valueId (name : String) : Writes (.expression (.leaf () (.valueId name))) [.valueId name]
  | typeId (name : String) : Writes (.expression (.leaf () (.typeId name))) [.typeId name]
  | symbol {text : String} (notMinus : text ≠ "-") :
      Writes (.expression (.leaf () (.symbolId text))) [.symbol text]
  | unit : Writes (.brackets (.leaf () .unit)) [.opening .round, .closing .round]
  | operation {op : String} {left right : Node Unit} {kinds kinds' : List Kind}
      (first : Writes (.expression left) kinds) (second : Writes (.expression right) kinds') :
      Writes (.brackets (.binary () op left right))
        (.opening .round :: (kinds ++ .symbol op :: (kinds' ++ [.closing .round])))
  | single {element : Node Unit} {kinds : List Kind} (only : Writes (.expression element) kinds) :
      Writes (.brackets (.aggregate () .tuple [element]))
        (.opening .round :: (kinds ++ [.comma, .closing .round]))
  | tuple {first second : Node Unit} {rest : List (Node Unit)} {kinds kinds' : List Kind}
      (head : Writes (.expression first) kinds) (tail : Writes (.others (second :: rest)) kinds') :
      Writes (.brackets (.aggregate () .tuple (first :: second :: rest)))
        (.opening .round :: (kinds ++ (kinds' ++ [.closing .round])))
  | bracketed {node : Node Unit} {kinds : List Kind} (itself : Writes (.brackets node) kinds) :
      Writes (.expression node) kinds
  | list {elements : List (Node Unit)} {kinds : List Kind}
      (inside : Writes (.elements elements) kinds) :
      Writes (.expression (.aggregate () .list elements))
        (.opening .square :: (kinds ++ [.closing .square]))
  | call {name : String} {args : List (Node Unit)} {kinds : List Kind}
      (inside : Writes (.elements args) kinds) :
      Writes (.expression (.call () (.leaf () (.valueId name)) args none))
        (.valueId name :: .opening .round :: (kinds ++ [.closing .round]))
  | callWithBlock {name : String} {args body : List (Node Unit)} {kinds kinds' : List Kind}
      (inside : Writes (.elements args) kinds) (trailing : Writes (.braces body) kinds') :
      Writes (.expression (.call () (.leaf () (.valueId name)) args (some (.block () body))))
        (.valueId name :: .opening .round :: (kinds ++ .closing .round :: kinds'))
  | block {body : List (Node Unit)} {kinds : List Kind} (inside : Writes (.braces body) kinds) :
      Writes (.expression (.block () body)) kinds
  | branch {node : Node Unit} {kinds : List Kind} (whole : Writes (.conditional node) kinds) :
      Writes (.expression node) kinds
  | loop {pred : Node Unit} {body : List (Node Unit)} {kinds kinds' : List Kind}
      (guard : Writes (.guard pred) kinds) (inside : Writes (.braces body) kinds') :
      Writes (.expression (.loop () pred (.block () body))) (.word .loop :: (kinds ++ kinds'))
  | braces {body : List (Node Unit)} {kinds : List Kind}
      (inside : Writes (.statements body) kinds) :
      Writes (.braces body) (.opening .curly :: (kinds ++ [.closing .curly]))
  | guard {pred : Node Unit} {kinds : List Kind} (inside : Writes (.expression pred) kinds) :
      Writes (.guard pred) (.opening .round :: (kinds ++ [.closing .round]))
  | guardInBrackets {pred : Node Unit} {kinds : List Kind}
      (itself : Writes (.brackets pred) kinds) : Writes (.guard pred) kinds
  | oneWay {pred : Node Unit} {yes : List (Node Unit)} {kinds kinds' : List Kind}
      (guard : Writes (.guard pred) kinds) (inside : Writes (.braces yes) kinds') :
      Writes (.conditional (.branch () pred (.block () yes) (.leaf () .unit)))
        (.word .cond :: (kinds ++ kinds'))
  | twoWays {pred no : Node Unit} {yes : List (Node Unit)} {kinds kinds' kinds'' : List Kind}
      (guard : Writes (.guard pred) kinds) (inside : Writes (.braces yes) kinds')
      (other : Writes (.alternative no) kinds'') :
      Writes (.conditional (.branch () pred (.block () yes) no))
        (.word .cond :: (kinds ++ (kinds' ++ .word .otherwise :: kinds'')))
  | otherBlock {body : List (Node Unit)} {kinds : List Kind}
      (inside : Writes (.braces body) kinds) : Writes (.alternative (.block () body)) kinds
  | otherBranch {node : Node Unit} {kinds : List Kind} (whole : Writes (.conditional node) kinds) :
      Writes (.alternative node) kinds
  | noElements : Writes (.elements []) []
  | oneElement {element : Node Unit} {kinds : List Kind}
      (only : Writes (.expression element) kinds) : Writes (.elements [element]) kinds
  | moreElements {first second : Node Unit} {rest : List (Node Unit)} {kinds kinds' : List Kind}
      (head : Writes (.expression first) kinds)
      (tail : Writes (.elements (second :: rest)) kinds') :
      Writes (.elements (first :: second :: rest)) (kinds ++ .comma :: kinds')
  | noOthers : Writes (.others []) []
  | moreOthers {first : Node Unit} {rest : List (Node Unit)} {kinds kinds' : List Kind}
      (head : Writes (.expression first) kinds) (tail : Writes (.others rest) kinds') :
      Writes (.others (first :: rest)) (.comma :: (kinds ++ kinds'))
  | noParameters : Writes (.parameters []) []
  | oneParameter (name : String) (type : Option String) :
      Writes (.parameters [.param () name type]) (.valueId name :: typed type)
  | moreParameters {second : Node Unit} {rest : List (Node Unit)} {kinds : List Kind}
      (name : String) (type : Option String) (tail : Writes (.parameters (second :: rest)) kinds) :
      Writes (.parameters (.param () name type :: second :: rest))
        (.valueId name :: (typed type ++ .comma :: kinds))
  | evaluate {node : Node Unit} {kinds : List Kind} (itself : Writes (.expression node) kinds) :
      Writes (.statement node) kinds
  | announce (mutability : Mutability) (name : String) (type : Option String) :
      Writes (.statement (.declare () mutability name type (.leaf () .unit)))
        (.word (declarator mutability) :: .valueId name :: typed type)
  | declare {value : Node Unit} {kinds : List Kind} (mutability : Mutability) (name : String)
      (type : Option String) (inside : Writes (.expression value) kinds) :
      Writes (.statement (.declare () mutability name type value))
        (.word (declarator mutability) :: .valueId name :: (typed type ++ .assign :: kinds))
  | declareBlock {body : List (Node Unit)} {kinds : List Kind} (mutability : Mutability)
      (name : String) (type : Option String) (inside : Writes (.braces body) kinds) :
      Writes (.statement (.declare () mutability name type (.block () body)))
        (.word (declarator mutability) :: .valueId name :: (typed type ++ kinds))
  | assign {value : Node Unit} {kinds : List Kind} (name : String)
      (inside : Writes (.expression value) kinds) :
      Writes (.statement (.assign () name value)) (.valueId name :: .assign :: kinds)
  | define {params body : List (Node Unit)} {kinds kinds' : List Kind} (name : String)
      (type : Option String) (heading : Writes (.parameters params) kinds)
      (inside : Writes (.braces body) kinds') :
      Writes (.statement (.define () name params (.block () body) type))
        (.word .define :: .valueId name :: .opening .round ::
          (kinds ++ .closing .round :: (typed type ++ kinds')))
  | orElse {body : Node Unit} {kinds : List Kind} (other : Writes (.alternative body) kinds) :
      Writes (.statement (.orElse () body)) (.word .otherwise :: kinds)
  | noStatements : Writes (.statements []) []
  | lastStatement {node : Node Unit} {kinds : List Kind} (only : Writes (.statement node) kinds) :
      Writes (.statements [node]) kinds
  | moreStatements {first : Node Unit} {rest : List (Node Unit)} {kinds kinds' : List Kind}
      (head : Writes (.statement first) kinds) (tail : Writes (.statements rest) kinds') :
      Writes (.statements (first :: rest)) (kinds ++ .term :: kinds')
  | emptyStatement {nodes : List (Node Unit)} {kinds : List Kind}
      (same : Writes (.statements nodes) kinds) : Writes (.statements nodes) (.term :: kinds)

/-- How a module is written, where one without a name takes `anonymous`. -/
inductive WritesModule (anonymous : String) : Node Unit → List Kind → Prop where
  | named {body : List (Node Unit)} {kinds : List Kind} (name : String)
      (inside : Writes (.statements body) kinds) :
      WritesModule anonymous (.program () name body)
        (.word .beginModule :: .valueId name :: .term :: (kinds ++ [.word .endModule]))
  | namedAsType {body : List (Node Unit)} {kinds : List Kind} (name : String)
      (inside : Writes (.statements body) kinds) :
      WritesModule anonymous (.program () name body)
        (.word .beginModule :: .typeId name :: .term :: (kinds ++ [.word .endModule]))
  | nameless {body : List (Node Unit)} {kinds : List Kind}
      (inside : Writes (.statements body) kinds) :
      WritesModule anonymous (.program () anonymous body)
        (.word .beginModule :: .term :: (kinds ++ [.word .endModule]))
  | bodyOnly {body : List (Node Unit)} {kinds : List Kind}
      (inside : Writes (.statements body) kinds) :
      WritesModule anonymous (.program () anonymous body) kinds

section Existence

variable {node : Node Unit} {kinds : List Kind}

theorem exists_elements {nodes : List (Node Unit)}
    (each : ∀ node ∈ nodes, ∃ kinds, Writes (.expression node) kinds) :
    ∃ kinds, Writes (.elements nodes) kinds := by
  induction nodes with
  | nil => exact ⟨[], .noElements⟩
  | cons first rest ih =>
    obtain ⟨kinds, head⟩ := each first (by simp)
    obtain ⟨kinds', tail⟩ := ih fun node member => each node (by simp [member])
    cases rest with
    | nil => exact ⟨kinds, .oneElement head⟩
    | cons second rest => exact ⟨_, .moreElements head tail⟩

theorem exists_others {nodes : List (Node Unit)}
    (each : ∀ node ∈ nodes, ∃ kinds, Writes (.expression node) kinds) :
    ∃ kinds, Writes (.others nodes) kinds := by
  induction nodes with
  | nil => exact ⟨[], .noOthers⟩
  | cons first rest ih =>
    obtain ⟨kinds, head⟩ := each first (by simp)
    obtain ⟨kinds', tail⟩ := ih fun node member => each node (by simp [member])
    exact ⟨_, .moreOthers head tail⟩

theorem exists_parameters {nodes : List (Node Unit)}
    (each : ∀ node ∈ nodes, node.isParam = true) : ∃ kinds, Writes (.parameters nodes) kinds := by
  induction nodes with
  | nil => exact ⟨[], .noParameters⟩
  | cons first rest ih =>
    obtain ⟨kinds, tail⟩ := ih fun node member => each node (by simp [member])
    have isParam := each first (by simp)
    cases first with
    | param tag name type =>
      cases rest with
      | nil => exact ⟨_, .oneParameter name type⟩
      | cons second rest => exact ⟨_, .moreParameters name type tail⟩
    | _ => cases isParam

theorem exists_statements {nodes : List (Node Unit)}
    (each : ∀ node ∈ nodes, ∃ kinds, Writes (.statement node) kinds) :
    ∃ kinds, Writes (.statements nodes) kinds := by
  induction nodes with
  | nil => exact ⟨[], .noStatements⟩
  | cons first rest ih =>
    obtain ⟨kinds, head⟩ := each first (by simp)
    obtain ⟨kinds', tail⟩ := ih fun node member => each node (by simp [member])
    exact ⟨_, .moreStatements head tail⟩

/-- A block that can be written as an expression is written between braces. -/
theorem exists_braces (isBlock : node.isBlock = true)
    (written : ∃ kinds, Writes (.expression node) kinds) :
    ∃ body kinds, node = .block () body ∧ Writes (.braces body) kinds := by
  obtain ⟨kinds, written⟩ := written
  cases node with
  | block tag body =>
    cases written with
    | block inside => exact ⟨body, kinds, rfl, inside⟩
    | branch whole => cases whole
    | bracketed itself => cases itself
  | _ => cases isBlock

theorem exists_alternative (isOther : node.isBlock = true ∨ node.isBranch = true)
    (written : ∃ kinds, Writes (.expression node) kinds) :
    ∃ kinds, Writes (.alternative node) kinds := by
  rcases isOther with isBlock | isBranch
  · obtain ⟨body, kinds, rfl, inside⟩ := exists_braces isBlock written
    exact ⟨kinds, .otherBlock inside⟩
  · obtain ⟨kinds, written⟩ := written
    cases node with
    | branch tag pred yes no =>
      cases written with
      | branch whole => exact ⟨kinds, .otherBranch whole⟩
      | bracketed itself => cases itself
    | _ => cases isBranch

/-- A branch without an else has the unit value in its place. -/
theorem exists_branch {tag : Unit} {pred yes no : Node Unit} (isBlock : yes.isBlock = true)
    (isOther : no.isUnit = true ∨ no.isBlock = true ∨ no.isBranch = true)
    (writtenPred : ∃ kinds, Writes (.expression pred) kinds)
    (writtenYes : ∃ kinds, Writes (.expression yes) kinds)
    (writtenNo : ∃ kinds, Writes (.expression no) kinds) :
    ∃ kinds, Writes (.expression (.branch tag pred yes no)) kinds := by
  obtain ⟨_, writtenPred⟩ := writtenPred
  obtain ⟨body, _, rfl, inside⟩ := exists_braces isBlock writtenYes
  rcases isOther with isUnit | isOther
  · cases no with
    | leaf tag kind =>
      cases kind with
      | unit => exact ⟨_, .branch (.oneWay (.guard writtenPred) inside)⟩
      | _ => cases isUnit
    | _ => cases isUnit
  · obtain ⟨_, other⟩ := exists_alternative isOther writtenNo
    exact ⟨_, .branch (.twoWays (.guard writtenPred) inside other)⟩

theorem exists_call {tag : Unit} {callee : Node Unit} {args : List (Node Unit)}
    {trailing : Option (Node Unit)} (isName : callee.isName = true)
    (writtenArgs : ∃ kinds, Writes (.elements args) kinds)
    (writtenTrailing : ∀ block, trailing = some block →
      block.isBlock = true ∧ ∃ kinds, Writes (.expression block) kinds) :
    ∃ kinds, Writes (.expression (.call tag callee args trailing)) kinds := by
  obtain ⟨_, inside⟩ := writtenArgs
  cases callee with
  | leaf tag kind =>
    cases kind with
    | valueId name =>
      cases trailing with
      | none => exact ⟨_, .call inside⟩
      | some block =>
        obtain ⟨isBlock, written⟩ := writtenTrailing block rfl
        obtain ⟨body, _, rfl, braces⟩ := exists_braces isBlock written
        exact ⟨_, .callWithBlock inside braces⟩
    | _ => cases isName
  | _ => cases isName

/-- A well-formed expression can be written if its children can. -/
theorem exists_expression
    (expressions : ∀ child ∈ node.children, child.WellFormed false →
      ∃ kinds, Writes (.expression child) kinds)
    (statements : ∀ child ∈ node.children, child.WellFormed true →
      ∃ kinds, Writes (.statement child) kinds)
    (wellFormed : node.WellFormed false) : ∃ kinds, Writes (.expression node) kinds := by
  have within : ∀ {nodes : List (Node Unit)}, nodes ⊆ node.children →
      Node.WellFormedAll false nodes → ∀ child ∈ nodes,
        ∃ kinds, Writes (.expression child) kinds :=
    fun inside all child member =>
      expressions child (inside member) (Node.wellFormedAll_iff.mp all child member)
  cases node with
  | leaf tag kind =>
    cases kind with
    | int text => exact ⟨_, .int text⟩
    | real text => exact ⟨_, .real text⟩
    | bool text =>
      rcases wellFormed with rfl | rfl
      · exact ⟨_, .yes⟩
      · exact ⟨_, .no⟩
    | valueId name => exact ⟨_, .valueId name⟩
    | typeId name => exact ⟨_, .typeId name⟩
    | symbolId text => exact ⟨_, .symbol wellFormed⟩
    | unit => exact ⟨_, .bracketed .unit⟩
    | noop => cases wellFormed
  | block tag body =>
    obtain ⟨kinds, inside⟩ := exists_statements fun child member =>
      statements child member (Node.wellFormedAll_iff.mp wellFormed child member)
    exact ⟨_, .block (.braces inside)⟩
  | branch tag pred yes no =>
    obtain ⟨formedPred, ⟨isBlock, formedYes⟩, isOther, formedNo⟩ := wellFormed
    exact exists_branch isBlock isOther (expressions pred (by simp [Node.children]) formedPred)
      (expressions yes (by simp [Node.children]) formedYes)
      (expressions no (by simp [Node.children]) formedNo)
  | loop tag pred body =>
    obtain ⟨formedPred, isBlock, formedBody⟩ := wellFormed
    obtain ⟨kinds, writtenPred⟩ := expressions pred (by simp [Node.children]) formedPred
    obtain ⟨body, kinds', rfl, inside⟩ :=
      exists_braces isBlock (expressions body (by simp [Node.children]) formedBody)
    exact ⟨_, .loop (.guard writtenPred) inside⟩
  | binary tag op left right =>
    obtain ⟨kinds, first⟩ := expressions left (by simp [Node.children]) wellFormed.1
    obtain ⟨kinds', second⟩ := expressions right (by simp [Node.children]) wellFormed.2
    exact ⟨_, .bracketed (.operation first second)⟩
  | call tag callee args trailing =>
    cases trailing with
    | none =>
      obtain ⟨isName, formedArgs⟩ := wellFormed
      exact exists_call isName (exists_elements (within (by simp [Node.children]) formedArgs))
        fun _ impossible => by cases impossible
    | some block =>
      obtain ⟨isName, formedArgs, isBlock, formedBlock⟩ := wellFormed
      refine exists_call isName (exists_elements (within (by simp [Node.children]) formedArgs)) ?_
      rintro _ ⟨⟩
      exact ⟨isBlock, expressions block (by simp [Node.children]) formedBlock⟩
  | aggregate tag kind elements =>
    cases kind with
    | list =>
      obtain ⟨kinds, inside⟩ := exists_elements (within (List.Subset.refl _) wellFormed)
      exact ⟨_, .list inside⟩
    | tuple =>
      obtain ⟨some, formed⟩ := wellFormed
      cases elements with
      | nil => exact absurd rfl some
      | cons first rest =>
        obtain ⟨kinds, head⟩ := expressions first (by simp [Node.children]) formed.1
        obtain ⟨kinds', tail⟩ := exists_others (within (by simp [Node.children]) formed.2)
        cases rest with
        | nil => exact ⟨_, .bracketed (.single head)⟩
        | cons second rest => exact ⟨_, .bracketed (.tuple head tail)⟩
  | param | program => cases wellFormed
  | define | declare | assign | orElse => cases wellFormed.1

/-- A well-formed statement can be written if its children can, and it itself if it is an
expression. -/
theorem exists_statement
    (expressions : ∀ child ∈ node.children, child.WellFormed false →
      ∃ kinds, Writes (.expression child) kinds)
    (itself : node.WellFormed false → ∃ kinds, Writes (.expression node) kinds)
    (wellFormed : node.WellFormed true) : ∃ kinds, Writes (.statement node) kinds := by
  have evaluated : node.WellFormed false → ∃ kinds, Writes (.statement node) kinds := by
    intro formed
    obtain ⟨kinds, written⟩ := itself formed
    exact ⟨kinds, .evaluate written⟩
  cases node with
  | define tag name params body type =>
    obtain ⟨_, areParams, isBlock, formed⟩ := wellFormed
    obtain ⟨kinds, heading⟩ := exists_parameters areParams
    obtain ⟨body, kinds', rfl, inside⟩ :=
      exists_braces isBlock (expressions body (by simp [Node.children]) formed)
    exact ⟨_, .define name type heading inside⟩
  | declare tag mutability name type value =>
    obtain ⟨kinds, inside⟩ := expressions value (by simp [Node.children]) wellFormed.2
    exact ⟨_, .declare mutability name type inside⟩
  | assign tag name value =>
    obtain ⟨kinds, inside⟩ := expressions value (by simp [Node.children]) wellFormed.2
    exact ⟨_, .assign name inside⟩
  | orElse tag body =>
    obtain ⟨_, isOther, formed⟩ := wellFormed
    obtain ⟨kinds, other⟩ :=
      exists_alternative isOther (expressions body (by simp [Node.children]) formed)
    exact ⟨_, .orElse other⟩
  | leaf tag kind => cases kind <;> exact evaluated wellFormed
  | call tag callee args trailing => cases trailing <;> exact evaluated wellFormed
  | aggregate tag kind elements => cases kind <;> exact evaluated wellFormed
  | _ => exact evaluated wellFormed

/-- Every well-formed tree can be written. -/
theorem exists_writes (node : Node Unit) :
    (node.WellFormed false → ∃ kinds, Writes (.expression node) kinds) ∧
      (node.WellFormed true → ∃ kinds, Writes (.statement node) kinds) := by
  induction node using Node.childInduction with
  | step node ih =>
    have expressions := fun child member => (ih child member).1
    have itself := exists_expression expressions fun child member => (ih child member).2
    exact ⟨itself, exists_statement expressions itself⟩

/-- Every well-formed module can be written, under any name. -/
theorem exists_writesModule (anonymous : String) (isModule : node.IsModule) :
    ∃ kinds, WritesModule anonymous node kinds := by
  cases node with
  | program tag name body =>
    obtain ⟨kinds, inside⟩ := exists_statements fun child member =>
      (exists_writes child).2 (Node.wellFormedAll_iff.mp isModule child member)
    exact ⟨_, .named name inside⟩
  | _ => cases isModule

end Existence

end Grammar

end ScriptVM
