import ScriptVM.Session
import ScriptVM.Proofs.Framed
import ScriptVM.Proofs.Identities
import ScriptVM.Proofs.Relabelled
import ScriptVM.Proofs.Visibility
import ScriptVM.Proofs.Wrapped

/-!
A module without a name means the same under every name that its text does not use.

The name is that of the function made of the statements, and of the one call of it. No other use
can refer to that function, so all passes note the same under two such names, or refuse for the same
reason, and lowering gives code that differs in the bases of labels alone.
-/
namespace ScriptVM

section Reading

open Walks (Agree Related)

variable {anonymous₁ anonymous₂ : String}

/-- The same tree, or two that differ in the name of the module. -/
def SameBody (anonymous₁ anonymous₂ : String) (tree₁ tree₂ : Node Tag) : Prop :=
  tree₁ = tree₂ ∨
    ∃ tag body, tree₁ = .program tag anonymous₁ body ∧ tree₂ = .program tag anonymous₂ body

namespace Parser

variable {α β : Type} {agree : α → α → Prop} {agree' : β → β → Prop}

/-- Two productions that deal the same numbers, move the cursor alike and have results that go
together. -/
def Twins (agree : α → α → Prop) (p q : Dealing α) : Prop :=
  ∀ next, Related Eq Eq (fun one two => agree one.1 two.1 ∧ one.2 = two.2) (p next) (q next)

theorem Twins.bind {p q : Dealing α} {f g : α → Dealing β} (first : Twins agree p q)
    (rest : ∀ a b, agree a b → Twins agree' (f a) (g b)) : Twins agree' (p >>= f) (q >>= g) := by
  intro next c₁ c₂ cursors
  refine (first next c₁ c₂ cursors).bind ?_
  rintro ⟨⟨a, next'⟩, c₁'⟩ ⟨⟨b, _⟩, c₂'⟩ ⟨⟨values, rfl⟩, cursors'⟩
  exact rest a b values next' c₁' c₂' cursors'

theorem Twins.pure {a b : α} (values : agree a b) :
    Twins agree (Pure.pure a : Dealing α) (Pure.pure b) :=
  fun _ => .pure ⟨values, rfl⟩

/-- The same production first. -/
theorem Twins.after {p : Dealing α} {f g : α → Dealing β} (rest : ∀ a, Twins agree' (f a) (g a)) :
    Twins agree' (p >>= f) (p >>= g) := by
  intro next
  refine fun c₁ c₂ cursors => (Related.same (p next) c₁ c₂ cursors).bind ?_
  rintro ⟨⟨a, next'⟩, c₁'⟩ ⟨_, c₂'⟩ ⟨rfl, cursors'⟩
  exact rest a next' c₁' c₂' cursors'

theorem twins_fail (what : String) : Twins agree (fail what : Dealing α) (fail what) :=
  .after fun _ _ => .throw _

theorem twins_moduleName :
    Twins (fun name₁ name₂ => name₁ = name₂ ∨ name₁ = anonymous₁ ∧ name₂ = anonymous₂)
      (moduleName anonymous₁) (moduleName anonymous₂) := by
  refine .after fun kind => ?_
  split
  · exact .after fun _ => .pure (.inl rfl)
  · exact .after fun _ => .pure (.inl rfl)
  · exact .pure (.inr ⟨rfl, rfl⟩)

theorem twins_program :
    Twins (SameBody anonymous₁ anonymous₂) (program anonymous₁) (program anonymous₂) := by
  unfold program
  refine .after fun _ => .after fun _ => .after fun _ => .after fun isModule => ?_
  split
  · refine .after fun _ => twins_moduleName.bind fun name₁ name₂ names => ?_
    refine .after fun _ => .after fun _ => ?_
    split
    · refine .after fun body => .after fun _ => .after fun _ => .after fun _ => ?_
      split
      · refine .after fun tag => .pure ?_
        rcases names with rfl | ⟨rfl, rfl⟩
        · exact .inl rfl
        · exact .inr ⟨tag, body, rfl, rfl⟩
      · exact twins_fail _
    · exact twins_fail _
  · exact .after fun body => .after fun tag => .pure (.inr ⟨tag, body, rfl, rfl⟩)

end Parser

/-- The same document, or two that differ in the name of the module. -/
def Document.SameBody (anonymous₁ anonymous₂ : String) (document₁ document₂ : Document) : Prop :=
  document₁ = document₂ ∨
    ∃ tag body next, document₁ = ⟨.program tag anonymous₁ body, next, {}, {}⟩ ∧
      document₂ = ⟨.program tag anonymous₂ body, next, {}, {}⟩

/-- Reading gives the same statements, whatever name a module without one takes. -/
theorem Document.agree_parse (source : String) :
    Agree (Document.SameBody anonymous₁ anonymous₂) (Document.parse anonymous₁ source)
      (Document.parse anonymous₂ source) := by
  have read : Agree (fun one two => ScriptVM.SameBody anonymous₁ anonymous₂ one.1 two.1 ∧ one.2 = two.2)
      (Parser.ofTokens anonymous₁ (Token.tokenize source))
      (Parser.ofTokens anonymous₂ (Token.tokenize source)) :=
    (@Parser.twins_program anonymous₁ anonymous₂ 1 (Parser.start (Token.tokenize source)) _
      rfl).map fun _ _ results => results.1
  unfold Document.parse Node.parseNumbered
  generalize Parser.ofTokens anonymous₁ (Token.tokenize source) = first,
    Parser.ofTokens anonymous₂ (Token.tokenize source) = second at read ⊢
  cases read with
  | error e => exact .error _
  | @ok one two both =>
    obtain ⟨root₁, next⟩ := one
    obtain ⟨root₂, _⟩ := two
    obtain ⟨same | ⟨tag, body, rfl, rfl⟩, rfl⟩ := both
    · cases same
      exact .ok (.inl rfl)
    · exact .ok (.inr ⟨tag, body, next, rfl, rfl⟩)

end Reading

namespace Names

open Walks (Related)
open Node (Shaped ShapedAll)

section Twins

variable {name₁ name₂ : String} {home : Option Nat} {current : Option Nat}

/-- A name other than two. -/
def Other (name₁ name₂ name : String) : Prop :=
  name ≠ name₁ ∧ name ≠ name₂

/-- Two states that differ in the name of one declaration of the outermost scope. -/
structure Twins (name₁ name₂ : String) (home : Option Nat) (st₁ st₂ : State) : Prop where
  annotations : st₁.annotations = st₂.annotations
  pending : st₁.pending = st₂.pending
  uses : ∀ use ∈ st₁.pending, Other name₁ name₂ use.name
  size : st₁.scopes.size = st₂.scopes.size
  opened : 0 < st₁.scopes.size
  parent : ∀ scope, st₁.scopes.parent? scope = st₂.scopes.parent? scope
  member : ∀ scope name, Other name₁ name₂ name →
    st₁.scopes.member? scope name = st₂.scopes.member? scope name
  first : st₁.scopes.member? 0 name₁ = home
  second : st₂.scopes.member? 0 name₂ = home

variable {st₁ st₂ : State}

theorem Twins.resolve (twins : Twins name₁ name₂ home st₁ st₂) {name : String}
    (other : Other name₁ name₂ name) (scope : Nat) :
    st₁.scopes.resolve scope name = st₂.scopes.resolve scope name := by
  induction scope using Nat.strongRecOn with
  | _ scope ih =>
    rw [Scopes.resolve, Scopes.resolve, twins.member scope name other, twins.parent scope]
    split
    · rfl
    · split
      · split
        next inside => exact ih _ inside
        next => rfl
      · rfl

theorem related_note (id : Nat) (value : Note) :
    Related (Twins name₁ name₂ home) (Twins name₁ name₂ home) Eq (note id value) (note id value) := by
  intro st₁ st₂ twins
  unfold note
  rw [Walks.get_bind, Walks.get_bind, twins.annotations]
  cases st₂.annotations.write id value with
  | error e => exact .error e
  | ok annotations => exact .ok ⟨rfl, { twins with annotations := rfl }⟩

theorem related_openScope (tag : Tag) :
    Related (Twins name₁ name₂ home) (Twins name₁ name₂ home) Eq (openScope current tag)
      (openScope current tag) := by
  intro st₁ st₂ twins
  unfold openScope
  rw [Walks.get_bind, Walks.get_bind]
  simp only [Scopes.create, twins.size, Walks.set_bind]
  refine ((related_note tag.id (.scope st₂.scopes.size)).then_same fun _ => .pure rfl) _ _ ?_
  refine { twins with size := ?_, opened := ?_, parent := ?_, member := ?_, first := ?_, second := ?_ }
  · simpa [Scopes.size] using twins.size
  · simp [Scopes.size]
  · intro scope
    rw [Scopes.parent?_push, Scopes.parent?_push, twins.size, twins.parent]
  · intro scope name other
    rw [Scopes.member?_push, Scopes.member?_push, twins.member scope name other]
  · rw [Scopes.member?_push, twins.first]
  · rw [Scopes.member?_push, twins.second]

theorem related_enter (node : Node Tag) :
    Related (Twins name₁ name₂ home) (Twins name₁ name₂ home) Eq (enter current node)
      (enter current node) := by
  unfold enter
  split
  · exact (related_note _ _).then_same fun _ => .pure rfl
  · exact .throw _

theorem related_declare {name : String} (other : Other name₁ name₂ name) (scope : Nat) (tag : Tag) :
    Related (Twins name₁ name₂ home) (Twins name₁ name₂ home) Eq (declare scope name tag)
      (declare scope name tag) := by
  intro st₁ st₂ twins
  unfold declare
  rw [Walks.get_bind, Walks.get_bind]
  simp only [Scopes.declare, twins.member scope name other]
  cases st₂.scopes.member? scope name with
  | some declaration => exact .error _
  | none =>
    refine .ok ⟨trivial, { twins with
      size := ?_, opened := ?_, parent := ?_, member := ?_, first := ?_, second := ?_ }⟩
    · simpa [Scopes.size] using twins.size
    · simpa [Scopes.size] using twins.opened
    · intro scope'
      rw [Scopes.parent?_modify, Scopes.parent?_modify, twins.parent]
    · intro scope' name' other'
      rw [Scopes.member?_modify, Scopes.member?_modify, twins.size, twins.member scope' name' other']
    · rw [Scopes.member?_modify, if_neg (fun same => other.1 same.2.1.symm), twins.first]
    · rw [Scopes.member?_modify, if_neg (fun same => other.2 same.2.1.symm), twins.second]

theorem related_refer {name : String} (other : Other name₁ name₂ name) (scope : Nat) (tag : Tag) :
    Related (Twins name₁ name₂ home) (Twins name₁ name₂ home) Eq (refer scope name tag)
      (refer scope name tag) := by
  intro st₁ st₂ twins
  unfold refer
  rw [Walks.get_bind, Walks.get_bind, twins.resolve other scope]
  cases st₂.scopes.resolve scope name with
  | some entry => exact related_note _ _ _ _ twins
  | none =>
    refine .ok ⟨rfl, { twins with pending := ?_, uses := ?_ }⟩
    · rw [twins.pending]
    · intro use member
      rcases List.mem_cons.mp member with rfl | inRest
      · exact other
      · exact twins.uses use inRest

theorem related_params (scope : Nat) {params : List (Node Tag)}
    (areParams : ∀ param ∈ params, Node.IsParameter ⟨Other name₁ name₂, True⟩ param) :
    Related (Twins name₁ name₂ home) (Twins name₁ name₂ home) Eq (visitAll (some scope) params)
      (visitAll (some scope) params) := by
  induction params with
  | nil => exact .pure rfl
  | cons param rest ih =>
    obtain ⟨tag, name, type, rfl, other⟩ := areParams param (by simp)
    rw [visitAll, visit]
    refine Related.then_same ((related_enter _).then_same fun _ => related_declare other _ tag) ?_
    exact fun _ => ih fun param member => areParams param (by simp [member])

mutual

/-- A tree without the two names is walked alike. -/
theorem related_visit : ∀ {statement : Bool} (current : Option Nat) (node : Node Tag),
    Shaped ⟨Other name₁ name₂, True⟩ statement node →
    Related (Twins name₁ name₂ home) (Twins name₁ name₂ home) Eq (visit current node)
      (visit current node)
  | _, _, .leaf tag kind => by
    intro shaped
    cases kind with
    | valueId name =>
      exact (related_enter _).then_same fun scope => related_refer shaped scope tag
    | _ => exact (related_enter _).then_same fun _ => .pure rfl
  | _, _, .param tag name type | _, _, .program tag name body => fun shaped => shaped.elim
  | _, _, .block tag body => by
    intro shaped
    rw [visit]
    exact (related_openScope tag).then_same fun scope => related_visitAll (some scope) body shaped
  | _, current, .define tag name params body type => by
    rintro ⟨_, other, areParams, shaped⟩
    have inside : ∀ scope, Related (Twins name₁ name₂ home) (Twins name₁ name₂ home) Eq
        (visitAll (some scope) params >>= fun _ => visit (some scope) body)
        (visitAll (some scope) params >>= fun _ => visit (some scope) body) := fun scope =>
      (related_params scope areParams).then_same fun _ => related_visit (some scope) body shaped
    cases current with
    | none => exact (related_openScope tag).then_same inside
    | some outer =>
      refine (related_declare other outer tag).then_same fun _ => ?_
      exact (related_openScope tag).then_same inside
  | _, current, .declare tag mutability name type value => by
    rintro ⟨_, other, shaped⟩
    rw [visit]
    refine (related_enter _).then_same fun scope => ?_
    exact (related_visit current value shaped).then_same fun _ => related_declare other scope tag
  | _, current, .assign tag name value => by
    rintro ⟨other, shaped⟩
    rw [visit]
    refine (related_enter _).then_same fun scope => ?_
    exact (related_refer other scope tag).then_same fun _ => related_visit current value shaped
  | _, current, .branch tag pred yes no => by
    rintro ⟨shapedPred, shapedYes, shapedNo⟩
    rw [visit]
    refine (related_enter _).then_same fun _ => (related_visit current pred shapedPred).then_same ?_
    intro _
    exact (related_visit current yes shapedYes).then_same fun _ => related_visit current no shapedNo
  | _, current, .orElse tag body => by
    intro shaped
    rw [visit]
    exact (related_enter _).then_same fun _ => related_visit current body shaped
  | _, current, .loop tag left right | _, current, .binary tag _ left right => by
    rintro ⟨shapedLeft, shapedRight⟩
    rw [visit]
    refine (related_enter _).then_same fun _ => (related_visit current left shapedLeft).then_same ?_
    exact fun _ => related_visit current right shapedRight
  | _, current, .call tag callee args none => by
    rintro ⟨shapedCallee, shapedArgs⟩
    rw [visit]
    refine (related_enter _).then_same fun _ =>
      (related_visit current callee shapedCallee).then_same ?_
    exact fun _ => related_visitAll current args shapedArgs
  | _, current, .call tag callee args (some trailing) => by
    rintro ⟨shapedCallee, shapedArgs, shapedTrailing⟩
    rw [visit]
    refine (related_enter _).then_same fun _ =>
      (related_visit current callee shapedCallee).then_same ?_
    intro _
    exact (related_visitAll current args shapedArgs).then_same fun _ =>
      related_visit current trailing shapedTrailing
  | _, current, .aggregate tag kind elements => by
    intro shaped
    rw [visit]
    exact (related_enter _).then_same fun _ => related_visitAll current elements shaped.2

theorem related_visitAll : ∀ {statement : Bool} (current : Option Nat) (nodes : List (Node Tag)),
    ShapedAll ⟨Other name₁ name₂, True⟩ statement nodes →
    Related (Twins name₁ name₂ home) (Twins name₁ name₂ home) Eq (visitAll current nodes)
      (visitAll current nodes)
  | _, _, [] => fun _ => .pure rfl
  | _, current, node :: rest => by
    rintro ⟨shaped, shapedRest⟩
    rw [visitAll]
    exact (related_visit current node shaped).then_same fun _ =>
      related_visitAll current rest shapedRest

end

/-- The two names themselves are declared alike. -/
theorem related_declare_twins (tag : Tag) :
    Related (Twins name₁ name₂ none) (Twins name₁ name₂ (some tag.id)) Eq (declare 0 name₁ tag)
      (declare 0 name₂ tag) := by
  intro st₁ st₂ twins
  unfold declare
  rw [Walks.get_bind, Walks.get_bind]
  have opened := twins.opened
  have openedToo := opened
  rw [twins.size] at openedToo
  simp only [Scopes.declare, twins.first, twins.second]
  refine .ok ⟨trivial, { twins with
    size := ?_, opened := ?_, parent := ?_, member := ?_, first := ?_, second := ?_ }⟩
  · simpa [Scopes.size] using twins.size
  · simpa [Scopes.size] using twins.opened
  · intro scope
    rw [Scopes.parent?_modify, Scopes.parent?_modify, twins.parent]
  · intro scope name other
    rw [Scopes.member?_modify, Scopes.member?_modify, if_neg (fun same => other.1 same.2.1),
      if_neg (fun same => other.2 same.2.1), twins.member scope name other]
  · rw [Scopes.member?_modify, if_pos ⟨rfl, rfl, opened⟩]
  · rw [Scopes.member?_modify, if_pos ⟨rfl, rfl, openedToo⟩]

/-- Two states that differ in the name of one declaration, to which a use is bound. -/
structure Bound (name₁ name₂ : String) (declaration use : Nat) (st₁ st₂ : State) : Prop extends
    Twins name₁ name₂ (some declaration) st₁ st₂ where
  bound : (st₁.annotations.get use).get? .binding = some (.binding declaration)

variable {declaration use : Nat}

theorem bound_note (id : Nat) (value : Note) :
    Related (Bound name₁ name₂ declaration use) (Bound name₁ name₂ declaration use) Eq
      (note id value) (note id value) := by
  intro st₁ st₂ bound
  unfold note
  rw [Walks.get_bind, Walks.get_bind, bound.annotations]
  cases written : st₂.annotations.write id value with
  | error e => exact .error e
  | ok annotations =>
    refine .ok ⟨rfl, { bound with annotations := rfl, bound := ?_ }⟩
    have kept := Annotations.extends_of_set (Annotations.write_ok.mp written)
    rw [← bound.annotations] at kept
    exact kept _ _ _ bound.bound

/-- Uses of the two names in the outermost scope refer to what is declared under them. -/
theorem related_refer_twins (tag : Tag) :
    Related (Twins name₁ name₂ (some declaration)) (Bound name₁ name₂ declaration tag.id) Eq
      (refer 0 name₁ tag) (refer 0 name₂ tag) := by
  intro st₁ st₂ twins
  have found₁ : st₁.scopes.resolve 0 name₁ = some (0, declaration) := by
    rw [Scopes.resolve, twins.first]
  have found₂ : st₂.scopes.resolve 0 name₂ = some (0, declaration) := by
    rw [Scopes.resolve, twins.second]
  unfold refer note
  rw [Walks.get_bind, Walks.get_bind, found₁, found₂]
  dsimp only
  rw [Walks.get_bind, Walks.get_bind, twins.annotations]
  cases written : st₂.annotations.write tag.id (.binding declaration) with
  | error e => exact .error e
  | ok annotations =>
    refine .ok ⟨rfl, { twins with annotations := rfl, bound := ?_ }⟩
    exact Annotations.some_of_set (Annotations.write_ok.mp written)

theorem bound_settle (functions : List Nat) (pending : Pending)
    (other : Other name₁ name₂ pending.name) :
    Related (Bound name₁ name₂ declaration use) (Bound name₁ name₂ declaration use) Eq
      (settle functions pending) (settle functions pending) := by
  intro st₁ st₂ bound
  have found : st₁.scopes.lookup pending.scope pending.name pending.use.span =
      st₂.scopes.lookup pending.scope pending.name pending.use.span := by
    rw [Scopes.lookup, Scopes.lookup, bound.resolve other pending.scope]
  unfold settle
  rw [Walks.get_bind, Walks.get_bind, found]
  cases st₂.scopes.lookup pending.scope pending.name pending.use.span with
  | error e => exact .error _
  | ok declaration =>
    dsimp only
    split
    · exact bound_note _ _ _ _ bound
    · exact .error _

theorem bound_settleAll (functions : List Nat) {pending : List Pending}
    (others : ∀ use ∈ pending, Other name₁ name₂ use.name) :
    Related (Bound name₁ name₂ declaration use) (Bound name₁ name₂ declaration use) Eq
      (pending.forM (settle functions)) (pending.forM (settle functions)) := by
  induction pending with
  | nil => exact .pure rfl
  | cons first rest ih =>
    refine (bound_settle functions first (others first (by simp))).then_same fun _ => ?_
    exact ih fun use member => others use (by simp [member])

/-- Both states know nothing yet. -/
def Fresh (st₁ st₂ : State) : Prop :=
  st₁ = ⟨{}, {}, []⟩ ∧ st₂ = ⟨{}, {}, []⟩

theorem related_open_first (name₁ name₂ : String) (tag : Tag) :
    Related Fresh (Twins name₁ name₂ none) (fun scope₁ scope₂ => scope₁ = 0 ∧ scope₂ = 0)
      (openScope none tag) (openScope none tag) := by
  rintro _ _ ⟨rfl, rfl⟩
  let first : State := ⟨⟨#[⟨none, []⟩]⟩, {}, []⟩
  have opened : openScope none tag ⟨{}, {}, []⟩ =
      (note tag.id (.scope 0) >>= fun _ => pure 0 : Walk Nat) first := rfl
  have noted : Related (Twins name₁ name₂ none) (Twins name₁ name₂ none)
      (fun scope₁ scope₂ => scope₁ = 0 ∧ scope₂ = 0)
      (note tag.id (.scope 0) >>= fun _ => pure 0 : Walk Nat)
      (note tag.id (.scope 0) >>= fun _ => pure 0 : Walk Nat) :=
    (related_note tag.id (.scope 0)).then_same fun _ => .pure ⟨rfl, rfl⟩
  rw [opened]
  refine noted first first ⟨rfl, rfl, ?_, rfl, Nat.zero_lt_one, fun _ => rfl, fun _ _ _ => rfl, rfl,
    rfl⟩
  intro use member
  cases member

variable {body : List (Node Tag)}

theorem related_visit_function (function block : Tag)
    (shaped : ShapedAll ⟨Other name₁ name₂, True⟩ true body) :
    Related (Twins name₁ name₂ none) (Twins name₁ name₂ (some function.id)) Eq
      (visit (some 0) (.define function name₁ [] (.block block body) none))
      (visit (some 0) (.define function name₂ [] (.block block body) none)) := by
  refine (related_declare_twins function).then_same fun _ => ?_
  refine (related_openScope function).then_same fun scope => ?_
  have shapedBlock : Shaped ⟨Other name₁ name₂, True⟩ false (.block block body) := shaped
  have noParams : ∀ param ∈ ([] : List (Node Tag)), Node.IsParameter ⟨Other name₁ name₂, True⟩ param := by simp
  exact (related_params scope noParams).then_same fun _ =>
    related_visit (some scope) (.block block body) shapedBlock

theorem related_enter_first (node₁ node₂ : Node Tag) (same : node₁.id = node₂.id) :
    Related (Twins name₁ name₂ home) (Twins name₁ name₂ home)
      (fun scope₁ scope₂ => scope₁ = 0 ∧ scope₂ = 0) (enter (some 0) node₁)
      (enter (some 0) node₂) := by
  unfold enter
  rw [same]
  exact (related_note node₂.id (.scope 0)).then_same fun _ => .pure ⟨rfl, rfl⟩

theorem related_visit_call (call callee : Tag) :
    Related (Twins name₁ name₂ (some declaration)) (Bound name₁ name₂ declaration callee.id) Eq
      (visit (some 0) (.call call (.leaf callee (.valueId name₁)) [] none))
      (visit (some 0) (.call call (.leaf callee (.valueId name₂)) [] none)) := by
  rw [visit, visit]
  refine (related_enter_first (.call call _ [] none) _ rfl).bind fun _ _ _ => ?_
  have referred : Related (Twins name₁ name₂ (some declaration))
      (Bound name₁ name₂ declaration callee.id) Eq
      (visit (some 0) (.leaf callee (.valueId name₁)))
      (visit (some 0) (.leaf callee (.valueId name₂))) := by
    refine (related_enter_first (.leaf callee _) _ rfl).bind ?_
    rintro _ _ ⟨rfl, rfl⟩
    exact related_refer_twins callee
  exact referred.then_same fun _ => .pure rfl

/-- Names are resolved alike in a wrapped program, whatever the name of its function is. -/
theorem agree_resolveAll (wrapping : Wrapping)
    (shaped : ShapedAll ⟨Other name₁ name₂, True⟩ true wrapping.body) :
    Walks.Agree
      (fun one two => one.1 = two.1 ∧
        Bound name₁ name₂ wrapping.function.id wrapping.callee.id one.2 two.2)
      (resolveAll (wrapping.tree name₁) ⟨{}, {}, []⟩)
      (resolveAll (wrapping.tree name₂) ⟨{}, {}, []⟩) := by
  have visited : Related Fresh (Bound name₁ name₂ wrapping.function.id wrapping.callee.id) Eq
      (visit none (wrapping.tree name₁)) (visit none (wrapping.tree name₂)) := by
    refine (related_open_first name₁ name₂ wrapping.root).bind ?_
    rintro _ _ ⟨rfl, rfl⟩
    refine (related_visit_function wrapping.function wrapping.block shaped).then_same fun _ => ?_
    exact (related_visit_call wrapping.call wrapping.callee).then_same fun _ => .pure rfl
  have sameFunctions : functions (wrapping.tree name₁) = functions (wrapping.tree name₂) := by
    simp [functions, Wrapping.tree, Node.wrapped, Node.preorder, Node.preorderAll]
  refine (visited ⟨{}, {}, []⟩ ⟨{}, {}, []⟩ ⟨rfl, rfl⟩).bind ?_
  rintro ⟨_, st₁⟩ ⟨_, st₂⟩ ⟨rfl, bound⟩
  dsimp only
  rw [sameFunctions, Walks.get_bind, Walks.get_bind, bound.pending]
  refine bound_settleAll _ ?_ st₁ st₂ bound
  intro use member
  rw [← bound.pending] at member
  exact bound.uses use (List.mem_reverse.mp member)

end Twins

end Names

namespace Document

open Walks (Agree Related)

variable {wrapping : Wrapping} {name₁ name₂ : String} {document₁ document₂ : Document}

/-- Two documents of one wrapped program under two names, with the same notes. -/
structure Twins (wrapping : Wrapping) (name₁ name₂ : String) (document₁ document₂ : Document) :
    Prop where
  root₁ : document₁.root = wrapping.tree name₁
  root₂ : document₂.root = wrapping.tree name₂
  annotations : document₁.annotations = document₂.annotations
  bound : (document₁.annotations.get wrapping.callee.id).get? .binding =
    some (.binding wrapping.function.id)

theorem agree_resolveNames (shaped : Node.ShapedAll ⟨Names.Other name₁ name₂, True⟩ true wrapping.body)
    (next : Nat) :
    Agree (Twins wrapping name₁ name₂) (resolveNames ⟨wrapping.tree name₁, next, {}, {}⟩)
      (resolveNames ⟨wrapping.tree name₂, next, {}, {}⟩) := by
  refine (Names.agree_resolveAll wrapping shaped).bind ?_
  rintro ⟨_, st₁⟩ ⟨_, st₂⟩ ⟨_, bound⟩
  exact .ok ⟨rfl, rfl, bound.annotations, bound.bound⟩

end Document

namespace Frames

open Walks (Related)

/-- The same notes and the same frame being filled. -/
def SameNotes (st₁ st₂ : State) : Prop :=
  st₁.annotations = st₂.annotations ∧ st₁.current = st₂.current

theorem related_finish {node₁ node₂ : Node Tag} (same : node₁.id = node₂.id) (name₁ name₂ : String)
    (outer : Option Locals) :
    Related SameNotes SameNotes Eq (finish node₁ name₁ outer) (finish node₂ name₂ outer) := by
  rintro ⟨annotations, current, finished₁⟩ ⟨_, _, finished₂⟩ ⟨rfl, rfl⟩
  unfold finish note
  simp only [Walks.get_bind, Walks.set_bind, same]
  cases annotations.write node₂.id (.locals (current.getD {})) with
  | error e => exact .error e
  | ok written => exact .ok ⟨trivial, rfl, rfl⟩

/-- Frames are filled alike, whatever the name of the function is. -/
theorem related_visit_wrapped (wrapping : Wrapping) (name₁ name₂ : String) :
    Related Eq SameNotes Eq (visit (wrapping.tree name₁)) (visit (wrapping.tree name₂)) := by
  have same : ∀ st₁ st₂ : State, st₁ = st₂ → SameNotes st₁ st₂ := by
    rintro st _ rfl
    exact ⟨rfl, rfl⟩
  have function : Related Eq SameNotes Eq
      (visit (.define wrapping.function name₁ [] (.block wrapping.block wrapping.body) none))
      (visit (.define wrapping.function name₂ [] (.block wrapping.block wrapping.body) none)) := by
    rw [visit, visit]
    refine (Related.same start).then_same fun outer => (Related.same _).then_same fun _ => ?_
    refine (Related.same _).then_same fun _ => ?_
    exact (related_finish rfl name₁ name₂ outer).strengthen same
  have call : Related SameNotes SameNotes Eq
      (visitAll [.call wrapping.call (.leaf wrapping.callee (.valueId name₁)) [] none])
      (visitAll [.call wrapping.call (.leaf wrapping.callee (.valueId name₂)) [] none]) := by
    exact .pure rfl
  unfold Wrapping.tree Node.wrapped
  rw [visit, visit]
  refine (Related.same start).then_same fun outer => ?_
  refine Related.then_same (function.then_same fun _ => call) fun _ => ?_
  exact related_finish rfl name₁ name₂ outer

end Frames

open Lowering (Renamed) in
/-- The trees of one wrapped program under two names. -/
theorem Wrapping.renamed_preorder (wrapping : Wrapping) (name₁ name₂ : String) :
    List.Forall₂ Renamed (wrapping.tree name₁).preorder (wrapping.tree name₂).preorder := by
  have block : List.Forall₂ Renamed (Node.block wrapping.block wrapping.body).preorder
      (Node.block wrapping.block wrapping.body).preorder :=
    List.forall₂_same.mpr fun node _ => .same node
  have call : List.Forall₂ Renamed
      (Node.call wrapping.call (.leaf wrapping.callee (.valueId name₁)) [] none).preorder
      (Node.call wrapping.call (.leaf wrapping.callee (.valueId name₂)) [] none).preorder :=
    .cons (.call _ _ _ _ _) (.cons (.use _ _ _) .nil)
  have function : List.Forall₂ Renamed
      (Node.define wrapping.function name₁ [] (.block wrapping.block wrapping.body) none).preorder
      (Node.define wrapping.function name₂ [] (.block wrapping.block wrapping.body) none).preorder :=
    .cons (.define _ _ _ _ _ _) block
  exact .cons (.program _ _ _ _ _) (List.rel_append function (List.rel_append call .nil))

open Lowering (Renamed) in
/-- Collecting constants looks at no names. -/
theorem Constants.foldlM_renamed {nodes₁ nodes₂ : List (Node Tag)}
    (renamed : List.Forall₂ Renamed nodes₁ nodes₂) (state : State) :
    nodes₁.foldlM step state = nodes₂.foldlM step state := by
  induction renamed generalizing state with
  | nil => rfl
  | cons here _ ih =>
    rw [List.foldlM_cons, List.foldlM_cons]
    cases here with
    | same => exact bind_congr ih
    | define | program | call | use => exact bind_congr ih

namespace Document

open Walks (Agree)

variable {wrapping : Wrapping} {name₁ name₂ : String} {document₁ document₂ : Document}

/-- Notes that are only added to keep the documents twins. -/
theorem Twins.extend (twins : Twins wrapping name₁ name₂ document₁ document₂)
    {document₁' document₂' : Document} (root₁ : document₁'.root = document₁.root)
    (root₂ : document₂'.root = document₂.root)
    (same : document₁'.annotations = document₂'.annotations)
    (extended : document₁.annotations.Extends document₁'.annotations) :
    Twins wrapping name₁ name₂ document₁' document₂' :=
  ⟨root₁.trans twins.root₁, root₂.trans twins.root₂, same, extended _ _ _ twins.bound⟩

theorem agree_assignSlots (twins : Twins wrapping name₁ name₂ document₁ document₂)
    (shaped : Node.ShapedAll .all true wrapping.body) :
    Agree (Twins wrapping name₁ name₂) document₁.assignSlots document₂.assignSlots := by
  have framed : Agree (fun one two : Document => one.annotations = two.annotations)
      document₁.assignSlots document₂.assignSlots := by
    have walked := Frames.related_visit_wrapped wrapping name₁ name₂
      ⟨document₁.annotations, none, []⟩ ⟨document₂.annotations, none, []⟩ (by rw [twins.annotations])
    unfold assignSlots assignFrames StateT.run
    rw [twins.root₁, twins.root₂]
    generalize Frames.visit (wrapping.tree name₁) ⟨document₁.annotations, none, []⟩ = first,
      Frames.visit (wrapping.tree name₂) ⟨document₂.annotations, none, []⟩ = second at walked
    cases walked with
    | error e => exact .error e
    | ok ended => exact .ok ended.2.1
  refine framed.results.weaken ?_
  rintro framed₁ framed₂ ⟨same, success₁, success₂⟩
  have shapedTree : ∀ name, Node.ShapedAll .all true
      [.define wrapping.function name [] (.block wrapping.block wrapping.body) none,
        .call wrapping.call (.leaf wrapping.callee (.valueId name)) [] none] := fun name =>
    ⟨⟨rfl, trivial, nofun, shaped⟩, ⟨trivial, trivial⟩, trivial⟩
  obtain ⟨root₁, extended, _⟩ := framed_of_assignSlots twins.root₁ (shapedTree name₁) success₁
  obtain ⟨root₂, _⟩ := framed_of_assignSlots twins.root₂ (shapedTree name₂) success₂
  exact twins.extend root₁ root₂ same extended

theorem agree_checkTypes (twins : Twins wrapping name₁ name₂ document₁ document₂) :
    Agree (Twins wrapping name₁ name₂) document₁.checkTypes document₂.checkTypes := by
  have sameWalk : Typing.visit (wrapping.tree name₁) = Typing.visit (wrapping.tree name₂) := by
    rfl
  have typed : Agree (fun one two : Document => one.annotations = two.annotations)
      document₁.checkTypes document₂.checkTypes := by
    unfold checkTypes inferTypes
    rw [twins.root₁, twins.root₂, twins.annotations, sameWalk]
    cases (Typing.visit (wrapping.tree name₂)).run ⟨document₂.annotations, []⟩ with
    | error e => exact .error e
    | ok ended => exact .ok rfl
  refine typed.results.weaken ?_
  rintro typed₁ typed₂ ⟨same, success₁, success₂⟩
  obtain ⟨root₁, extended⟩ := extends_of_checkTypes success₁
  obtain ⟨root₂, _⟩ := extends_of_checkTypes success₂
  exact twins.extend root₁ root₂ same extended

theorem agree_collectConstants (twins : Twins wrapping name₁ name₂ document₁ document₂) :
    Agree (fun one two => Twins wrapping name₁ name₂ one.1 two.1 ∧ one.2 = two.2)
      document₁.collectConstants document₂.collectConstants := by
  have sameFold : ∀ state, (wrapping.tree name₁).preorder.foldlM Constants.step state =
      (wrapping.tree name₂).preorder.foldlM Constants.step state := by
    exact fun state => Constants.foldlM_renamed (wrapping.renamed_preorder name₁ name₂) state
  have collected : Agree (fun one two : Document × Pool =>
      one.1.annotations = two.1.annotations ∧ one.2 = two.2)
      document₁.collectConstants document₂.collectConstants := by
    unfold collectConstants
    rw [twins.root₁, twins.root₂, twins.annotations, sameFold]
    cases (wrapping.tree name₂).preorder.foldlM Constants.step ⟨{}, document₂.annotations⟩ with
    | error e => exact .error e
    | ok ended => exact .ok ⟨rfl, rfl⟩
  refine collected.results.weaken ?_
  rintro ⟨collected₁, pool₁⟩ ⟨collected₂, pool₂⟩ ⟨⟨same, samePool⟩, success₁, success₂⟩
  obtain ⟨root₁, extended, _⟩ := literals_of_collectConstants success₁
  obtain ⟨root₂, _⟩ := literals_of_collectConstants success₂
  exact ⟨twins.extend root₁ root₂ same extended, samePool⟩

end Document

namespace Lowering

open Assembly (AlikeAll)

variable {wrapping : Wrapping} {name₁ name₂ : String} {env₁ env₂ : Env}

/-- The function of a wrapped program is found by its identity. -/
theorem find?_function (apart : wrapping.root.id ≠ wrapping.function.id) (name : String) {env : Env}
    (nodes : env.nodes = (wrapping.tree name).preorder) :
    env.find? wrapping.function.id =
      some (.define wrapping.function name [] (.block wrapping.block wrapping.body) none) := by
  have notRoot : ((wrapping.tree name).id == wrapping.function.id) = false := beq_false_of_ne apart
  rw [Env.find?, nodes, Node.preorder_eq, List.find?_cons, notRoot]
  simp [Wrapping.tree, Node.wrapped, Node.children, Node.preorderAll, Node.preorder, Node.id,
    Node.tag]

/-- The call of the function of a wrapped program is lowered alike. -/
theorem matches_calleeOf_wrapped (twins : env₁.Twins env₂)
    (nodes₁ : env₁.nodes = (wrapping.tree name₁).preorder)
    (nodes₂ : env₂.nodes = (wrapping.tree name₂).preorder)
    (apart : wrapping.root.id ≠ wrapping.function.id)
    (bound : (env₁.annotations.get wrapping.callee.id).binding = some wrapping.function.id)
    (span : Span) :
    Matches TwinLabels (calleeOf env₁ (.leaf wrapping.callee (.valueId name₁)) 0 false span)
      (calleeOf env₂ (.leaf wrapping.callee (.valueId name₂)) 0 false span) := by
  have bound₂ : (env₂.annotations.get wrapping.callee.id).binding = some wrapping.function.id := by
    rw [← (twins.notes wrapping.callee.id).binding, bound]
  have found : ∀ {env : Env} {name : String}, env.nodes = (wrapping.tree name).preorder →
      (env.annotations.get wrapping.callee.id).binding = some wrapping.function.id →
      declarationOf env (.leaf wrapping.callee (.valueId name)) =
        result (.define wrapping.function name [] (.block wrapping.block wrapping.body) none) := by
    intro env name nodes bound
    unfold declarationOf Env.notes
    simp only [Node.id, Node.tag, bound, Option.bind_some, find?_function apart name nodes, require]
  unfold calleeOf
  simp only [found nodes₁ bound, found nodes₂ bound₂, Bool.false_eq_true, if_false]
  have declared : Matches
      (fun one two => one = .define wrapping.function name₁ [] (.block wrapping.block wrapping.body) none ∧
        two = .define wrapping.function name₂ [] (.block wrapping.block wrapping.body) none)
      (result (Node.define wrapping.function name₁ [] (.block wrapping.block wrapping.body) none))
      (result (Node.define wrapping.function name₂ [] (.block wrapping.block wrapping.body) none)) :=
    .pure ⟨rfl, rfl⟩
  refine declared.bind ?_
  rintro _ _ ⟨rfl, rfl⟩
  exact matches_entryOf twins (.define _ _ _ _ _ _)

/-- A wrapped program is lowered alike under two names. -/
theorem matches_visit_wrapped (twins : env₁.Twins env₂)
    (nodes₁ : env₁.nodes = (wrapping.tree name₁).preorder)
    (nodes₂ : env₂.nodes = (wrapping.tree name₂).preorder)
    (apart : wrapping.root.id ≠ wrapping.function.id)
    (bound : (env₁.annotations.get wrapping.callee.id).binding = some wrapping.function.id) :
    Matches Eq (visit env₁ (wrapping.tree name₁)) (visit env₂ (wrapping.tree name₂)) := by
  have function := matches_define twins wrapping.function name₁ name₂ []
    (.block wrapping.block wrapping.body) none fun entry₁ entry₂ =>
      matches_visit (.block wrapping.block wrapping.body)
        (twins.inside wrapping.function.id entry₁ entry₂)
  have call : Matches Eq
      (visit env₁ (.call wrapping.call (.leaf wrapping.callee (.valueId name₁)) [] none))
      (visit env₂ (.call wrapping.call (.leaf wrapping.callee (.valueId name₂)) [] none)) := by
    rw [visit, visit]
    refine (matches_calleeOf_wrapped twins nodes₁ nodes₂ apart bound wrapping.call.span).bind
      fun entry₁ entry₂ labels => ?_
    refine (matches_visitAll [] twins).then_same fun regs => ?_
    exact (Matches.emit (.cons (.call regs labels.key) .nil)).then_same fun _ => .refl _
  unfold Wrapping.tree Node.wrapped
  rw [visit, visit]
  refine Matches.then_same ?_ fun _ => .refl _
  refine function.then_same fun _ => ?_
  exact call.then_same fun reg => .refl _

end Lowering

namespace Document

open Assembly (AlikeAll)
open Walks (Agree)

variable {wrapping : Wrapping} {name₁ name₂ : String} {document₁ document₂ : Document}

/-- A wrapped program is compiled alike under two names. -/
theorem agree_compile (twins : Twins wrapping name₁ name₂ document₁ document₂)
    (apart : wrapping.root.id ≠ wrapping.function.id) :
    Agree (fun one two : Document × Compiled =>
        AlikeAll one.2.code two.2.code ∧ one.2.result = two.2.result)
      (document₁.compile.mapError fun failure => Error.compile failure.error)
      (document₂.compile.mapError fun failure => Error.compile failure.error) := by
  have noted : Lowering.TwinAddresses (document₁.annotations, {}) (document₂.annotations, {}) := by
    refine ⟨fun id => ?_, rfl⟩
    rw [twins.annotations]
    exact .refl _
  have addressed := (Lowering.agree_giveAddresses (wrapping.renamed_preorder name₁ name₂)
    noted).results
  rw [← twins.root₁, ← twins.root₂] at addressed
  unfold compile assignAddresses
  generalize first : document₁.root.preorder.foldlM Lowering.giveAddress (document₁.annotations, {}) =
    given₁, document₂.root.preorder.foldlM Lowering.giveAddress (document₂.annotations, {}) =
    given₂ at addressed
  have isProgram : ∀ name, ∃ body, wrapping.tree name = .program wrapping.root name body :=
    fun _ => ⟨_, rfl⟩
  obtain ⟨body₁, program₁⟩ := isProgram name₁
  obtain ⟨body₂, program₂⟩ := isProgram name₂
  cases addressed with
  | error e =>
    rw [twins.root₁, program₁, twins.root₂, program₂]
    exact .error (Error.compile e)
  | @ok given₁ given₂ values =>
    obtain ⟨annotations₁, names⟩ := given₁
    obtain ⟨annotations₂, _⟩ := given₂
    obtain ⟨⟨notes, rfl⟩, _⟩ := values
    have extended : document₁.annotations.Extends annotations₁ :=
      Lowering.extends_of_giveAddresses first
    have bound := Notes.binding_of_get? (extended _ _ _ twins.bound)
    have envs : Lowering.Env.Twins
        ⟨(wrapping.tree name₁).preorder, annotations₁, wrapping.root.id, name₁⟩
        ⟨(wrapping.tree name₂).preorder, annotations₂, wrapping.root.id, name₂⟩ :=
      ⟨rfl, notes, wrapping.renamed_preorder name₁ name₂⟩
    have lowered := Lowering.matches_visit_wrapped envs rfl rfl apart bound ⟨{}, names⟩
    have sameLocals := (notes wrapping.root.id).locals
    rw [twins.root₁, program₁, twins.root₂, program₂]
    rw [program₁, program₂] at lowered
    dsimp only at sameLocals ⊢
    rw [sameLocals]
    cases (annotations₂.get wrapping.root.id).locals with
    | none => exact .error _
    | some locals =>
      dsimp only
      generalize Lowering.visit ⟨_, annotations₁, _, _⟩ (.program _ _ body₁) _ = outcome₁,
        Lowering.visit ⟨_, annotations₂, _, _⟩ (.program _ _ body₂) _ = outcome₂ at lowered
      cases lowered with
      | error e => exact .error (Error.compile e)
      | ok results codes supply =>
        exact .ok ⟨List.rel_append (List.rel_append (AlikeAll.refl _) codes) (AlikeAll.refl _),
          results⟩

theorem plainParams_tree (shaped : Node.ShapedAll .all true wrapping.body)
    (name : String) : Lowering.PlainParams (wrapping.tree name) := by
  intro tag name' params body type member
  have shapedFunction : Node.Shaped .all true
      (.define wrapping.function name [] (.block wrapping.block wrapping.body) none) :=
    ⟨rfl, trivial, nofun, shaped⟩
  rcases Node.mem_preorder.mp member with impossible | ⟨child, isChild, inside⟩
  · cases impossible
  · simp only [Wrapping.tree, Node.wrapped, Node.children, List.mem_cons, List.not_mem_nil,
      or_false] at isChild
    rcases isChild with rfl | rfl
    · exact Lowering.plainParams_of_shaped shapedFunction tag name' params body type inside
    · simp [Node.preorder, Node.preorderAll] at inside

end Document

namespace Program

open Walks (Agree)

variable {name₁ name₂ : String}

theorem agree_analyse (typeCheck : Bool) (tag : Tag) (next : Nat) {body : List (Node Tag)}
    (shaped : Node.ShapedAll .all true body)
    (others : Node.ShapedAll ⟨Names.Other name₁ name₂, True⟩ true body) :
    Agree (Document.Twins (Document.wrapping tag next body) name₁ name₂)
      (analyse typeCheck ⟨.program tag name₁ body, next, {}, {}⟩)
      (analyse typeCheck ⟨.program tag name₂ body, next, {}, {}⟩) := by
  unfold analyse
  rw [Document.wrapProgram_eq, Document.wrapProgram_eq]
  refine (Document.agree_resolveNames (Document.shaped_wrapping tag next others) _).bind ?_
  intro named₁ named₂ twins
  refine (Document.agree_assignSlots twins (Document.shaped_wrapping tag next shaped)).bind ?_
  intro slotted₁ slotted₂ twins
  split
  · exact Document.agree_checkTypes twins
  · exact .ok twins

theorem agree_ofDocument {wrapping : Wrapping} {document₁ document₂ : Document}
    (twins : Document.Twins wrapping name₁ name₂ document₁ document₂)
    (apart : wrapping.root.id ≠ wrapping.function.id)
    (shaped : Node.ShapedAll .all true wrapping.body) :
    Agree Eq (ofDocument document₁) (ofDocument document₂) := by
  refine ((Document.agree_collectConstants twins).mapError Error.constant).bind ?_
  rintro ⟨collected₁, pool⟩ ⟨collected₂, _⟩ ⟨twins, rfl⟩
  refine (Document.agree_compile twins apart).results.bind ?_
  rintro ⟨_, code₁, result⟩ ⟨_, code₂, _⟩ ⟨⟨alike, rfl⟩, compiled₁, compiled₂⟩
  have plain₁ : Lowering.PlainParams collected₁.root := by
    rw [twins.root₁]
    exact Document.plainParams_tree shaped name₁
  have plain₂ : Lowering.PlainParams collected₂.root := by
    rw [twins.root₂]
    exact Document.plainParams_tree shaped name₂
  have assembled : assemble code₁ = assemble code₂ :=
    alike.assemble_eq (Document.orderly_of_compile plain₁ (Walks.ok_of_mapError compiled₁))
      (Document.orderly_of_compile plain₂ (Walks.ok_of_mapError compiled₂))
  dsimp only
  rw [assembled]
  exact .refl _

/-- A module without a name becomes the same program under all names that its text does not use. -/
theorem ofSource_eq_of_unused {source : String} (typeCheck : Bool)
    (unused : ∀ token ∈ Token.tokenize source, Parser.KindOk (Names.Other name₁ name₂) token.kind) :
    ofSource typeCheck name₁ source = ofSource typeCheck name₂ source := by
  refine Agree.eq ?_
  refine ((Document.agree_parse source).results.mapError Error.parse).bind ?_
  rintro document₁ document₂ ⟨rfl | ⟨tag, body, next, rfl, rfl⟩, parsed, _⟩
  · exact .refl _
  · obtain ⟨_, _, _, _, same, shaped⟩ :=
      @Document.shaped_parse .all _ _ _ parsed trivial fun _ _ _ _ => trivial
    obtain ⟨_, _, _, _, same', others⟩ :=
      @Document.shaped_parse ⟨Names.Other name₁ name₂, True⟩ _ _ _ parsed trivial unused
    cases same
    cases same'
    refine ((agree_analyse typeCheck tag next shaped others).mapError Error.pass).bind ?_
    intro document₁ document₂ twins
    have isTree := (Document.numbered_wrapProgram (Document.numbered_joinAlternatives
      (Document.numbered_parse parsed)) (Document.wrapProgram_eq tag name₁ body next {} {})).isTree
    have apart : (Document.wrapping tag next body).root.id ≠
        (Document.wrapping tag next body).function.id := by
      intro same
      simp [Document.IsTree, Wrapping.tree, Node.wrapped, Node.preorder, Node.preorderAll, Node.id,
        Node.tag, same] at isTree
    exact agree_ofDocument twins apart (Document.shaped_wrapping tag next shaped)

end Program

end ScriptVM
