import ScriptVM.Document.Rewrites
import ScriptVM.Proofs.Shape

/-!
The tree that names are resolved in.

Attaching alternatives keeps the shape of statements. Wrapping leaves a program with two statements:
a function that has the statements of the source as its body, and one call of it.
-/
namespace ScriptVM

open Node (Shaped ShapedAll IsParameter shapedAll_iff)

namespace Alternatives

variable {ok : Node.Allowed}

theorem shaped_close {statement : Bool} {body node closed : Node Tag}
    (shapedBody : Shaped ok false body) (shaped : Shaped ok statement node)
    (found : close body node = some closed) : Shaped ok statement closed := by
  induction node using Node.childInduction generalizing statement closed with
  | step node ih =>
    unfold close at found
    split at found
    next tag pred yes _ =>
      cases found
      exact ⟨shaped.1, shaped.2.1, shapedBody⟩
    next tag pred yes tag' pred' yes' no' =>
      obtain ⟨inner, foundInner, rfl⟩ := Option.map_eq_some_iff.mp found
      have shapedInner := ih _ (by simp [Node.children]) shaped.2.2 foundInner
      exact ⟨shaped.1, shaped.2.1, shapedInner⟩
    next => cases found

theorem shaped_closeNearest {body : Node Tag} {before closed : List (Node Tag)}
    (shapedBody : Shaped ok false body) (shaped : ShapedAll ok true before)
    (found : closeNearest body before = some closed) : ShapedAll ok true closed := by
  induction before generalizing closed with
  | nil => cases found
  | cons node before ih =>
    unfold closeNearest at found
    split at found
    next =>
      obtain ⟨rest, foundRest, rfl⟩ := Option.map_eq_some_iff.mp found
      exact ⟨shaped.1, ih shaped.2 foundRest⟩
    next =>
      obtain ⟨first, foundFirst, rfl⟩ := Option.map_eq_some_iff.mp found
      exact ⟨shaped_close shapedBody shaped.1 foundFirst, shaped.2⟩

theorem shaped_joinAfter {before nodes : List (Node Tag)} (next : Nat)
    (shapedBefore : ShapedAll ok true before) (shaped : ShapedAll ok true nodes) :
    ShapedAll ok true (joinAfter before nodes next).1 := by
  induction nodes generalizing before next with
  | nil =>
    rw [joinAfter]
    show ShapedAll ok true before.reverse
    rw [shapedAll_iff] at shapedBefore ⊢
    intro node member
    exact shapedBefore node (List.mem_reverse.mp member)
  | cons node rest ih =>
    cases node with
    | orElse tag body =>
      rw [joinAfter]
      cases found : closeNearest body before with
      | none => exact ih next ⟨shaped.1, shapedBefore⟩ shaped.2
      | some closed =>
        exact ih (next + 1) ⟨trivial, shaped_closeNearest shaped.1 shapedBefore found⟩ shaped.2
    | _ =>
      rw [joinAfter]
      · exact ih next ⟨shaped.1, shapedBefore⟩ shaped.2
      · nofun

theorem isParameter_joinAll {params : List (Node Tag)} (next : Nat)
    (areParams : ∀ param ∈ params, IsParameter ok param) :
    ∀ param ∈ (joinAll params next).1, IsParameter ok param := by
  induction params generalizing next with
  | nil => exact areParams
  | cons param params ih =>
    obtain ⟨tag, name, type, rfl, allowed⟩ := areParams param (by simp)
    intro other member
    rcases List.mem_cons.mp member with rfl | inRest
    · exact ⟨tag, name, type, rfl, allowed⟩
    · exact ih next (fun other isRest => areParams other (by simp [isRest])) other inRest

mutual

/-- Attaching alternatives leaves the shape. -/
theorem shaped_join : ∀ {statement : Bool} (next : Nat) (node : Node Tag),
    Shaped ok statement node → Shaped ok statement (join node next).1
  | _, _, .leaf _ kind => by
    intro shaped
    cases kind <;> exact shaped
  | _, _, .param .. | _, _, .program .. => fun shaped => shaped.elim
  | _, _, .block _ body => by
    intro shaped
    exact shaped_joinAfter _ trivial (shapedAll_join _ body shaped)
  | _, _, .define _ _ params body _ => by
    intro shaped
    exact ⟨shaped.1, shaped.2.1, isParameter_joinAll _ shaped.2.2.1,
      shaped_join _ body shaped.2.2.2⟩
  | _, _, .declare _ _ _ _ value => by
    intro shaped
    exact ⟨shaped.1, shaped.2.1, shaped_join _ value shaped.2.2⟩
  | _, _, .assign _ _ value => by
    intro shaped
    exact ⟨shaped.1, shaped_join _ value shaped.2⟩
  | _, _, .branch _ pred yes no => by
    intro shaped
    exact ⟨shaped_join _ pred shaped.1, shaped_join _ yes shaped.2.1,
      shaped_join _ no shaped.2.2⟩
  | _, _, .orElse _ body => by
    intro shaped
    exact shaped_join _ body shaped
  | _, _, .loop _ left right | _, _, .binary _ _ left right => by
    intro shaped
    exact ⟨shaped_join _ left shaped.1, shaped_join _ right shaped.2⟩
  | _, _, .call _ callee args none => by
    intro shaped
    exact ⟨shaped_join _ callee shaped.1, shapedAll_join _ args shaped.2⟩
  | _, _, .call _ callee args (some trailing) => by
    intro shaped
    exact ⟨shaped_join _ callee shaped.1, shapedAll_join _ args shaped.2.1,
      shaped_join _ trailing shaped.2.2⟩
  | _, _, .aggregate _ _ elements => by
    intro shaped
    exact ⟨shaped.1, shapedAll_join _ elements shaped.2⟩

theorem shapedAll_join : ∀ {statement : Bool} (next : Nat) (nodes : List (Node Tag)),
    ShapedAll ok statement nodes → ShapedAll ok statement (joinAll nodes next).1
  | _, _, [] => fun _ => trivial
  | _, _, node :: rest => by
    intro shaped
    exact ⟨shaped_join _ node shaped.1, shapedAll_join _ rest shaped.2⟩

end

end Alternatives

/-- A program made of a function with the given statements and a call of it. -/
def Node.wrapped (root function block call callee : Tag) (name : String) (body : List (Node Tag)) :
    Node Tag :=
  .program root name
    [.define function name [] (.block block body) none,
      .call call (.leaf callee (.valueId name)) [] none]

/-- The parts of a wrapped program, but for its name. -/
structure Wrapping where
  root : Tag
  function : Tag
  block : Tag
  call : Tag
  callee : Tag
  body : List (Node Tag)

/-- The wrapped program under a name. -/
def Wrapping.tree (wrapping : Wrapping) (name : String) : Node Tag :=
  .wrapped wrapping.root wrapping.function wrapping.block wrapping.call wrapping.callee name
    wrapping.body

namespace Document

/-- The parts that the statements of a module are wrapped in. -/
def wrapping (tag : Tag) (next : Nat) (body : List (Node Tag)) : Wrapping :=
  let joined := Alternatives.joinAll body next
  let closed := Alternatives.joinAfter [] joined.1 joined.2
  { root := tag
    function := ⟨closed.2 + 1, tag.span⟩
    block := ⟨closed.2 + 0, tag.span⟩
    call := ⟨closed.2 + 3, tag.span⟩
    callee := ⟨closed.2 + 2, tag.span⟩
    body := closed.1 }

/-- Wrapping puts the name of a module in two places and nowhere else. -/
theorem wrapProgram_eq (tag : Tag) (name : String) (body : List (Node Tag)) (next : Nat)
    (scopes : Scopes) (annotations : Annotations) :
    (Document.joinAlternatives ⟨.program tag name body, next, scopes, annotations⟩).wrapProgram =
      .ok ⟨(wrapping tag next body).tree name, (wrapping tag next body).call.id + 1, scopes,
        annotations⟩ := rfl

theorem shaped_wrapping {ok : Node.Allowed} (tag : Tag) (next : Nat) {body : List (Node Tag)}
    (shaped : ShapedAll ok true body) : ShapedAll ok true (wrapping tag next body).body := by
  have nothingBefore : ShapedAll ok true ([] : List (Node Tag)) := trivial
  exact Alternatives.shaped_joinAfter _ nothingBefore (Alternatives.shapedAll_join _ _ shaped)

/-- The tree that names are resolved in is a function with the statements of the source, and a call
of it. -/
theorem wrapped_of_parse {ok : Node.Allowed} {anonymous source : String} {parsed : Document}
    {document : Document} (parse : Document.parse anonymous source = .ok parsed)
    (aggregates : ok.aggregates)
    (allowed : ∀ token ∈ Token.tokenize source, Parser.KindOk ok.names token.kind)
    (success : parsed.joinAlternatives.wrapProgram = .ok document) :
    ∃ root function block call callee name body,
      document.root = Node.wrapped root function block call callee name body ∧
      ShapedAll ok true body ∧ document.scopes = {} ∧ document.annotations = {} := by
  obtain ⟨tag, name, body, next, rfl, shaped⟩ := shaped_parse parse aggregates allowed
  rw [wrapProgram_eq] at success
  cases success
  exact ⟨_, _, _, _, _, _, _, rfl, shaped_wrapping tag next shaped, rfl, rfl⟩

end Document

end ScriptVM
