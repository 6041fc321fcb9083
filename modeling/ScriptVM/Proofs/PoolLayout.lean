import ScriptVM.Proofs.Literals
import ScriptVM.Proofs.Passes

/-!
Where the values of literals stand.

The constants of a document are zero and one, and after them the values of its number literals in
preorder. Each literal is noted with the place of its own value, and each truth value with the place
of zero or one. One step places one node; what several steps leave is what the first and the others
leave, with the others' places counted on from the size that the first reached.
-/
namespace ScriptVM

/-- The value of a number literal, or why it has none. -/
def Node.numeral? : Node Tag → Option (Except ConstantError Value)
  | .leaf tag (.int text) => some (Literal.integer.value text tag.span)
  | .leaf tag (.real text) => some (Literal.real.value text tag.span)
  | _ => none

/-- The number literals among some nodes. -/
def numerals (nodes : List (Node Tag)) : List (Node Tag) :=
  nodes.filter fun node => node.numeral?.isSome

theorem numerals_append (first second : List (Node Tag)) :
    numerals (first ++ second) = numerals first ++ numerals second :=
  List.filter_append first second

namespace Constants

variable {state middle state' : State} {node : Node Tag} {nodes nodes' : List (Node Tag)}

/-- Some nodes have been placed: their number literals one after the other behind the values that
were there, their truth values at the front. -/
structure Fills (nodes : List (Node Tag)) (state state' : State) : Prop where
  annotations : state.annotations.Extends state'.annotations
  kept : ∀ index value, state.pool.get? index = some value → state'.pool.get? index = some value
  size : state'.pool.size = state.pool.size + (numerals nodes).length
  numeral : ∀ k node, (numerals nodes)[k]? = some node →
    (state'.annotations.get node.id).constant = some (state.pool.size + k) ∧
    ∃ value, node.numeral? = some (.ok value) ∧
      state'.pool.get? (state.pool.size + k) = some value
  truth : ∀ tag text, .leaf tag (.bool text) ∈ nodes →
    (state'.annotations.get tag.id).constant =
      some (if text = "true" then Pool.trueIndex else Pool.falseIndex)

theorem Fills.refl (state : State) : Fills [] state state :=
  ⟨.refl _, fun _ _ found => found, rfl, nofun, nofun⟩

theorem constant_of_extends {before after : Annotations} {id index : Nat}
    (extended : before.Extends after) (noted : (before.get id).constant = some index) :
    (after.get id).constant = some index := by
  have found : (before.get id).get? .constant = some (.constant index) := by
    simp [Notes.get?, noted]
  simpa [Notes.get?] using extended id .constant _ found

theorem Fills.append (first : Fills nodes state middle) (second : Fills nodes' middle state') :
    Fills (nodes ++ nodes') state state' := by
  refine ⟨first.annotations.trans second.annotations,
    fun index value found => second.kept index value (first.kept index value found), ?_, ?_, ?_⟩
  · rw [second.size, first.size, numerals_append, List.length_append, Nat.add_assoc]
  · intro k node found
    rw [numerals_append] at found
    by_cases inFirst : k < (numerals nodes).length
    · rw [List.getElem?_append_left inFirst] at found
      obtain ⟨noted, value, known, stands⟩ := first.numeral k node found
      exact ⟨constant_of_extends second.annotations noted, value, known,
        second.kept _ _ stands⟩
    · rw [List.getElem?_append_right (Nat.not_lt.mp inFirst)] at found
      have place := second.numeral _ node found
      have same : middle.pool.size + (k - (numerals nodes).length) = state.pool.size + k := by
        rw [first.size]
        omega
      rwa [same] at place
  · intro tag text member
    rcases List.mem_append.mp member with inFirst | inSecond
    · exact constant_of_extends second.annotations (first.truth tag text inFirst)
    · exact second.truth tag text inSecond

/-- What placing a node does: a number literal goes behind the values that are there, a truth value
stands already, and of another node there is nothing to place. -/
theorem place_cases {place : Option Nat} {pool : Pool}
    (success : Constants.place state node = .ok (place, pool)) :
    (∃ value, node.numeral? = some (.ok value) ∧ place = some state.pool.size ∧
        pool = state.pool.push value) ∨
      node.numeral? = none ∧ pool = state.pool ∧
        ((∃ tag text, node = .leaf tag (.bool text) ∧
            place = some (if text = "true" then Pool.trueIndex else Pool.falseIndex)) ∨
          (∀ tag text, node ≠ .leaf tag (.bool text)) ∧ place = none) := by
  cases node with
  | leaf tag leaf =>
    cases leaf with
    | int text | real text =>
      obtain ⟨value, known, placed⟩ := Walks.except_bind_ok.mp success
      cases placed
      exact .inl ⟨value, congrArg some known, rfl, rfl⟩
    | bool text =>
      cases success
      exact .inr ⟨rfl, rfl, .inl ⟨tag, text, rfl, rfl⟩⟩
    | _ =>
      cases success
      exact .inr ⟨rfl, rfl, .inr ⟨nofun, rfl⟩⟩
  | _ =>
    cases success
    exact .inr ⟨rfl, rfl, .inr ⟨nofun, rfl⟩⟩

theorem get?_push (pool : Pool) (value : Value) : (pool.push value).get? pool.size = some value := by
  simp [Pool.get?, Pool.push, Pool.size]

theorem get?_push_of_some {pool : Pool} {value added : Value} {index : Nat}
    (found : pool.get? index = some value) : (pool.push added).get? index = some value := by
  have inside := (Array.getElem?_eq_some_iff.mp found).1
  rw [Pool.get?, Pool.push, Array.getElem?_push_lt inside, ← found, Pool.get?,
    Array.getElem?_eq_getElem inside]

/-- What is written of a node's place is its place. -/
theorem constant_of_set {before after : Annotations} {id index : Nat}
    (written : before.set id (.constant index) = .ok after) :
    (after.get id).constant = some index := by
  simpa [Notes.get?, Note.key] using Annotations.some_of_set written

theorem numerals_of_some {value : Except ConstantError Value} (known : node.numeral? = some value) :
    numerals [node] = [node] := by
  simp [numerals, known]

theorem numerals_of_none (noNumeral : node.numeral? = none) : numerals [node] = [] := by
  simp [numerals, noNumeral]

/-- A number literal behind the values that were there. -/
theorem Fills.push {value : Value} {annotations : Annotations}
    (known : node.numeral? = some (.ok value))
    (written : state.annotations.set node.id (.constant state.pool.size) = .ok annotations) :
    Fills [node] state ⟨state.pool.push value, annotations⟩ where
  annotations := Annotations.extends_of_set written
  kept _ _ found := get?_push_of_some found
  size := by
    rw [numerals_of_some known]
    simp [Pool.push, Pool.size]
  numeral k other found := by
    rw [numerals_of_some known, List.getElem?_singleton] at found
    split at found
    next first =>
      cases found
      subst first
      exact ⟨constant_of_set written, value, known, get?_push _ _⟩
    next => cases found
  truth tag text member := by
    cases List.mem_singleton.mp member
    cases known

/-- A truth value, which stands already. -/
theorem Fills.note {tag : Tag} {text : String} {annotations : Annotations}
    (written : state.annotations.set tag.id
      (.constant (if text = "true" then Pool.trueIndex else Pool.falseIndex)) = .ok annotations) :
    Fills [.leaf tag (.bool text)] state ⟨state.pool, annotations⟩ where
  annotations := Annotations.extends_of_set written
  kept _ _ found := found
  size := rfl
  numeral := nofun
  truth other text' member := by
    cases List.mem_singleton.mp member
    exact constant_of_set written

/-- A node of which there is nothing to place. -/
theorem Fills.skip (noNumeral : node.numeral? = none)
    (noTruth : ∀ tag text, node ≠ .leaf tag (.bool text)) : Fills [node] state state where
  annotations := .refl _
  kept _ _ found := found
  size := by rw [numerals_of_none noNumeral]; rfl
  numeral k other found := by
    rw [numerals_of_none noNumeral] at found
    cases found
  truth tag text member := absurd (List.mem_singleton.mp member).symm (noTruth tag text)

/-- One step places one node. -/
theorem fills_step (success : step state node = .ok state') : Fills [node] state state' := by
  obtain ⟨place, pool, placed, noted⟩ := step_ok_cases success
  rcases place_cases placed with ⟨value, known, rfl, rfl⟩ |
    ⟨noNumeral, rfl, ⟨tag, text, rfl, rfl⟩ | ⟨noTruth, rfl⟩⟩
  · obtain ⟨impossible, _⟩ | ⟨index, annotations, same, written, rfl⟩ := noted
    · cases impossible
    cases same
    exact .push known written
  · obtain ⟨impossible, _⟩ | ⟨index, annotations, same, written, rfl⟩ := noted
    · cases impossible
    cases same
    exact .note written
  · obtain ⟨_, rfl⟩ | ⟨index, annotations, impossible, _⟩ := noted
    · exact .skip noNumeral noTruth
    · cases impossible

/-- Steps one after the other place the nodes one after the other. -/
theorem fills_steps (success : nodes.foldlM step state = .ok state') :
    Fills nodes state state' := by
  induction nodes generalizing state with
  | nil =>
    cases success
    exact .refl _
  | cons node rest ih =>
    rw [List.foldlM_cons] at success
    obtain ⟨middle, stepped, finished⟩ := Walks.except_bind_ok.mp success
    exact (fills_step stepped).append (ih finished)

end Constants

/-- Collecting the constants of a document fills a pool that holds zero and one. -/
theorem Document.fills_of_collectConstants {document collected : Document} {pool : Pool}
    (success : document.collectConstants = .ok (collected, pool)) :
    collected.root = document.root ∧
      Constants.Fills document.root.preorder ⟨{}, document.annotations⟩
        ⟨pool, collected.annotations⟩ := by
  obtain ⟨last, finished, same⟩ := Walks.except_bind_ok.mp success
  cases same
  exact ⟨rfl, Constants.fills_steps finished⟩

/-- A number literal keeps its value on the way from the source to the pool. An integer token has
the value of its digits if there are digits and the value fits, and no value otherwise; a real token
always has a value. In a collected document zero and one come first, and then the values of the
number literals in preorder, each noted with its place; a truth value is noted with the place of one
if its text says so, and of zero otherwise. -/
theorem Literal.keeps_value :
    (∀ (source : String) (token : Token) (text : String) (span : Span),
      token ∈ Token.tokenize source → token.kind = .int text →
        Literal.integer.value text span =
          if fits : Literal.digits text ≠ [] ∧ Value.Fits (Literal.exactValue text) then
            .ok (.int (Value.word (Literal.exactValue text) fits.2))
          else .error (.invalid .integer text span)) ∧
    (∀ (source : String) (token : Token) (text : String) (span : Span),
      token ∈ Token.tokenize source → token.kind = .real text →
        ∃ x, Literal.real.value text span = .ok (.real x)) ∧
    ∀ (document collected : Document) (pool : Pool),
      document.collectConstants = .ok (collected, pool) →
        collected.root = document.root ∧
        pool.get? 0 = some (.int 0) ∧ pool.get? 1 = some (.int 1) ∧
        pool.size = 2 + (numerals document.root.preorder).length ∧
        (∀ k node, (numerals document.root.preorder)[k]? = some node →
          (collected.annotations.get node.id).constant = some (2 + k) ∧
          ∃ value, node.numeral? = some (.ok value) ∧ pool.get? (2 + k) = some value) ∧
        ∀ tag text, .leaf tag (.bool text) ∈ document.root.preorder →
          (collected.annotations.get tag.id).constant = some (if text = "true" then 1 else 0) := by
  refine ⟨?_, ?_, ?_⟩
  · intro source token text span member isInt
    exact Token.value_of_integer member isInt span
  · intro source token text span member isReal
    exact Token.value_of_real member isReal span
  · intro document collected pool success
    obtain ⟨sameRoot, filled⟩ := Document.fills_of_collectConstants success
    exact ⟨sameRoot, filled.kept 0 _ rfl, filled.kept 1 _ rfl, filled.size, filled.numeral,
      filled.truth⟩

/-- A negative integer, a real number and a truth value, on their way to the pool. -/
theorem Literal.keeps_value_of_three :
    (⟨.int "-0x_Ff", ⟨⟨0, 1, 1⟩, ⟨6, 1, 7⟩⟩, "-0x_Ff"⟩ : Token) ∈
      Token.tokenize "-0x_Ff * 2.5e1 == true" ∧
    (⟨.real "2.5e1", ⟨⟨9, 1, 10⟩, ⟨14, 1, 15⟩⟩, "2.5e1"⟩ : Token) ∈
      Token.tokenize "-0x_Ff * 2.5e1 == true" ∧
    Literal.integer.value "-0x_Ff" default = .ok (.int (-255)) ∧
    (∃ x, Literal.real.value "2.5e1" default = .ok (.real x)) ∧
    ∃ collected pool,
      (Document.ofTree (.aggregate default .list [.leaf default (.int "-0x_Ff"),
        .leaf default (.real "2.5e1"), .leaf default (.bool "true")])).collectConstants =
          .ok (collected, pool) ∧
      pool.size = 4 ∧ pool.get? 2 = some (.int (-255)) ∧
      (collected.annotations.get 1).constant = some 2 ∧
      (collected.annotations.get 3).constant = some 1 := by
  have integer : (⟨.int "-0x_Ff", ⟨⟨0, 1, 1⟩, ⟨6, 1, 7⟩⟩, "-0x_Ff"⟩ : Token) ∈
      Token.tokenize "-0x_Ff * 2.5e1 == true" := by
    decide +kernel
  have real : (⟨.real "2.5e1", ⟨⟨9, 1, 10⟩, ⟨14, 1, 15⟩⟩, "2.5e1"⟩ : Token) ∈
      Token.tokenize "-0x_Ff * 2.5e1 == true" := by
    decide +kernel
  have negative : Literal.integer.value "-0x_Ff" default = .ok (.int (-255)) := by
    rw [Literal.keeps_value.1 _ _ _ default integer rfl]
    decide +kernel
  have collects : ((Document.ofTree (.aggregate default .list [.leaf default (.int "-0x_Ff"),
      .leaf default (.real "2.5e1"), .leaf default (.bool "true")])).collectConstants).toOption ≠
        none := by
    decide +kernel
  obtain ⟨⟨collected, pool⟩, found⟩ := Option.ne_none_iff_exists'.mp collects
  have success := ok_of_toOption found
  obtain ⟨_, _, _, size, numeral, truth⟩ := Literal.keeps_value.2.2 _ _ _ success
  obtain ⟨noted, value, known, stands⟩ := numeral 0 (.leaf ⟨1, default⟩ (.int "-0x_Ff")) rfl
  have same : value = .int (-255) := by
    cases (Option.some.inj known).symm.trans negative
    rfl
  subst same
  exact ⟨integer, real, negative, Literal.keeps_value.2.1 _ _ _ default real rfl, collected, pool,
    success, size, stands, noted,
    truth ⟨3, default⟩ "true" (.tail _ (.tail _ (.tail _ (.head _))))⟩

end ScriptVM
