import ScriptVM.Proofs.Grammar

/-!
Reading tokens one phrase at a time.

`Reads` says that a production takes a run of tokens, leaves those after it and gives a result of
which something holds; such productions compose as the runs do. What a production takes depends on
the token after the run, so `Takes` asks for one that cannot go on with it, and for a bound on the
nesting that grows with the run: eight productions for every token are enough.
-/
namespace ScriptVM

open Token (Kind)
open Grammar (typed)

/-- The kinds of the tokens that are left. -/
def Cursor.kinds (c : Cursor) : List Kind :=
  c.current.kind :: c.rest.map Token.kind

namespace Parser

variable {α β : Type} {post : α → Prop} {post' : β → Prop} {kinds kinds' after more : List Kind}
  {kind : Kind}

/-- A production takes these tokens where those come after, and gives a result of which something
holds. -/
def Reads (p : Parser α) (post : α → Prop) (kinds after : List Kind) : Prop :=
  ∀ c : Cursor, c.kinds = kinds ++ after → ∃ a c', p c = .ok (a, c') ∧ c'.kinds = after ∧ post a

section Composition

theorem Reads.pure {a : α} (holds : post a) : Reads (Pure.pure a) post [] after :=
  fun c left => ⟨a, c, rfl, left, holds⟩

theorem Reads.bind {p : Parser α} {f : α → Parser β} (first : Reads p post kinds (kinds' ++ after))
    (rest : ∀ a, post a → Reads (f a) post' kinds' after) :
    Reads (p >>= f) post' (kinds ++ kinds') after := by
  intro c left
  rw [List.append_assoc] at left
  obtain ⟨a, c₁, parsed, left₁, holds⟩ := first c left
  obtain ⟨b, c₂, parsed', left₂, holds'⟩ := rest a holds c₁ left₁
  refine ⟨b, c₂, ?_, left₂, holds'⟩
  show (p c >>= fun result => f result.1 result.2) = _
  rw [parsed]
  exact parsed'

/-- A production that takes the tokens, and then one that takes nothing. -/
theorem Reads.andThen {p : Parser α} {f : α → Parser β} (first : Reads p post kinds after)
    (rest : ∀ a, post a → Reads (f a) post' [] after) : Reads (p >>= f) post' kinds after := by
  have both := Reads.bind (show Reads p post kinds ([] ++ after) from first) rest
  rwa [List.append_nil] at both

theorem Reads.weaken {p : Parser α} {post' : α → Prop} (reads : Reads p post kinds after)
    (weaker : ∀ a, post a → post' a) : Reads p post' kinds after := by
  intro c left
  obtain ⟨a, c', parsed, left', holds⟩ := reads c left
  exact ⟨a, c', parsed, left', weaker a holds⟩

theorem Reads.get {f : Cursor → Parser α}
    (rest : ∀ c : Cursor, c.kinds = kinds ++ after → Reads (f c) post kinds after) :
    Reads (MonadState.get >>= f) post kinds after :=
  fun c left => rest c left c left

/-- The first of the tokens decides. -/
theorem Reads.peek {f : Kind → Parser α} (front : kinds ++ after = kind :: more)
    (rest : Reads (f kind) post kinds after) : Reads (peek >>= f) post kinds after := by
  intro c left
  have isFirst : c.current.kind = kind := by
    rw [front] at left
    exact (List.cons.inj left).1
  have parsed := rest c left
  rw [← isFirst] at parsed
  exact parsed

theorem Reads.sees {f : Bool → Parser α} (wanted : Kind) (front : kinds ++ after = kind :: more)
    (rest : Reads (f (decide (kind = wanted))) post kinds after) :
    Reads (sees wanted >>= f) post kinds after := by
  intro c left
  have isFirst : c.current.kind = kind := by
    rw [front] at left
    exact (List.cons.inj left).1
  have parsed := rest c left
  rw [← isFirst] at parsed
  exact parsed

theorem kinds_advance {c : Cursor} (left : c.kinds = kind :: more) (goesOn : more ≠ []) :
    c.advance.kinds = more := by
  obtain ⟨current, rest, previous⟩ := c
  cases rest with
  | nil =>
    simp only [Cursor.kinds, List.map_nil, List.cons.injEq] at left
    exact absurd left.2.symm goesOn
  | cons next rest => exact (List.cons.inj left).2

/-- A token is taken where another comes after it. -/
theorem advance_bind {f : Span → Parser α} {c : Cursor} (goesOn : c.rest ≠ []) :
    (Parser.advance >>= f) c = f c.current.span c.advance := by
  obtain ⟨current, rest, previous⟩ := c
  cases rest with
  | nil => exact absurd rfl goesOn
  | cons next rest => rfl

theorem rest_ne_nil {c : Cursor} (left : c.kinds = kind :: more) (goesOn : more ≠ []) :
    c.rest ≠ [] := by
  intro none
  rw [Cursor.kinds, none] at left
  exact goesOn (List.cons.inj left).2.symm

/-- One token is taken. -/
theorem Reads.advance {f : Span → Parser α} (goesOn : after ≠ [])
    (rest : ∀ span, Reads (f span) post kinds after) :
    Reads (advance >>= f) post (kind :: kinds) after := by
  intro c left
  rw [advance_bind (rest_ne_nil left (by simp [goesOn]))]
  exact rest _ c.advance (kinds_advance left (by simp [goesOn]))

theorem Reads.expect {f : Span → Parser α} (goesOn : after ≠ [])
    (rest : ∀ span, Reads (f span) post kinds after) :
    Reads (expect kind >>= f) post (kind :: kinds) after := by
  have taken : Reads (Parser.advance >>= f) post (kind :: kinds) after := .advance goesOn rest
  intro c left
  have isFirst : c.current.kind = kind := (List.cons.inj left).1
  obtain ⟨a, c', parsed, left', holds⟩ := taken c left
  refine ⟨a, c', ?_, left', holds⟩
  rw [← parsed]
  show ((Parser.expect kind : Parser Span) c >>= fun result => f result.1 result.2) = _
  have expected : (Parser.expect kind : Parser Span) c = (Parser.advance : Parser Span) c := by
    show (if decide (c.current.kind = kind) = true then Parser.advance else fail kind.name :
      Parser Span) c = _
    rw [if_pos (by simpa using isFirst)]
  rw [expected]
  rfl

theorem Reads.tagFrom {f : Span → Parser α} (start : Span)
    (rest : ∀ span, Reads (f span) post kinds after) :
    Reads (tagFrom start >>= f) post kinds after :=
  fun c left => rest _ c left

theorem reads_missing : Reads missing (fun tree => tree.bare = .leaf () .unit) [] after :=
  fun c left => ⟨_, c, rfl, left, rfl⟩

/-- A whole production that ends with its span. -/
theorem Reads.spanned {f : Span → α} (start : Span) (holds : ∀ span, post (f span)) :
    Reads (Parser.tagFrom start >>= fun span => Pure.pure (f span)) post [] after :=
  .tagFrom start fun span => .pure (holds span)

theorem reads_valueName (goesOn : after ≠ []) (name : String) :
    Reads valueName (fun taken => taken = name) [.valueId name] after :=
  .peek rfl (.advance goesOn fun _ => .pure rfl)

theorem reads_tokenLeaf (goesOn : after ≠ []) (leaf : Leaf) :
    Reads (tokenLeaf leaf) (fun tree => tree.bare = .leaf () leaf) [kind] after :=
  .advance goesOn fun start => .spanned start fun _ => rfl

end Composition

section Neighbours

/-- Tokens that begin with one of certain kinds. -/
def Begins (test : Kind → Bool) (kinds : List Kind) : Prop :=
  ∃ first rest, kinds = first :: rest ∧ test first = true

/-- Only one kind. -/
def only (wanted : Kind) : Kind → Bool :=
  fun kind => kind = wanted

/-- Every kind but one. -/
def but (excluded : Kind) : Kind → Bool :=
  fun kind => kind ≠ excluded

/-- Every kind. -/
def anything : Kind → Bool :=
  fun _ => true

/-- What may come after an expression. -/
def endsExpression : Kind → Bool
  | .closing _ | .comma | .term | .eof | .word .endModule => true
  | _ => false

/-- What cannot go on with an operation. -/
def endsOperation : Kind → Bool
  | .symbol _ => false
  | _ => true

/-- What cannot be the name of a type. -/
def endsName : Kind → Bool
  | .typeId _ => false
  | _ => true

/-- What may come after an operand. -/
def endsOperand : Kind → Bool
  | .symbol _ => true
  | kind => endsExpression kind

/-- What an operand may begin with. -/
def startsOperand : Kind → Bool
  | .int _ | .real _ | .valueId _ | .typeId _ | .opening _ => true
  | .word .yes | .word .no | .word .cond | .word .loop => true
  | .symbol text => text != "-"
  | _ => false

/-- What a statement may begin with. -/
def startsStatement : Kind → Bool
  | .word .val | .word .var | .word .define | .word .otherwise => true
  | kind => startsOperand kind

variable {test test' : Kind → Bool}

theorem Begins.cons (first : Kind) (rest : List Kind) (holds : test first = true) :
    Begins test (first :: rest) :=
  ⟨first, rest, rfl, holds⟩

theorem Begins.ne_nil (begins : Begins test kinds) : kinds ≠ [] := by
  obtain ⟨first, rest, rfl, _⟩ := begins
  nofun

theorem Begins.append (begins : Begins test kinds) (more : List Kind) :
    Begins test (kinds ++ more) := by
  obtain ⟨first, rest, rfl, holds⟩ := begins
  exact ⟨first, rest ++ more, rfl, holds⟩

theorem Begins.weaken (begins : Begins test kinds)
    (weaker : ∀ kind, test kind = true → test' kind = true) : Begins test' kinds := by
  obtain ⟨first, rest, same, holds⟩ := begins
  exact ⟨first, rest, same, weaker first holds⟩

theorem Begins.anything (begins : Begins test kinds) : Begins anything kinds :=
  begins.weaken fun _ _ => rfl

theorem Begins.but (begins : Begins test kinds) (excluded : test kind = false) :
    Begins (but kind) kinds := by
  refine begins.weaken fun other holds => decide_eq_true ?_
  rintro rfl
  rw [holds] at excluded
  cases excluded

theorem Begins.only (begins : Begins (only kind) kinds) : ∃ rest, kinds = kind :: rest := by
  obtain ⟨first, rest, rfl, same⟩ := begins
  cases of_decide_eq_true same
  exact ⟨rest, rfl⟩

theorem begins_only (kind : Kind) (rest : List Kind) : Begins (Parser.only kind) (kind :: rest) :=
  .cons kind rest (decide_eq_true rfl)

theorem Begins.of_only (begins : Begins (Parser.only kind) kinds) (holds : test kind = true) :
    Begins test kinds := by
  obtain ⟨rest, rfl⟩ := begins.only
  exact .cons kind rest holds

theorem endsOperand_of_endsExpression (kind : Kind) (ends : endsExpression kind = true) :
    endsOperand kind = true := by
  cases kind <;> first | exact ends | rfl

theorem endsOperation_of_endsExpression (kind : Kind) (ends : endsExpression kind = true) :
    endsOperation kind = true := by
  cases kind <;> first | exact ends | rfl

theorem endsName_of_endsExpression (kind : Kind) (ends : endsExpression kind = true) :
    endsName kind = true := by
  cases kind <;> first | exact ends | rfl

theorem startsStatement_of_startsOperand (kind : Kind) (starts : startsOperand kind = true) :
    startsStatement kind = true := by
  cases kind with
  | word keyword => cases keyword <;> first | exact starts | rfl
  | _ => exact starts

/-- The token that is looked for is not there. -/
theorem Reads.absent {f : Bool → Parser α} (wanted : Kind) (begins : Begins test (kinds ++ after))
    (excluded : test wanted = false) (rest : Reads (f false) post kinds after) :
    Reads (Parser.sees wanted >>= f) post kinds after := by
  obtain ⟨first, more, front, other⟩ := begins.but excluded
  refine .sees wanted front ?_
  rw [decide_eq_false (of_decide_eq_true other)]
  exact rest

/-- The token that is looked for is there. -/
theorem Reads.present {f : Bool → Parser α} (wanted : Kind)
    (front : kinds ++ after = wanted :: more) (rest : Reads (f true) post kinds after) :
    Reads (Parser.sees wanted >>= f) post kinds after := by
  refine .sees wanted front ?_
  rw [decide_eq_true rfl]
  exact rest

theorem reads_typeName? (type : Option String) (ends : Begins endsName after) :
    Reads typeName? (fun taken => taken = type) (typed type) after := by
  cases type with
  | some name => exact .peek rfl (.advance ends.ne_nil fun _ => .pure rfl)
  | none =>
    obtain ⟨next, rest, rfl, ends⟩ := ends
    refine .peek rfl ?_
    cases next with
    | typeId => cases ends
    | _ => exact .pure rfl

end Neighbours

section StatementEnds

/-- The tokens past the statement ends at the front. -/
def trimmed (kinds : List Kind) : List Kind :=
  kinds.dropWhile (· = .term)

theorem trimmed_of_ne {rest : List Kind} (notTerm : kind ≠ .term) :
    trimmed (kind :: rest) = kind :: rest := by
  simp [trimmed, notTerm]

theorem trimmed_of_begins (starts : Begins startsStatement kinds) : trimmed kinds = kinds := by
  obtain ⟨first, rest, rfl, starts⟩ := starts
  apply trimmed_of_ne
  rintro rfl
  cases starts

theorem length_trimmed_le (kinds : List Kind) : (trimmed kinds).length ≤ kinds.length :=
  (List.dropWhile_sublist _).length_le

theorem kinds_skipTerms {c : Cursor} (left : c.kinds = kinds ++ after)
    (ends : Begins (but .term) after) :
    (Cursor.skipTerms c.previous c.current c.rest).kinds = trimmed kinds ++ after := by
  obtain ⟨current, rest, previous⟩ := c
  obtain ⟨last, more, rfl, notTerm⟩ := ends
  have notTerm : last ≠ .term := of_decide_eq_true notTerm
  induction rest generalizing kinds current previous with
  | nil =>
    cases kinds with
    | nil => exact left
    | cons kind kinds => simp [Cursor.kinds] at left
  | cons next rest ih =>
    unfold Cursor.skipTerms
    cases kinds with
    | nil =>
      have isLast : current.kind = last := (List.cons.inj left).1
      rw [if_neg (isLast ▸ notTerm)]
      exact left
    | cons kind kinds =>
      have same : current.kind = kind := (List.cons.inj left).1
      by_cases isTerm : current.kind = .term
      · rw [if_pos isTerm, ih next current.span (List.cons.inj left).2]
        simp [trimmed, ← same, isTerm]
      · rw [if_neg isTerm, left]
        simp [trimmed, ← same, isTerm]

theorem Reads.skipTerms {f : Unit → Parser α} (ends : Begins (but .term) after)
    (rest : Reads (f ()) post (trimmed kinds) after) :
    Reads (Parser.skipTerms >>= f) post kinds after :=
  fun _ left => rest _ (kinds_skipTerms left ends)

theorem skipTerms_idem (previous : Span) (current : Token) (rest : List Token) :
    let c := Cursor.skipTerms previous current rest
    Cursor.skipTerms c.previous c.current c.rest = c := by
  induction rest generalizing previous current with
  | nil => rfl
  | cons next rest ih =>
    by_cases isTerm : current.kind = .term
    · simp only [Cursor.skipTerms, if_pos isTerm]
      exact ih current.span next
    · simp only [Cursor.skipTerms, if_neg isTerm]

/-- Taking the ends at the front once more changes nothing. -/
theorem skipTerms_bind (f : Unit → Parser α) (c : Cursor) :
    (skipTerms >>= f) (Cursor.skipTerms c.previous c.current c.rest) = (skipTerms >>= f) c :=
  congrArg (f ()) (skipTerms_idem c.previous c.current c.rest)

end StatementEnds

/-- A parsed tree that is this one without its spans. -/
def Is (node : Node Unit) (tree : Tree) : Prop :=
  tree.bare = node

/-- Parsed trees that are these without their spans. -/
def Are (nodes : List (Node Unit)) (trees : List Tree) : Prop :=
  Node.mapAll (fun _ => ()) trees = nodes

section Nesting

variable {p : Nat → Parser α} {spare : Nat} {next : Kind → Bool}

/-- A production takes these tokens before a token of certain kinds, given eight nested productions
for every token and two more, less those it can spare. -/
def Takes (p : Nat → Parser α) (spare : Nat) (post : α → Prop) (next : Kind → Bool)
    (kinds : List Kind) : Prop :=
  ∀ fuel after, 8 * kinds.length + 2 ≤ fuel + spare → Begins next after →
    Reads (p fuel) post kinds after

/-- Some of the bound is there to be used. -/
theorem Takes.nested (n : Nat) (needed : spare + n ≤ 8 * kinds.length + 2)
    (taken : ∀ fuel after, 8 * kinds.length + 2 ≤ fuel + n + spare → Begins next after →
      Reads (p (fuel + n)) post kinds after) : Takes p spare post next kinds := by
  intro fuel after enough ends
  obtain ⟨rest, rfl⟩ : ∃ rest, fuel = rest + n := ⟨fuel - n, by omega⟩
  exact taken rest after (by omega) ends

end Nesting

end Parser

end ScriptVM
