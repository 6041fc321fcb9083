import ScriptVM.Proofs.Numbering

/-!
What a production takes.

Tokens are taken one after the other, and none that is an error. `Meets` says of a production that,
started before the end of input stands, it either gives a result of which something holds, together
with what it took, or refuses a token that was still to be read because something else was expected
there: it neither runs out of nested productions nor takes the end of input. Such productions compose
as what they take does.
-/
namespace ScriptVM

/-- The tokens that are left. -/
def Cursor.tokens (c : Cursor) : List Token :=
  c.current :: c.rest

/-- Whether a token of this kind is none of the language. -/
def Token.Kind.isError : Kind → Bool
  | error _ => true
  | _ => false

/-- Whether a token of this kind may be taken. -/
def Token.Kind.isTakable : Kind → Bool
  | eof | error _ => false
  | _ => true

namespace Parser

open Token (Kind)

/-- Some tokens, none of them an error, are taken one after the other. -/
inductive Took : Cursor → List Token → Cursor → Prop
  | nothing (c : Cursor) : Took c [] c
  | one {c c' : Cursor} {taken : List Token} : c.rest ≠ [] → c.current.kind.isError = false →
      Took c.advance taken c' → Took c (c.current :: taken) c'

/-- The end of input is the last token that is left, and no other. -/
def Ended (c : Cursor) : Prop :=
  ∃ front last, c.tokens = front ++ [last] ∧ last.kind = .eof ∧ ∀ token ∈ front, token.kind ≠ .eof

section Tokens

variable {c c₁ c' : Cursor} {taken more : List Token}

theorem tokens_advance (goesOn : c.rest ≠ []) : c.tokens = c.current :: c.advance.tokens := by
  obtain ⟨current, _ | ⟨next, rest⟩, previous⟩ := c
  · exact absurd rfl goesOn
  · rfl

/-- The kind after the current one is that of the next token, unless there is none. -/
theorem kind_advance {kind : Kind} (second : c.second = kind) (other : c.current.kind ≠ kind) :
    c.advance.current.kind = kind := by
  obtain ⟨current, _ | ⟨next, rest⟩, previous⟩ := c
  · exact absurd second other
  · exact second

theorem Took.tokens_eq (took : Took c taken c') : c.tokens = taken ++ c'.tokens := by
  induction took with
  | nothing => rfl
  | one goesOn _ _ ih => rw [tokens_advance goesOn, ih, List.cons_append]

theorem Took.length_le (took : Took c taken c') : c'.tokens.length ≤ c.tokens.length := by
  rw [took.tokens_eq, List.length_append]
  exact Nat.le_add_left _ _

theorem Took.length_lt (took : Took c taken c') (some : taken ≠ []) :
    c'.tokens.length < c.tokens.length := by
  rw [took.tokens_eq, List.length_append]
  exact Nat.lt_add_of_pos_left (List.length_pos_iff.mpr some)

theorem Took.shorter {token : Token} (took : Took c (token :: taken) c') :
    c'.tokens.length < c.tokens.length :=
  took.length_lt (List.cons_ne_nil _ _)

theorem Took.isError_eq (took : Took c taken c') : ∀ token ∈ taken, token.kind.isError = false := by
  induction took with
  | nothing => nofun
  | one _ notError _ ih => exact List.forall_mem_cons.mpr ⟨notError, ih⟩

theorem Took.trans (first : Took c taken c₁) (second : Took c₁ more c') :
    Took c (taken ++ more) c' := by
  induction first with
  | nothing => exact second
  | one goesOn notError _ ih => exact .one goesOn notError (ih second)

theorem Ended.rest_ne_nil (ended : Ended c) (notEnd : c.current.kind ≠ .eof) : c.rest ≠ [] := by
  obtain ⟨front, last, split, isEnd, _⟩ := ended
  intro none
  rw [Cursor.tokens, none] at split
  obtain ⟨rfl, same⟩ := List.append_inj' (show [] ++ [c.current] = front ++ [last] from split) rfl
  cases same
  exact notEnd isEnd

theorem Ended.rest_eq_nil (ended : Ended c) (atEnd : c.current.kind = .eof) : c.rest = [] := by
  obtain ⟨front, last, split, _, others⟩ := ended
  cases front with
  | nil => exact (List.cons.inj split).2
  | cons first front =>
    obtain ⟨rfl, _⟩ := List.cons.inj split
    exact absurd atEnd (others _ (.head _))

theorem Ended.advance (ended : Ended c) (goesOn : c.rest ≠ []) : Ended c.advance := by
  obtain ⟨front, last, split, isEnd, others⟩ := ended
  rw [tokens_advance goesOn] at split
  cases front with
  | nil => cases split
  | cons first front =>
    exact ⟨front, last, (List.cons.inj split).2, isEnd,
      fun token member => others token (.tail _ member)⟩

theorem Ended.after (ended : Ended c) (took : Took c taken c') : Ended c' := by
  induction took with
  | nothing => exact ended
  | one goesOn _ _ ih => exact ih (ended.advance goesOn)

/-- Taking statement ends stops before the first token that is none. -/
theorem took_skipTerms (ended : Ended c) :
    ∃ taken, Took c taken (Cursor.skipTerms c.previous c.current c.rest) ∧
      (∀ token ∈ taken, token.kind = .term) ∧
      (Cursor.skipTerms c.previous c.current c.rest).current.kind ≠ .term := by
  obtain ⟨current, rest, previous⟩ := c
  induction rest generalizing current previous with
  | nil =>
    refine ⟨[], .nothing _, nofun, fun isTerm => ?_⟩
    exact absurd rfl (ended.rest_ne_nil (by rw [show current.kind = .term from isTerm]; nofun))
  | cons next rest ih =>
    by_cases isTerm : current.kind = .term
    · obtain ⟨taken, took, areTerms, stops⟩ := ih next current.span (ended.advance nofun)
      refine ⟨current :: taken, ?_, List.forall_mem_cons.mpr ⟨isTerm, areTerms⟩, ?_⟩
      · rw [Cursor.skipTerms, if_pos isTerm]
        exact .one nofun (by rw [show current.kind = .term from isTerm]; rfl) took
      · rw [Cursor.skipTerms, if_pos isTerm]
        exact stops
    · rw [Cursor.skipTerms, if_neg isTerm]
      exact ⟨[], .nothing _, nofun, isTerm⟩

end Tokens

variable {α β : Type}

/-- A refusal of a token that was still to be read, since something else was expected there. -/
def Refuses (c : Cursor) (failure : Failure) : Prop :=
  (∃ what, failure.cause = .expected what) ∧ failure.token ∈ c.tokens

/-- What a production does before the end of input: it takes tokens and gives a result, or refuses
one. -/
def Meets (p : Parser α) (post : List Token → α → Cursor → Prop) (c : Cursor) : Prop :=
  Ended c → match p c with
    | .ok (a, c') => ∃ taken, Took c taken c' ∧ post taken a c'
    | .error failure => Refuses c failure

namespace Meets

variable {post : List Token → α → Cursor → Prop} {post' : List Token → β → Cursor → Prop}
variable {c : Cursor} {p : Parser α} {kind : Kind}

theorem pure {a : α} (holds : post [] a c) : Meets (Pure.pure a) post c :=
  fun _ => ⟨[], .nothing c, holds⟩

theorem bind {f : α → Parser β} (first : Meets p post c)
    (rest : ∀ taken a c₁, Took c taken c₁ → post taken a c₁ →
      Meets (f a) (fun more => post' (taken ++ more)) c₁) : Meets (p >>= f) post' c := by
  intro ended
  have parsed := first ended
  show match StateT.bind p f c with
    | .ok (b, c') => ∃ taken, Took c taken c' ∧ post' taken b c'
    | .error failure => Refuses c failure
  unfold StateT.bind
  cases run : p c with
  | error failure =>
    rw [run] at parsed
    exact parsed
  | ok result =>
    obtain ⟨a, c₁⟩ := result
    rw [run] at parsed
    obtain ⟨taken, took, holds⟩ := parsed
    have continued := rest taken a c₁ took holds (ended.after took)
    show match f a c₁ with
      | .ok (b, c') => ∃ taken, Took c taken c' ∧ post' taken b c'
      | .error failure => Refuses c failure
    cases run' : f a c₁ with
    | error failure =>
      rw [run'] at continued
      refine ⟨continued.1, ?_⟩
      rw [took.tokens_eq]
      exact List.mem_append_right _ continued.2
    | ok result' =>
      rw [run'] at continued
      obtain ⟨more, took', holds'⟩ := continued
      exact ⟨taken ++ more, took.trans took', holds'⟩

theorem weaken {post' : List Token → α → Cursor → Prop} (meets : Meets p post c)
    (weaker : ∀ taken a c', Took c taken c' → post taken a c' → post' taken a c') :
    Meets p post' c := by
  intro ended
  have parsed := meets ended
  cases run : p c with
  | error failure =>
    rw [run] at parsed
    exact parsed
  | ok result =>
    rw [run] at parsed
    obtain ⟨taken, took, holds⟩ := parsed
    exact ⟨taken, took, weaker taken _ _ took holds⟩

theorem fail (what : String) : Meets (Parser.fail what) post c :=
  fun _ => ⟨⟨what, rfl⟩, .head _⟩

theorem ite {condition : Prop} [Decidable condition] {q : Parser α}
    (yes : condition → Meets p post c) (no : ¬ condition → Meets q post c) :
    Meets (if condition then p else q) post c := by
  split
  next holds => exact yes holds
  next holds => exact no holds

section Looking

variable {f : Kind → Parser α} {g : Bool → Parser α} {q : Parser α}

theorem get {f : Cursor → Parser α} (rest : Meets (f c) post c) :
    Meets (MonadState.get >>= f) post c := rest

theorem peek (rest : Meets (f c.current.kind) post c) : Meets (Parser.peek >>= f) post c := rest

theorem tagFrom {f : Span → Parser α} (start : Span) (rest : ∀ span, Meets (f span) post c) :
    Meets (Parser.tagFrom start >>= f) post c := rest _

theorem tag {f : Span → Parser α} {start : Span} (rest : Meets (f start) post c) :
    Meets (Parser.Tagging.tag start >>= f) post c := rest

theorem missing {f : Tree → Parser α} (rest : ∀ span, Meets (f (.leaf span .unit)) post c) :
    Meets (Parser.missing >>= f) post c := rest _

/-- Whether the current token has a kind decides how to go on. -/
theorem sees (kind : Kind) (rest : Meets (g (decide (c.current.kind = kind))) post c) :
    Meets (Parser.sees kind >>= g) post c := rest

theorem ifSees (kind : Kind) (present : c.current.kind = kind → Meets p post c)
    (absent : c.current.kind ≠ kind → Meets q post c) :
    Meets (Parser.sees kind >>= fun seen => if seen = true then p else q) post c :=
  .sees kind (.ite (fun seen => present (of_decide_eq_true seen))
    fun unseen => absent (by simpa using unseen))

theorem ifSeesEither (one other : Kind)
    (either : c.current.kind = one ∨ c.current.kind = other → Meets p post c)
    (neither : Meets q post c) :
    Meets (Parser.sees one >>= fun seen => Parser.sees other >>= fun seen' =>
      if (seen || seen') = true then p else q) post c :=
  .sees one (.sees other (.ite (fun seen => either (by simpa using seen)) fun _ => neither))

end Looking

end Meets

section Taking

variable {c : Cursor} {kind : Kind}

theorem Ended.took_one (ended : Ended c) (takable : c.current.kind.isTakable = true) :
    Took c [c.current] c.advance := by
  have notEnd : c.current.kind ≠ .eof := by
    intro atEnd
    rw [atEnd] at takable
    cases takable
  have notError : c.current.kind.isError = false := by
    cases same : c.current.kind with
    | error reason =>
      rw [same] at takable
      cases takable
    | _ => rfl
  exact .one (ended.rest_ne_nil notEnd) notError (.nothing _)

theorem meets_advance (takable : c.current.kind.isTakable = true) :
    Meets advance (fun taken span c' => taken = [c.current] ∧ span = c.current.span ∧
      c' = c.advance) c := by
  intro ended
  have took := ended.took_one takable
  obtain ⟨current, _ | ⟨next, rest⟩, previous⟩ := c
  · cases took with
    | one goesOn => exact absurd rfl goesOn
  · exact ⟨_, took, rfl, rfl, rfl⟩

theorem meets_expect (takable : kind.isTakable = true) :
    Meets (expect kind) (fun taken _ _ => ∃ token, taken = [token] ∧ token.kind = kind) c := by
  refine .ifSees kind (fun isKind => ?_) fun _ => .fail _
  refine (meets_advance (isKind ▸ takable)).weaken ?_
  rintro _ _ _ _ ⟨rfl, _⟩
  exact ⟨c.current, rfl, isKind⟩

theorem meets_skipTerms :
    Meets skipTerms (fun taken _ c' => (∀ token ∈ taken, token.kind = .term) ∧
      c'.current.kind ≠ .term) c := by
  intro ended
  obtain ⟨taken, took, areTerms, stops⟩ := took_skipTerms ended
  exact ⟨taken, took, areTerms, stops⟩

theorem meets_valueName :
    Meets valueName (fun taken name _ => ∃ token, taken = [token] ∧ token.kind = .valueId name)
      c := by
  refine .peek ?_
  cases isKind : c.current.kind with
  | valueId name =>
    refine (meets_advance (isKind ▸ rfl)).bind ?_
    rintro _ _ _ _ ⟨rfl, _⟩
    exact .pure ⟨c.current, rfl, isKind⟩
  | _ => exact .fail _

theorem meets_typeName? :
    Meets typeName? (fun taken _ _ => ∀ token ∈ taken, ∃ name, token.kind = .typeId name) c := by
  refine .peek ?_
  cases isKind : c.current.kind with
  | typeId name =>
    refine (meets_advance (isKind ▸ rfl)).bind ?_
    rintro _ _ _ _ ⟨rfl, _⟩
    exact .pure (by simp [isKind])
  | _ => exact .pure nofun

theorem merge_self (span : Span) : span.merge span = span := by
  simp [Span.merge]

theorem meets_tokenLeaf (leaf : Leaf) (takable : c.current.kind.isTakable = true) :
    Meets (tokenLeaf leaf) (fun taken tree _ => taken = [c.current] ∧
      tree = .leaf c.current.span leaf) c := by
  intro ended
  have took := ended.took_one takable
  obtain ⟨current, _ | ⟨next, rest⟩, previous⟩ := c
  · cases took with
    | one goesOn => exact absurd rfl goesOn
  · exact ⟨_, took, rfl, congrArg (Node.leaf · leaf) (merge_self current.span)⟩

end Taking

end Parser

end ScriptVM
