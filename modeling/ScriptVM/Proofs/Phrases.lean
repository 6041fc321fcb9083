import ScriptVM.Proofs.Reading

/-!
How the phrases of the grammar are read.

A phrase is read by its own production, where what comes after cannot go on with it: an operand
before an operator or an end, a branch without its other half before anything but the word that
begins one, statements before what ends them. `Read` says so for every phrase; each way to write an
expression is one lemma about its production.
-/
namespace ScriptVM

open Token (Kind)
open Grammar (Phrase Writes)

namespace Parser

variable {kinds kinds' kinds'' after : List Kind} {kind : Kind} {fuel least : Nat} {guarded : Bool}
  {node left right pred no : Node Unit} {nodes body args : List (Node Unit)} {op name : String}
  {next : Kind → Bool}

section FirstTokens

theorem begins_braces (written : Writes (.braces body) kinds) :
    Begins (only (.opening .curly)) kinds := by
  cases written
  exact .cons _ _ rfl

theorem begins_brackets (written : Writes (.brackets node) kinds) :
    Begins (only (.opening .round)) kinds := by
  cases written <;> exact .cons _ _ rfl

theorem begins_conditional (written : Writes (.conditional node) kinds) :
    Begins (only (.word .cond)) kinds := by
  cases written <;> exact .cons _ _ rfl

theorem begins_expression (written : Writes (.expression node) kinds) :
    Begins startsOperand kinds := by
  cases written with
  | symbol notMinus => exact .cons _ _ (by simpa [startsOperand] using notMinus)
  | bracketed itself => exact (begins_brackets itself).of_only rfl
  | block inside => exact (begins_braces inside).of_only rfl
  | branch whole => exact (begins_conditional whole).of_only rfl
  | _ => exact .cons _ _ rfl

/-- No expression begins as an assignment does. -/
theorem not_expression_assign {rest : List Kind} :
    ¬ Writes (.expression node) (.valueId name :: .assign :: rest) := by
  intro written
  cases written with
  | bracketed itself =>
    obtain ⟨rest, same⟩ := (begins_brackets itself).only
    cases same
  | block inside =>
    obtain ⟨rest, same⟩ := (begins_braces inside).only
    cases same
  | branch whole =>
    obtain ⟨rest, same⟩ := (begins_conditional whole).only
    cases same

theorem begins_statement (written : Writes (.statement node) kinds) :
    Begins startsStatement kinds := by
  cases written with
  | evaluate itself => exact (begins_expression itself).weaken startsStatement_of_startsOperand
  | announce mutability | declare mutability | declareBlock mutability =>
    cases mutability <;> exact .cons _ _ rfl
  | _ => exact .cons _ _ rfl

theorem begins_others (written : Writes (.others nodes) kinds) :
    kinds = [] ∨ Begins (only .comma) kinds := by
  cases written with
  | noOthers => exact .inl rfl
  | moreOthers => exact .inr (.cons _ _ rfl)

end FirstTokens

/-- What may end statements. -/
def Terminates (kind : Kind) : Prop :=
  endsExpression kind = true ∧ kind ≠ .term

/-- Statements are read whether or not the ends in front of them have been taken. -/
structure ReadStatements (nodes : List (Node Unit)) (kinds : List Kind) : Prop where
  starts : ∀ first rest, trimmed kinds = first :: rest → startsStatement first = true
  taken : ∀ terminator, Terminates terminator →
    Takes (statements · terminator) 0 (Are nodes) (only terminator) (trimmed kinds)

/-- How a phrase is read. A production that others enter with the same tokens left can spare what
they use. -/
def Read : Phrase → List Kind → Prop
  | .expression node, kinds => Takes (primary · false) 4 (Is node) endsOperand kinds
  | .statement node, kinds => Takes statement 1 (Is node) endsExpression kinds
  | .statements nodes, kinds => ReadStatements nodes kinds
  | .brackets node, kinds => Takes parenthesized 5 (Is node) anything kinds
  | .braces body, kinds => Takes block 5 (Is (.block () body)) anything kinds
  | .guard node, kinds => Takes (binary · 1 true) 2 (Is node) endsOperation kinds
  | .conditional node, kinds => Takes conditional 5 (Is node) (but (.word .otherwise)) kinds
  | .alternative node, kinds => Takes alternative 4 (Is node) (but (.word .otherwise)) kinds
  | .elements nodes, kinds => ∀ bracket,
      Takes (sequence · (.closing bracket)) 1 (Are nodes) (only (.closing bracket)) kinds
  | .others nodes, kinds => Takes tupleRest 1 (Are nodes) (only (.closing .round)) kinds
  | .parameters nodes, kinds => Takes parameters 1 (Are nodes) (only (.closing .round)) kinds

section Operations

theorem level_pos (op : String) : ¬ level op < 1 := by
  unfold level
  repeat' split
  all_goals decide

theorem reads_unary (starts : Begins startsOperand kinds)
    (operand : Reads (primary fuel guarded) (Is node) kinds after) :
    Reads (unary (fuel + 1) guarded) (Is node) kinds after := by
  unfold unary
  exact .absent _ (starts.append after) rfl operand

/-- No operator follows. -/
theorem reads_binaryRest_end (ends : Begins endsOperation after) (start : Span) (tree : Tree) :
    Reads (binaryRest (fuel + 1) least guarded start tree) (· = tree) [] after := by
  obtain ⟨next, rest, rfl, ends⟩ := ends
  unfold binaryRest
  refine .peek rfl ?_
  cases next with
  | symbol => cases ends
  | _ => exact .pure rfl

/-- An operand alone is an expression at every level. -/
theorem takes_operand (starts : Begins startsOperand kinds)
    (ending : ∀ kind, next kind = true → endsOperation kind = true)
    (operand : Takes (primary · guarded) 4 (Is node) next kinds) :
    Takes (binary · least guarded) 2 (Is node) next kinds := by
  intro fuel after enough ends
  have some := List.length_pos_iff.mpr starts.ne_nil
  obtain ⟨fuel, rfl⟩ : ∃ n, fuel = n + 2 := ⟨fuel - 2, by omega⟩
  have readsOperand := reads_unary starts (operand fuel after (by omega) ends)
  show Reads (binary (fuel + 2) least guarded) _ _ _
  unfold binary
  refine .get fun c _ => .andThen readsOperand fun tree holds => ?_
  refine (reads_binaryRest_end (ends.weaken ending) c.current.span tree).weaken ?_
  rintro _ rfl
  exact holds

theorem takes_expression (starts : Begins startsOperand kinds)
    (read : Read (.expression node) kinds) :
    Takes (binary · least false) 2 (Is node) endsExpression kinds := by
  refine takes_operand starts endsOperation_of_endsExpression fun fuel after enough ends => ?_
  exact read fuel after enough (ends.weaken endsOperand_of_endsExpression)

/-- An operation in brackets is taken whole. No operator binds more loosely than brackets ask for,
and after the right operand none is left. -/
theorem takes_operation (startsLeft : Begins startsOperand kinds)
    (startsRight : Begins startsOperand kinds') (first : Read (.expression left) kinds)
    (second : Read (.expression right) kinds') :
    Takes (binary · 1 false) 2 (Is (.binary () op left right)) endsExpression
      (kinds ++ .symbol op :: kinds') := by
  refine .nested 3 (by grind) fun fuel after enough ends => ?_
  simp only [List.length_append, List.length_cons] at enough
  have readsLeft := reads_unary startsLeft
    (first (fuel + 1) (.symbol op :: (kinds' ++ after)) (by omega) (.cons _ _ rfl))
  have readsRight : Reads (binary (fuel + 1) (rightLevel op) false) (Is right) kinds' after :=
    takes_expression startsRight second _ _ (by omega) ends
  show Reads (binary (fuel + 3) 1 false) _ _ _
  unfold binary
  refine .get fun c _ => .bind readsLeft ?_
  rintro left rfl
  unfold binaryRest
  refine .peek rfl ?_
  show Reads (if level op < 1 then _ else _) _ _ _
  rw [if_neg (level_pos op)]
  refine .advance ends.ne_nil fun _ => .andThen readsRight ?_
  rintro right rfl
  refine .tagFrom _ fun span => (reads_binaryRest_end ?_ _ _).weaken ?_
  · exact ends.weaken endsOperation_of_endsExpression
  rintro _ rfl
  rfl

end Operations

section Brackets

theorem read_unit : Read (.brackets (.leaf () .unit)) [.opening .round, .closing .round] := by
  refine .nested 1 (by decide) fun fuel after _ ends => ?_
  unfold parenthesized
  refine .advance ends.ne_nil fun start => .present _ rfl ?_
  exact .advance ends.ne_nil fun _ => .spanned start fun _ => rfl

theorem read_brackets (starts : Begins startsOperand kinds)
    (inside : Takes (binary · 1 false) 2 (Is node) endsExpression kinds) :
    Read (.brackets node) (.opening .round :: (kinds ++ [.closing .round])) := by
  refine .nested 1 (by grind) fun fuel after enough ends => ?_
  simp only [List.length_append, List.length_cons, List.length_nil] at enough
  unfold parenthesized
  refine .advance ends.ne_nil fun start => .absent _ ((starts.append _).append _) rfl ?_
  refine .bind (inside _ _ (by omega) (.cons _ _ rfl)) fun tree holds => .sees _ rfl ?_
  exact .expect ends.ne_nil fun _ => .pure holds

theorem read_operation (startsLeft : Begins startsOperand kinds)
    (startsRight : Begins startsOperand kinds') (first : Read (.expression left) kinds)
    (second : Read (.expression right) kinds') :
    Read (.brackets (.binary () op left right))
      (.opening .round :: (kinds ++ .symbol op :: (kinds' ++ [.closing .round]))) := by
  have whole := read_brackets (startsLeft.append (.symbol op :: kinds'))
    (takes_operation startsLeft startsRight first second)
  rwa [List.append_assoc] at whole

theorem read_tuple (starts : Begins startsOperand kinds) (comma : Begins (only .comma) kinds')
    (first : Read (.expression node) kinds) (others : Read (.others nodes) kinds') :
    Read (.brackets (.aggregate () .tuple (node :: nodes)))
      (.opening .round :: (kinds ++ (kinds' ++ [.closing .round]))) := by
  refine .nested 1 (by grind) fun fuel after enough ends => ?_
  simp only [List.length_append, List.length_cons, List.length_nil] at enough
  unfold parenthesized
  refine .advance ends.ne_nil fun start => .absent _ ((starts.append _).append _) rfl ?_
  obtain ⟨rest, rfl⟩ := comma.only
  refine .bind (takes_expression starts first _ _ (by omega) (.cons _ _ rfl)) ?_
  rintro first rfl
  refine .present _ rfl (.bind (others _ _ (by omega) (.cons _ _ rfl)) ?_)
  rintro others rfl
  exact .expect ends.ne_nil fun _ => .spanned start fun _ => rfl

/-- A comma after the only element. -/
theorem read_lastComma : Read (.others []) [.comma] := by
  refine .nested 1 (by decide) fun fuel after enough ends => ?_
  obtain ⟨rest, rfl⟩ := ends.only
  unfold tupleRest
  exact .present _ rfl (.advance ends.ne_nil fun _ => .present _ rfl (.pure rfl))

theorem read_noOthers : Read (.others []) [] := by
  refine .nested 1 (by decide) fun fuel after enough ends => ?_
  unfold tupleRest
  exact .absent _ ends rfl (.pure rfl)

theorem read_moreOthers (starts : Begins startsOperand kinds)
    (comma : kinds' = [] ∨ Begins (only .comma) kinds') (first : Read (.expression node) kinds)
    (others : Read (.others nodes) kinds') :
    Read (.others (node :: nodes)) (.comma :: (kinds ++ kinds')) := by
  refine .nested 1 (by grind) fun fuel after enough ends => ?_
  simp only [List.length_append, List.length_cons] at enough
  have ended : Begins endsExpression (kinds' ++ after) := by
    rcases comma with rfl | comma
    · exact ends.of_only rfl
    · exact (comma.append after).of_only rfl
  unfold tupleRest
  refine .present _ rfl (.advance ends.ne_nil fun _ => ?_)
  refine .absent _ ((starts.append _).append _) rfl ?_
  refine .bind (takes_expression starts first _ _ (by omega) ended) ?_
  rintro first rfl
  refine .andThen (others _ _ (by omega) ends) ?_
  rintro others rfl
  exact .pure rfl

theorem read_noElements : Read (.elements []) [] := by
  refine fun bracket => .nested 1 (by decide) fun fuel after enough ends => ?_
  obtain ⟨rest, rfl⟩ := ends.only
  show Reads (sequence (fuel + 1) (.closing bracket)) _ _ _
  unfold sequence
  exact .present _ rfl (.pure rfl)

theorem read_oneElement (starts : Begins startsOperand kinds)
    (element : Read (.expression node) kinds) : Read (.elements [node]) kinds := by
  refine fun bracket => .nested 1 (by omega) fun fuel after enough ends => ?_
  have some := List.length_pos_iff.mpr starts.ne_nil
  have last := read_noElements bracket fuel after (by simp only [List.length_nil]; omega) ends
  obtain ⟨rest, rfl⟩ := ends.only
  show Reads (sequence (fuel + 1) (.closing bracket)) _ _ _
  unfold sequence
  refine .absent _ (starts.append _) rfl ?_
  refine .andThen (takes_expression starts element _ _ (by omega) (.cons _ _ rfl)) ?_
  rintro tree rfl
  refine .present _ rfl (.andThen last fun _ none => .pure ?_)
  exact congrArg (tree.bare :: ·) none

theorem read_moreElements (starts : Begins startsOperand kinds)
    (first : Read (.expression node) kinds) (others : Read (.elements nodes) kinds') :
    Read (.elements (node :: nodes)) (kinds ++ .comma :: kinds') := by
  refine fun bracket => .nested 1 (by omega) fun fuel after enough ends => ?_
  simp only [List.length_append, List.length_cons] at enough
  show Reads (sequence (fuel + 1) (.closing bracket)) _ _ _
  unfold sequence
  refine .absent _ ((starts.append _).append _) rfl ?_
  refine .bind (takes_expression starts first _ _ (by omega) (.cons _ _ rfl)) ?_
  rintro first rfl
  refine .sees _ rfl (.expect ends.ne_nil fun _ => .andThen (others _ _ _ (by omega) ends) ?_)
  rintro others rfl
  exact .pure rfl

end Brackets

section Expressions

/-- A leaf that is one token. -/
theorem read_leaf (read : ∀ fuel after, Begins endsOperand after →
      Reads (primary (fuel + 1) false) (Is node) [kind] after) : Read (.expression node) [kind] :=
  .nested 1 (by simp) fun fuel after _ ends => read fuel after ends

theorem read_valueId (name : String) :
    Read (.expression (.leaf () (.valueId name))) [.valueId name] := by
  refine read_leaf fun fuel after ends => ?_
  unfold primary
  refine .peek rfl (.get fun c _ => .andThen (reads_tokenLeaf ends.ne_nil _) fun callee holds => ?_)
  exact .absent _ ends rfl (.pure holds)

/-- Brackets make an operand, in a guard and outside. -/
theorem takes_bracketed (opens : Begins (only (.opening .round)) kinds)
    (read : Read (.brackets node) kinds) (guarded : Bool) :
    Takes (primary · guarded) 4 (Is node) anything kinds := by
  obtain ⟨rest, rfl⟩ := opens.only
  refine .nested 1 (by grind) fun fuel after enough ends => ?_
  show Reads (primary (fuel + 1) guarded) _ _ _
  unfold primary
  exact .peek rfl (read fuel after (by omega) ends)

theorem read_bracketed (opens : Begins (only (.opening .round)) kinds)
    (read : Read (.brackets node) kinds) : Read (.expression node) kinds := by
  intro fuel after enough ends
  exact takes_bracketed opens read false fuel after enough ends.anything

theorem read_guardInBrackets (opens : Begins (only (.opening .round)) kinds)
    (read : Read (.brackets node) kinds) : Read (.guard node) kinds := by
  refine takes_operand (opens.of_only rfl) (fun _ ends => ends) fun fuel after enough ends => ?_
  exact takes_bracketed opens read true fuel after enough ends.anything

theorem read_list (inside : Read (.elements nodes) kinds) :
    Read (.expression (.aggregate () .list nodes))
      (.opening .square :: (kinds ++ [.closing .square])) := by
  refine .nested 1 (by grind) fun fuel after enough ends => ?_
  simp only [List.length_append, List.length_cons, List.length_nil] at enough
  unfold primary
  refine .peek rfl (.advance ends.ne_nil fun start => ?_)
  refine .bind (inside .square _ _ (by omega) (.cons _ _ rfl)) ?_
  rintro elements rfl
  exact .expect ends.ne_nil fun _ => .spanned start fun _ => rfl

/-- A name before a round bracket is called. -/
theorem reads_callee (rest : ∀ start callee, Is (.leaf () (.valueId name)) callee →
      Reads (call fuel false start callee) (Is node) (.opening .round :: kinds) after) :
    Reads (primary (fuel + 1) false) (Is node) (.valueId name :: .opening .round :: kinds)
      after := by
  have callee : Reads (tokenLeaf (.valueId name)) (Is (.leaf () (.valueId name))) [.valueId name]
      (.opening .round :: kinds ++ after) := reads_tokenLeaf (by simp) _
  unfold primary
  refine .peek rfl (.get fun c _ => callee.bind fun callee isName => .present _ rfl ?_)
  exact rest _ callee isName

theorem read_call (inside : Read (.elements args) kinds) :
    Read (.expression (.call () (.leaf () (.valueId name)) args none))
      (.valueId name :: .opening .round :: (kinds ++ [.closing .round])) := by
  refine .nested 2 (by grind) fun fuel after enough ends => ?_
  simp only [List.length_append, List.length_cons, List.length_nil] at enough
  refine reads_callee fun start callee isName => ?_
  unfold call
  refine .expect ends.ne_nil fun _ => ?_
  refine .bind (inside .round _ _ (by omega) (.cons _ _ rfl)) ?_
  rintro args rfl
  refine .expect ends.ne_nil fun _ => .absent _ ends rfl (.spanned start fun _ => ?_)
  exact congrArg (Node.call () · _ none) isName

theorem read_callWithBlock (opens : Begins (only (.opening .curly)) kinds')
    (inside : Read (.elements args) kinds) (trailing : Read (.braces body) kinds') :
    Read (.expression (.call () (.leaf () (.valueId name)) args (some (.block () body))))
      (.valueId name :: .opening .round :: (kinds ++ .closing .round :: kinds')) := by
  refine .nested 2 (by grind) fun fuel after enough ends => ?_
  simp only [List.length_append, List.length_cons] at enough
  obtain ⟨rest, rfl⟩ := opens.only
  refine reads_callee fun start callee isName => ?_
  unfold call
  refine .expect ends.ne_nil fun _ => ?_
  refine .bind (inside .round _ _ (by omega) (.cons _ _ rfl)) ?_
  rintro args rfl
  refine .expect ends.ne_nil fun _ => .present _ rfl ?_
  refine .andThen (trailing _ _ (by omega) ends.anything) fun tree isBlock => ?_
  refine .spanned start fun _ => ?_
  exact congr (congrArg (Node.call () · _ <| some ·) isName) isBlock

theorem read_block (opens : Begins (only (.opening .curly)) kinds)
    (inside : Read (.braces body) kinds) : Read (.expression (.block () body)) kinds := by
  obtain ⟨rest, rfl⟩ := opens.only
  refine .nested 1 (by grind) fun fuel after enough ends => ?_
  unfold primary
  exact .peek rfl (inside fuel after (by omega) ends.anything)

theorem read_branch (opens : Begins (only (.word .cond)) kinds)
    (whole : Read (.conditional node) kinds) : Read (.expression node) kinds := by
  obtain ⟨rest, rfl⟩ := opens.only
  refine .nested 1 (by grind) fun fuel after enough ends => ?_
  unfold primary
  exact .peek rfl (whole fuel after (by omega) (ends.but rfl))

theorem read_loop (opens : Begins (only (.opening .curly)) kinds')
    (guard : Read (.guard pred) kinds) (inside : Read (.braces body) kinds') :
    Read (.expression (.loop () pred (.block () body))) (.word .loop :: (kinds ++ kinds')) := by
  refine .nested 2 (by grind) fun fuel after enough ends => ?_
  simp only [List.length_append, List.length_cons] at enough
  obtain ⟨rest, rfl⟩ := opens.only
  show Reads (primary (fuel + 2) false) _ _ _
  unfold primary
  refine .peek rfl ?_
  show Reads (whileLoop (fuel + 1)) _ _ _
  unfold whileLoop
  refine .advance ends.ne_nil fun start => .bind (guard _ _ (by omega) (.cons _ _ rfl)) ?_
  rintro pred rfl
  refine .andThen (inside _ _ (by omega) ends.anything) fun tree isBlock => ?_
  exact .spanned start fun _ => congrArg (Node.loop () pred.bare) isBlock

end Expressions

section Branches

theorem read_oneWay (opens : Begins (only (.opening .curly)) kinds')
    (guard : Read (.guard pred) kinds) (inside : Read (.braces body) kinds') :
    Read (.conditional (.branch () pred (.block () body) (.leaf () .unit)))
      (.word .cond :: (kinds ++ kinds')) := by
  refine .nested 1 (by grind) fun fuel after enough ends => ?_
  simp only [List.length_append, List.length_cons] at enough
  obtain ⟨rest, rfl⟩ := opens.only
  unfold conditional
  refine .advance ends.ne_nil fun start => .bind (guard _ _ (by omega) (.cons _ _ rfl)) ?_
  rintro pred rfl
  refine .andThen (inside _ _ (by omega) ends.anything) fun yes isYes => ?_
  refine .absent _ ends rfl (.andThen reads_missing fun no isNo => .spanned start fun _ => ?_)
  exact congr (congrArg (Node.branch () pred.bare) isYes) isNo

theorem read_twoWays (opens : Begins (only (.opening .curly)) kinds')
    (guard : Read (.guard pred) kinds) (inside : Read (.braces body) kinds')
    (other : Read (.alternative no) kinds'') :
    Read (.conditional (.branch () pred (.block () body) no))
      (.word .cond :: (kinds ++ (kinds' ++ .word .otherwise :: kinds''))) := by
  refine .nested 1 (by grind) fun fuel after enough ends => ?_
  simp only [List.length_append, List.length_cons] at enough
  obtain ⟨rest, rfl⟩ := opens.only
  unfold conditional
  refine .advance ends.ne_nil fun start => .bind (guard _ _ (by omega) (.cons _ _ rfl)) ?_
  rintro pred rfl
  refine .bind (inside _ _ (by omega) (.cons _ _ rfl)) fun yes isYes => .present _ rfl ?_
  refine .advance ends.ne_nil fun _ => .andThen (other _ _ (by omega) ends) fun no isNo => ?_
  exact .spanned start fun _ => congr (congrArg (Node.branch () pred.bare) isYes) isNo

theorem read_otherBlock (opens : Begins (only (.opening .curly)) kinds)
    (inside : Read (.braces body) kinds) : Read (.alternative (.block () body)) kinds := by
  obtain ⟨rest, rfl⟩ := opens.only
  refine .nested 1 (by grind) fun fuel after enough ends => ?_
  unfold alternative
  exact .absent _ (opens.append _) rfl (inside fuel after (by omega) ends.anything)

theorem read_otherBranch (opens : Begins (only (.word .cond)) kinds)
    (whole : Read (.conditional node) kinds) : Read (.alternative node) kinds := by
  obtain ⟨rest, rfl⟩ := opens.only
  refine .nested 1 (by grind) fun fuel after enough ends => ?_
  unfold alternative
  exact .present _ rfl (whole fuel after (by omega) ends)

end Branches

end Parser

end ScriptVM
