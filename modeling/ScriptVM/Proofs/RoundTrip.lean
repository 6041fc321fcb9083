import ScriptVM.Proofs.Phrases

/-!
Reading a written tree gives the tree back.

Each way to write a statement is one lemma about its production, and that every phrase is read as it
is written follows by induction on how it is written. So a module of statements, in whatever way it
is written, is read as itself.
-/
namespace ScriptVM

open Token (Kind)
open Grammar (Phrase Writes WritesModule typed declarator)

namespace Parser

variable {kinds kinds' after : List Kind} {kind : Kind} {fuel : Nat} {node : Node Unit}
  {nodes body params : List (Node Unit)} {name anonymous : String}

section Statements

theorem read_noParameters : Read (.parameters []) [] := by
  refine .nested 1 (by decide) fun fuel after enough ends => ?_
  obtain ⟨rest, rfl⟩ := ends.only
  unfold parameters
  exact .present _ rfl (.pure rfl)

theorem read_oneParameter (name : String) (type : Option String) :
    Read (.parameters [.param () name type]) (.valueId name :: typed type) := by
  refine .nested 1 (by grind) fun fuel after enough ends => ?_
  simp only [List.length_cons] at enough
  have last := read_noParameters fuel after (by simp only [List.length_nil]; omega) ends
  obtain ⟨rest, rfl⟩ := ends.only
  have named : Reads valueName (· = name) [.valueId name] (typed type ++ .closing .round :: rest) :=
    reads_valueName (by simp) name
  unfold parameters
  refine .sees _ rfl (.get fun c _ => named.bind ?_)
  rintro _ rfl
  refine .andThen (reads_typeName? type (.cons _ _ rfl)) ?_
  rintro _ rfl
  refine .tagFrom _ fun span => .present _ rfl (.andThen last fun _ none => .pure ?_)
  exact congrArg (Node.param () _ _ :: ·) none

theorem read_moreParameters (name : String) (type : Option String)
    (others : Read (.parameters nodes) kinds) :
    Read (.parameters (.param () name type :: nodes))
      (.valueId name :: (typed type ++ .comma :: kinds)) := by
  refine .nested 1 (by grind) fun fuel after enough ends => ?_
  simp only [List.length_append, List.length_cons] at enough
  have named : Reads valueName (· = name) [.valueId name]
      (typed type ++ .comma :: kinds ++ after) := reads_valueName (by simp) name
  unfold parameters
  refine .sees _ rfl (.get fun c _ => named.bind ?_)
  rintro _ rfl
  refine .bind (reads_typeName? type (.cons _ _ rfl)) ?_
  rintro _ rfl
  refine .tagFrom _ fun span => .sees _ rfl (.expect ends.ne_nil fun _ => ?_)
  refine .andThen (others _ _ (by omega) ends) ?_
  rintro others rfl
  exact .pure rfl

/-- A declaration, whatever its value is. -/
theorem reads_declaration (mutability : Mutability) (name : String) (type : Option String)
    (ends : Begins endsName (kinds ++ after)) (goesOn : after ≠ [])
    (value : ∀ start, Reads (do
        let value ←
          match ← peek with
          | .assign => do
            let _ ← advance
            binary fuel 1 false
          | .opening .curly => block fuel
          | _ => missing
        return .declare (← tagFrom start) mutability name type value) (Is node) kinds after) :
    Reads (statement (fuel + 2)) (Is node)
      (.word (declarator mutability) :: .valueId name :: (typed type ++ kinds)) after := by
  have named : Reads valueName (· = name) [.valueId name] (typed type ++ kinds ++ after) :=
    reads_valueName (by simp [goesOn]) name
  have declared : Reads (declaration (fuel + 1) mutability) (Is node)
      (.word (declarator mutability) :: .valueId name :: (typed type ++ kinds)) after := by
    unfold declaration
    refine .advance goesOn fun start => named.bind ?_
    rintro _ rfl
    refine .bind (reads_typeName? type ends) ?_
    rintro _ rfl
    exact value start
  unfold statement
  cases mutability <;> exact .peek rfl declared

theorem read_announce (mutability : Mutability) (name : String) (type : Option String) :
    Read (.statement (.declare () mutability name type (.leaf () .unit)))
      (.word (declarator mutability) :: .valueId name :: typed type) := by
  refine .nested 2 (by grind) fun fuel after enough ends => ?_
  simp only [List.length_cons] at enough
  have declared : Reads (statement (fuel + 2))
      (Is (.declare () mutability name type (.leaf () .unit)))
      (.word (declarator mutability) :: .valueId name :: (typed type ++ [])) after := by
    refine reads_declaration mutability name type (ends.weaken endsName_of_endsExpression)
      ends.ne_nil fun start => ?_
    obtain ⟨next, rest, rfl, ends⟩ := ends
    refine .peek rfl ?_
    cases next with
    | assign | opening => cases ends
    | _ => exact .andThen reads_missing fun _ isUnit => .spanned start fun _ =>
        congrArg (Node.declare () mutability name type) isUnit
  rwa [List.append_nil] at declared

theorem read_declare (mutability : Mutability) (name : String) (type : Option String)
    (starts : Begins startsOperand kinds) (inside : Read (.expression node) kinds) :
    Read (.statement (.declare () mutability name type node))
      (.word (declarator mutability) :: .valueId name :: (typed type ++ .assign :: kinds)) := by
  refine .nested 2 (by grind) fun fuel after enough ends => ?_
  simp only [List.length_cons, List.length_append] at enough
  refine reads_declaration mutability name type (.cons _ _ rfl) ends.ne_nil fun start => ?_
  refine .peek rfl (.advance ends.ne_nil fun _ => ?_)
  refine .andThen (takes_expression starts inside _ _ (by omega) ends) fun tree isValue => ?_
  exact .spanned start fun _ => congrArg (Node.declare () mutability name type) isValue

theorem read_declareBlock (mutability : Mutability) (name : String) (type : Option String)
    (opens : Begins (only (.opening .curly)) kinds) (inside : Read (.braces body) kinds) :
    Read (.statement (.declare () mutability name type (.block () body)))
      (.word (declarator mutability) :: .valueId name :: (typed type ++ kinds)) := by
  refine .nested 2 (by grind) fun fuel after enough ends => ?_
  simp only [List.length_cons, List.length_append] at enough
  obtain ⟨rest, rfl⟩ := opens.only
  refine reads_declaration mutability name type (.cons _ _ rfl) ends.ne_nil fun start => ?_
  refine .peek rfl (.andThen (inside _ _ (by omega) ends.anything) ?_)
  exact fun tree isBlock => .spanned start fun _ =>
    congrArg (Node.declare () mutability name type) isBlock

theorem read_define (name : String) (type : Option String)
    (opens : Begins (only (.opening .curly)) kinds') (heading : Read (.parameters params) kinds)
    (inside : Read (.braces body) kinds') :
    Read (.statement (.define () name params (.block () body) type))
      (.word .define :: .valueId name :: .opening .round ::
        (kinds ++ .closing .round :: (typed type ++ kinds'))) := by
  refine .nested 2 (by grind) fun fuel after enough ends => ?_
  simp only [List.length_cons, List.length_append] at enough
  obtain ⟨rest, rfl⟩ := opens.only
  have named : Reads valueName (· = name) [.valueId name] (.opening .round ::
      (kinds ++ .closing .round :: (typed type ++ .opening .curly :: rest)) ++ after) :=
    reads_valueName (by simp) name
  unfold statement
  refine .peek rfl ?_
  show Reads (function (fuel + 1)) _ _ _
  unfold function
  refine .advance ends.ne_nil fun start => named.bind ?_
  rintro _ rfl
  refine .expect ends.ne_nil fun _ => .bind (heading _ _ (by omega) (.cons _ _ rfl)) ?_
  rintro params rfl
  refine .expect ends.ne_nil fun _ => .bind (reads_typeName? type (.cons _ _ rfl)) ?_
  rintro _ rfl
  refine .andThen (inside _ _ (by omega) ends.anything) fun tree isBlock => ?_
  exact .spanned start fun _ => congrArg (Node.define () _ _ · _) isBlock

theorem read_orElse (other : Read (.alternative node) kinds) :
    Read (.statement (.orElse () node)) (.word .otherwise :: kinds) := by
  refine .nested 1 (by grind) fun fuel after enough ends => ?_
  simp only [List.length_cons] at enough
  unfold statement
  refine .peek rfl (.advance ends.ne_nil fun start => ?_)
  refine .andThen (other _ _ (by omega) (ends.but rfl)) fun tree isOther => ?_
  exact .spanned start fun _ => congrArg (Node.orElse ()) isOther

/-- The second token decides between an assignment and an expression. -/
theorem second_eq {c : Cursor} {first second : Kind} {more : List Kind}
    (left : c.kinds = first :: second :: more) : c.second = second := by
  obtain ⟨current, rest, previous⟩ := c
  cases rest with
  | nil => cases left
  | cons next rest => exact (List.cons.inj (List.cons.inj left).2).1

theorem read_assign (name : String) (starts : Begins startsOperand kinds)
    (inside : Read (.expression node) kinds) :
    Read (.statement (.assign () name node)) (.valueId name :: .assign :: kinds) := by
  refine .nested 1 (by grind) fun fuel after enough ends => ?_
  simp only [List.length_cons] at enough
  unfold statement
  refine .peek rfl (.get fun c left => ?_)
  rw [if_pos (second_eq left)]
  refine .advance ends.ne_nil fun start => .advance ends.ne_nil fun _ => ?_
  refine .andThen (takes_expression starts inside _ _ (by omega) ends) fun tree isValue => ?_
  exact .spanned start fun _ => congrArg (Node.assign () name) isValue

/-- What follows the first token of an expression does not make it an assignment. -/
theorem second_ne_assign {name : String} {rest : List Kind} {c : Cursor}
    (left : c.kinds = .valueId name :: rest ++ after)
    (written : Writes (.expression node) (.valueId name :: rest))
    (ends : Begins endsExpression after) : c.second ≠ .assign := by
  cases rest with
  | nil =>
    obtain ⟨first, rest, rfl, ends⟩ := ends
    rw [second_eq left]
    rintro rfl
    cases ends
  | cons second rest =>
    rw [second_eq left]
    rintro rfl
    exact not_expression_assign written

/-- Only a name could still begin another kind of statement, and the token after it says that it
does not. -/
theorem read_evaluate (written : Writes (.expression node) kinds)
    (read : Read (.expression node) kinds) : Read (.statement node) kinds := by
  have starts := begins_expression written
  refine .nested 1 (by omega) fun fuel after enough ends => ?_
  have evaluated : Reads (binary fuel 1 false) (Is node) kinds after :=
    takes_expression starts read _ _ (by omega) ends
  obtain ⟨first, rest, rfl, starts⟩ := starts
  unfold statement
  refine .peek rfl ?_
  cases first with
  | word keyword => cases keyword <;> first | exact evaluated | cases starts
  | valueId name =>
    refine .get fun c left => ?_
    rw [if_neg (second_ne_assign left written ends)]
    exact evaluated
  | _ => exact evaluated

theorem terminates_brace : Terminates (.closing .curly) := ⟨rfl, nofun⟩

theorem terminates_endModule : Terminates (.word .endModule) := ⟨rfl, nofun⟩

theorem terminates_eof : Terminates .eof := ⟨rfl, nofun⟩

theorem Terminates.startsStatement_eq_false (terminates : Terminates kind) :
    startsStatement kind = false := by
  obtain ⟨ends, _⟩ := terminates
  cases kind with
  | word keyword => cases keyword <;> first | rfl | cases ends
  | _ => first | rfl | cases ends

/-- Ends in front of statements make no difference. -/
theorem reads_trimmed {terminator : Kind} {post : List Tree → Prop}
    (terminates : Terminates terminator)
    (reads : Reads (statements (fuel + 1) terminator) post (trimmed kinds) (terminator :: after)) :
    Reads (statements (fuel + 1) terminator) post kinds (terminator :: after) := by
  intro c left
  have taken := reads _ (kinds_skipTerms left (.cons _ _ (decide_eq_true terminates.2)))
  unfold statements at taken ⊢
  rwa [skipTerms_bind] at taken

/-- Statements are read with the ends in front of them. -/
theorem ReadStatements.reads {terminator : Kind} (read : ReadStatements nodes kinds)
    (terminates : Terminates terminator) (enough : 8 * kinds.length + 2 ≤ fuel) :
    Reads (statements fuel terminator) (Are nodes) kinds (terminator :: after) := by
  have shorter := length_trimmed_le kinds
  have taken := read.taken terminator terminates fuel (terminator :: after) (by omega)
    (begins_only terminator after)
  cases fuel with
  | zero => omega
  | succ fuel => exact reads_trimmed terminates taken

theorem read_noStatements : Read (.statements []) [] := by
  refine ⟨nofun, fun terminator terminates => .nested 1 (by decide) fun fuel after _ ends => ?_⟩
  show Reads (statements (fuel + 1) terminator) _ _ _
  unfold statements
  refine .skipTerms (ends.of_only (decide_eq_true terminates.2)) ?_
  obtain ⟨rest, rfl⟩ := ends.only
  exact .present _ rfl (.pure rfl)

/-- A statement, its end or the end of all, and the statements after it. -/
theorem reads_firstStatement {terminator : Kind} (terminates : Terminates terminator)
    (starts : Begins startsStatement kinds) (first : Read (.statement node) kinds)
    (enough : 8 * kinds.length + 1 ≤ fuel) (ended : kinds' = [] ∨ Begins (only .term) kinds')
    (others : Reads (statements fuel terminator) (Are nodes) kinds' (terminator :: after)) :
    Reads (statements (fuel + 1) terminator) (Are (node :: nodes)) (kinds ++ kinds')
      (terminator :: after) := by
  have begins := (starts.append kinds').append (terminator :: after)
  have last : Begins (but .term) (terminator :: after) :=
    .cons _ _ (decide_eq_true terminates.2)
  have finish : ∀ tree, Is node tree → Reads (do
      return tree :: (← statements fuel terminator)) (Are (node :: nodes)) kinds'
      (terminator :: after) := by
    rintro tree rfl
    refine .andThen others ?_
    rintro trees rfl
    exact .pure rfl
  unfold statements
  refine .skipTerms last ?_
  rw [trimmed_of_begins (starts.append kinds')]
  refine .absent _ begins terminates.startsStatement_eq_false (.absent _ begins rfl ?_)
  rcases ended with rfl | isTerm
  · refine .bind (first _ _ (by omega) (.cons _ _ terminates.1)) fun tree isFirst => ?_
    exact .absent _ last rfl (.present _ rfl (finish tree isFirst))
  · obtain ⟨rest, rfl⟩ := isTerm.only
    refine .bind (first _ _ (by omega) (.cons _ _ rfl)) fun tree isFirst => ?_
    exact .present _ rfl (.sees _ rfl (finish tree isFirst))

theorem starts_of_begins (starts : Begins startsStatement kinds) (first : Kind) (rest : List Kind)
    (front : trimmed kinds = first :: rest) : startsStatement first = true := by
  rw [trimmed_of_begins starts] at front
  obtain ⟨_, _, rfl, starts⟩ := starts
  cases front
  exact starts

theorem read_emptyStatement (same : Read (.statements nodes) kinds) :
    Read (.statements nodes) (.term :: kinds) :=
  ⟨same.starts, same.taken⟩

theorem read_lastStatement (starts : Begins startsStatement kinds)
    (only : Read (.statement node) kinds) : Read (.statements [node]) kinds := by
  refine ⟨starts_of_begins starts, fun terminator terminates => ?_⟩
  rw [trimmed_of_begins starts]
  refine .nested 1 (by omega) fun fuel after enough ends => ?_
  have some := List.length_pos_iff.mpr starts.ne_nil
  obtain ⟨rest, rfl⟩ := ends.only
  have none : Reads (statements fuel terminator) (Are []) [] (terminator :: rest) :=
    read_noStatements.reads terminates (by simp only [List.length_nil]; omega)
  have last := reads_firstStatement terminates starts only (by omega) (.inl rfl) none
  rwa [List.append_nil] at last

theorem read_moreStatements (starts : Begins startsStatement kinds)
    (first : Read (.statement node) kinds) (others : Read (.statements nodes) kinds') :
    Read (.statements (node :: nodes)) (kinds ++ .term :: kinds') := by
  have begins := starts.append (.term :: kinds')
  refine ⟨starts_of_begins begins, fun terminator terminates => ?_⟩
  rw [trimmed_of_begins begins]
  refine .nested 1 (by omega) fun fuel after enough ends => ?_
  have some := List.length_pos_iff.mpr starts.ne_nil
  obtain ⟨rest, rfl⟩ := ends.only
  simp only [List.length_append, List.length_cons] at enough
  refine reads_firstStatement terminates starts first (by omega) (.inr (.cons _ _ rfl)) ?_
  exact (read_emptyStatement others).reads terminates (by simp only [List.length_cons]; omega)

theorem read_braces (inside : Read (.statements body) kinds) :
    Read (.braces body) (.opening .curly :: (kinds ++ [.closing .curly])) := by
  refine .nested 1 (by grind) fun fuel after enough ends => ?_
  simp only [List.length_append, List.length_cons, List.length_nil] at enough
  unfold block
  refine .expect ends.ne_nil fun start => .bind (inside.reads terminates_brace (by omega)) ?_
  rintro trees rfl
  exact .expect ends.ne_nil fun _ => .spanned start fun _ => rfl

end Statements

section Programs

/-- Every phrase is read as it is written. What a phrase begins with is read off how it is written;
how it is read comes by induction. -/
theorem read_of_writes {phrase : Phrase} (written : Writes phrase kinds) : Read phrase kinds := by
  induction written with
  | int | real | yes | no | typeId | symbol =>
    refine read_leaf fun fuel after ends => ?_
    unfold primary
    exact .peek rfl (reads_tokenLeaf ends.ne_nil _)
  | valueId name => exact read_valueId name
  | unit => exact read_unit
  | operation first second readFirst readSecond =>
    exact read_operation (begins_expression first) (begins_expression second) readFirst readSecond
  | single only read =>
    exact read_tuple (begins_expression only) (.cons _ _ rfl) read read_lastComma
  | tuple head tail readHead readTail =>
    cases tail with
    | moreOthers => exact read_tuple (begins_expression head) (.cons _ _ rfl) readHead readTail
  | bracketed itself read => exact read_bracketed (begins_brackets itself) read
  | list inside read => exact read_list read
  | call inside read => exact read_call read
  | callWithBlock inside trailing readInside readTrailing =>
    exact read_callWithBlock (begins_braces trailing) readInside readTrailing
  | block inside read => exact read_block (begins_braces inside) read
  | branch whole read => exact read_branch (begins_conditional whole) read
  | loop guard inside readGuard readInside =>
    exact read_loop (begins_braces inside) readGuard readInside
  | braces inside read => exact read_braces read
  | guard inside read =>
    have starts := begins_expression inside
    exact read_guardInBrackets (.cons _ _ rfl) (read_brackets starts (takes_expression starts read))
  | guardInBrackets itself read => exact read_guardInBrackets (begins_brackets itself) read
  | oneWay guard inside readGuard readInside =>
    exact read_oneWay (begins_braces inside) readGuard readInside
  | twoWays guard inside other readGuard readInside readOther =>
    exact read_twoWays (begins_braces inside) readGuard readInside readOther
  | otherBlock inside read => exact read_otherBlock (begins_braces inside) read
  | otherBranch whole read => exact read_otherBranch (begins_conditional whole) read
  | noElements => exact read_noElements
  | oneElement only read => exact read_oneElement (begins_expression only) read
  | moreElements head tail readHead readTail =>
    exact read_moreElements (begins_expression head) readHead readTail
  | noOthers => exact read_noOthers
  | moreOthers head tail readHead readTail =>
    exact read_moreOthers (begins_expression head) (begins_others tail) readHead readTail
  | noParameters => exact read_noParameters
  | oneParameter name type => exact read_oneParameter name type
  | moreParameters name type tail read => exact read_moreParameters name type read
  | evaluate itself read => exact read_evaluate itself read
  | announce mutability name type => exact read_announce mutability name type
  | declare mutability name type inside read =>
    exact read_declare mutability name type (begins_expression inside) read
  | declareBlock mutability name type inside read =>
    exact read_declareBlock mutability name type (begins_braces inside) read
  | assign name inside read => exact read_assign name (begins_expression inside) read
  | define name type heading inside readHeading readInside =>
    exact read_define name type (begins_braces inside) readHeading readInside
  | orElse other read => exact read_orElse read
  | noStatements => exact read_noStatements
  | lastStatement only read => exact read_lastStatement (begins_statement only) read
  | moreStatements head tail readHead readTail =>
    exact read_moreStatements (begins_statement head) readHead readTail
  | emptyStatement same read => exact read_emptyStatement read

theorem fuelFor_eq {c : Cursor} (left : c.kinds = kinds) : fuelFor c = 8 * (kinds.length + 1) := by
  rw [← left]
  simp only [fuelFor, Cursor.kinds, List.length_cons, List.length_map]

/-- A module between its reserved words. -/
theorem reads_module (inside : Read (.statements body) kinds')
    (named : Reads (moduleName anonymous) (· = name) kinds
      (.term :: (kinds' ++ [.word .endModule]) ++ [.eof])) :
    Reads (program anonymous) (Is (.program () name body))
      (.word .beginModule :: (kinds ++ .term :: (kinds' ++ [.word .endModule]))) [.eof] := by
  unfold program
  refine .skipTerms (.cons _ _ rfl) (.get fun start _ => .get fun c left => .present _ rfl ?_)
  have inModule : Reads (statements (fuelFor c) (.word .endModule)) (Are body) (.term :: kinds')
      [.word .endModule, .eof] := by
    refine (read_emptyStatement inside).reads terminates_endModule ?_
    rw [fuelFor_eq left, trimmed_of_ne (by simp)]
    simp only [List.length_append, List.length_cons]
    omega
  refine .advance (by simp) fun _ => named.bind ?_
  rintro _ rfl
  refine .present _ rfl (.sees _ rfl ?_)
  show Reads _ _ (.term :: kinds' ++ [.word .endModule]) _
  refine inModule.bind ?_
  rintro trees rfl
  refine .expect (by simp) fun _ => .skipTerms (.cons _ _ rfl) (.present _ rfl ?_)
  exact .spanned _ fun _ => rfl

/-- The statements of a module alone. -/
theorem reads_body (inside : Read (.statements body) kinds) :
    Reads (program anonymous) (Is (.program () anonymous body)) kinds [.eof] := by
  unfold program
  refine .skipTerms (.cons _ _ rfl) (.get fun start _ => .get fun c left => ?_)
  have enough := fuelFor_eq left
  simp only [List.length_append, List.length_cons, List.length_nil] at enough
  have front : Begins (but (.word .beginModule)) (trimmed kinds ++ [.eof]) := by
    cases same : trimmed kinds with
    | nil => exact .cons _ _ rfl
    | cons first rest =>
      refine .cons _ _ (decide_eq_true ?_)
      rintro rfl
      cases inside.starts _ _ same
  refine .absent _ front rfl ?_
  refine .andThen (inside.taken .eof terminates_eof _ _ (by omega) (.cons _ _ rfl)) ?_
  rintro trees rfl
  exact .spanned _ fun _ => rfl

/-- A module is read as it is written. -/
theorem reads_program {tree : Node Unit} (written : WritesModule anonymous tree kinds) :
    Reads (program anonymous) (Is tree) kinds [.eof] := by
  cases written with
  | @named body kinds name inside =>
    have given : Reads (moduleName anonymous) (· = name) [.valueId name]
        (.term :: (kinds ++ [.word .endModule]) ++ [.eof]) :=
      .peek rfl (.advance (by simp) fun _ => .pure rfl)
    exact reads_module (read_of_writes inside) given
  | @namedAsType body kinds name inside =>
    have given : Reads (moduleName anonymous) (· = name) [.typeId name]
        (.term :: (kinds ++ [.word .endModule]) ++ [.eof]) :=
      .peek rfl (.advance (by simp) fun _ => .pure rfl)
    exact reads_module (read_of_writes inside) given
  | @nameless body kinds inside =>
    have unnamed : Reads (moduleName anonymous) (· = anonymous) []
        (.term :: (kinds ++ [.word .endModule]) ++ [.eof]) := .peek rfl (.pure rfl)
    exact reads_module (read_of_writes inside) unnamed
  | bodyOnly inside => exact reads_body (read_of_writes inside)

theorem kinds_start {tokens : List Token} (written : tokens.map Token.kind = kinds)
    (some : kinds ≠ []) : (start tokens).kinds = kinds := by
  cases tokens with
  | nil => exact absurd written.symm some
  | cons token rest => exact written

/-- A module of statements can be written, and however it is written, reading it gives it back. -/
theorem reads_back (anonymous : String) {tree : Node Unit} (isModule : tree.IsModule) :
    (∃ kinds, WritesModule anonymous tree kinds) ∧
      ∀ kinds tokens, WritesModule anonymous tree kinds →
        tokens.map Token.kind = kinds ++ [.eof] →
        ∃ parsed next, ofTokens anonymous tokens = .ok (parsed, next) ∧ parsed.bare = tree := by
  refine ⟨Grammar.exists_writesModule anonymous isModule, fun kinds tokens written same => ?_⟩
  obtain ⟨plain, c, read, _, isTree⟩ :=
    reads_program written (start tokens) (kinds_start same (by simp))
  obtain ⟨parsed, next, dealt, rfl, _⟩ := Deals.exists_of_ok (deals_program anonymous 1) read
  refine ⟨parsed, next, ?_, (parsed.bare_map Tag.span).symm.trans isTree⟩
  show Prod.fst <$> (program anonymous : Dealing (Node Tag)) 1 (start tokens) = _
  rw [dealt]
  rfl

/-- A predicate that is a call with a block, a tuple of one element, an operator as an operand, and
the other half of the branch as a statement of its own. -/
theorem reads_back_of_split_branch :
    ∃ parsed next, ofTokens "main"
        (Token.tokenize "if (f() \x7b\x7d) \x7b(1,)\x7d; else \x7bx = (+ - ())\x7d") =
          .ok (parsed, next) ∧
      parsed.bare = .program () "main" [
        .branch () (.call () (.leaf () (.valueId "f")) [] (some (.block () [])))
          (.block () [.aggregate () .tuple [.leaf () (.int "1")]]) (.leaf () .unit),
        .orElse () (.block () [.assign () "x"
          (.binary () "-" (.leaf () (.symbolId "+")) (.leaf () .unit))])] := by
  have guard : Writes (.guard (.call () (.leaf () (.valueId "f")) [] (some (.block () [])))) _ :=
    .guard (.callWithBlock .noElements (.braces .noStatements))
  have inside : Writes (.braces [.aggregate () .tuple [.leaf () (.int "1")]]) _ :=
    .braces (.lastStatement (.evaluate (.bracketed (.single (.int "1")))))
  have assigned : Writes (.statement (.assign () "x"
      (.binary () "-" (.leaf () (.symbolId "+")) (.leaf () .unit)))) _ :=
    .assign "x" (.bracketed (.operation (.symbol (by decide)) (.bracketed .unit)))
  have written : WritesModule "main" _ _ :=
    .bodyOnly (.moreStatements (.evaluate (.branch (.oneWay guard inside)))
      (.lastStatement (.orElse (.otherBlock (.braces (.lastStatement assigned))))))
  exact (reads_back "main" (by simp [Node.IsModule, Node.WellFormedAll, Node.WellFormed,
    Node.isBlock, Node.isName, Node.isUnit])).2 _ _ written (by decide +kernel)

end Programs

end Parser

end ScriptVM
