import Mathlib.Data.List.DropRight
import ScriptVM.Token.Lexer

/-!
Where tokens stand in the source text.

The text is the lexemes of its tokens with blanks between them: `Laid` says so of a scan that starts
after some text, and every scan is laid out like this. From it follow the facts about all tokens of
a text: places are counted in bytes, lines and columns of what stands before them, tokens do not
overlap, and nothing but blanks is left out.
-/
namespace ScriptVM

/-- The place after a text: bytes, newlines, and bytes since the last newline. -/
def Pos.past (before : List Char) : Pos where
  offset := (String.ofList before).utf8ByteSize
  line := 1 + before.count '\n'
  column := 1 + (String.ofList (before.rtakeWhile (· ≠ '\n'))).utf8ByteSize

theorem utf8ByteSize_concat (text : List Char) (c : Char) :
    (String.ofList (text ++ [c])).utf8ByteSize =
      (String.ofList text).utf8ByteSize + c.utf8Size := by
  rw [String.ofList_append, String.utf8ByteSize_append, ← String.singleton_eq_ofList,
    String.utf8ByteSize_singleton]

theorem Pos.past_concat (before : List Char) (c : Char) :
    past (before ++ [c]) = (past before).advance c := by
  by_cases newline : c = '\n'
  · subst newline
    simp only [past, advance, if_true, utf8ByteSize_concat, Nat.add_assoc]
    rw [List.rtakeWhile_concat_neg _ _ _ (by decide), List.count_append, List.count_singleton_self,
      String.ofList_nil]
    rfl
  · simp only [past, advance, if_neg newline, utf8ByteSize_concat, Nat.add_assoc]
    rw [List.rtakeWhile_concat_pos _ _ _ (by simpa using newline), utf8ByteSize_concat,
      List.count_append, List.count_singleton, if_neg (by simpa using newline), Nat.add_zero]

/-- Passing a text leads to the place after it. -/
theorem Pos.past_append (before text : List Char) :
    past (before ++ text) = (past before).after text := by
  induction text generalizing before with
  | nil => rw [List.append_nil, after_nil]
  | cons c rest ih =>
    rw [after_cons, ← past_concat, ← ih, List.append_assoc, List.singleton_append]

namespace Token

section Scanning

variable {text gap tail after : List Char} {first : Char} {context : Context}

theorem runLength_le (p : Char → Bool) (text : List Char) : runLength p text ≤ text.length :=
  (List.takeWhile_prefix p).length_le

theorem fractionLength_le (text : List Char) : fractionLength text ≤ text.length := by
  unfold fractionLength
  split
  next digit rest =>
    have := runLength_le isDigitChar rest
    split
    · simp only [List.length_cons]
      omega
    · exact Nat.zero_le _
  next => exact Nat.zero_le _

theorem exponentLength_le (text : List Char) : exponentLength text ≤ text.length := by
  unfold exponentLength
  split
  next => exact Nat.le_refl _
  next mark rest =>
    split
    · split
      next => exact Nat.zero_le _
      next c digits =>
        have := runLength_le Char.isDigit (c :: digits)
        have := runLength_le Char.isDigit digits
        simp only [List.length_cons] at *
        split
        · omega
        · split <;> omega
    · exact Nat.zero_le _

theorem numberTail_le (first : Char) (rest : List Char) : numberTail first rest ≤ rest.length := by
  unfold numberTail
  split
  next hex =>
    have := runLength_le isHexChar (rest.drop 1)
    cases rest with
    | nil => simp [isHexMark] at hex
    | cons mark digits =>
      simp only [List.drop_succ_cons, List.drop_zero, List.length_cons] at this ⊢
      omega
  next =>
    dsimp only
    have whole := runLength_le isDigitChar rest
    have fraction := fractionLength_le (rest.drop (runLength isDigitChar rest))
    have exponent := exponentLength_le (rest.drop
      (runLength isDigitChar rest + fractionLength (rest.drop (runLength isDigitChar rest))))
    rw [List.length_drop] at fraction exponent
    omega

theorem lexemeTail_le (operandBefore : Bool) (first : Char) (rest : List Char) :
    lexemeTail operandBefore first rest ≤ rest.length := by
  unfold lexemeTail
  repeat' split
  all_goals
    first
    | exact numberTail_le _ _
    | exact runLength_le _ _
    | exact Nat.zero_le _
    | skip
  next digit more _ =>
    have := numberTail_le digit more
    simp only [List.length_cons]
    omega

theorem blankLength_le (newlineIsBlank inComment : Bool) (text : List Char) :
    blankLength newlineIsBlank inComment text ≤ text.length := by
  fun_induction blankLength newlineIsBlank inComment text with
  | case1 | case3 | case6 => exact Nat.zero_le _
  | case2 | case4 | case5 =>
    rw [List.length_cons]
    omega

/-- At the end of the text, after blanks. -/
theorem scan_blank (pos : Pos)
    (measured : blankLength context.newlineIsBlank false text = text.length) :
    scan context pos text = [⟨.eof, .point (pos.after text), ""⟩] := by
  rw [scan]
  split
  next => rw [measured, List.take_length]
  next none => simp [measured] at none

/-- At a lexeme, after blanks. -/
theorem scan_token (pos : Pos)
    (gapEnds : blankLength context.newlineIsBlank false (gap ++ first :: (tail ++ after)) =
      gap.length)
    (tailEnds : lexemeTail context.operandBefore first (tail ++ after) = tail.length) :
    scan context pos (gap ++ first :: (tail ++ after)) =
      ⟨.ofLexeme first tail, ⟨pos.after gap, (pos.after gap).after (first :: tail)⟩,
          String.ofList (first :: tail)⟩ ::
        scan (context.push (.ofLexeme first tail)) ((pos.after gap).after (first :: tail))
          after := by
  rw [scan]
  split
  next none => simp [gapEnds] at none
  next found rest isRest =>
    rw [gapEnds, List.drop_left] at isRest
    cases isRest
    rw [gapEnds, tailEnds, List.take_left, List.take_left, List.drop_left]

/-- A text is blank, or it is blanks, a lexeme and the text after them. -/
theorem scan_induction {motive : Context → List Char → Prop}
    (ended : ∀ context text, blankLength context.newlineIsBlank false text = text.length →
      motive context text)
    (more : ∀ context gap first tail after,
      blankLength context.newlineIsBlank false (gap ++ first :: (tail ++ after)) = gap.length →
      lexemeTail context.operandBefore first (tail ++ after) = tail.length →
      motive (context.push (.ofLexeme first tail)) after →
      motive context (gap ++ first :: (tail ++ after))) (context : Context) (text : List Char) :
    motive context text := by
  induction context, Pos.origin, text using scan.induct with
  | case1 context pos text blanks isBlank =>
    refine ended context text (Nat.le_antisymm (blankLength_le ..) ?_)
    exact List.drop_eq_nil_iff.mp isBlank
  | case2 context pos text blanks start first rest isRest tail kind stop ih =>
    have whole : text.take blanks ++ first :: rest = text := by rw [← isRest, List.take_append_drop]
    have tailEnds : tail.length = lexemeTail context.operandBefore first rest :=
      List.length_take_of_le (lexemeTail_le ..)
    have split : tail ++ rest.drop (lexemeTail context.operandBefore first rest) = rest :=
      List.take_append_drop ..
    have gapEnds : (text.take blanks).length = blanks := List.length_take_of_le (blankLength_le ..)
    have found := more context (text.take blanks) first tail
      (rest.drop (lexemeTail context.operandBefore first rest))
    rw [split, whole, gapEnds, tailEnds] at found
    exact found rfl rfl ih

end Scanning

/-- A text of blanks, before some other text: spaces, tabs, carriage returns, comments, and newlines
where they are blank too. A comment ends at a newline, which it does not take, or with the text. -/
inductive Blank (newlines : Bool) (after : List Char) : List Char → Prop
  | nil : Blank newlines after []
  | space {c : Char} {rest : List Char} (isSpace : c = ' ' ∨ c = '\t' ∨ c = '\r')
      (more : Blank newlines after rest) : Blank newlines after (c :: rest)
  | newline {rest : List Char} (isBlank : newlines = true) (more : Blank newlines after rest) :
      Blank newlines after ('\n' :: rest)
  | comment {text rest : List Char} (oneLine : '\n' ∉ text)
      (ends : ∀ c, (rest ++ after).head? = some c → c = '\n') (more : Blank newlines after rest) :
      Blank newlines after ('#' :: (text ++ rest))

/-- The brackets still open after one more token, innermost first. A closing bracket closes the
innermost one, of whichever kind. -/
def bracketsAfter (brackets : List Bracket) (kind : Kind) : List Bracket :=
  match kind with
  | .opening bracket => bracket :: brackets
  | .closing _ => brackets.tail
  | _ => brackets

/-- The brackets still open after some tokens. -/
def stillOpen (tokens : List Token) : List Bracket :=
  tokens.foldl (fun brackets token => bracketsAfter brackets token.kind) []

/-- Newlines are blank where the innermost bracket still open is round or square. -/
def newlinesBlank (brackets : List Bracket) : Bool :=
  decide (brackets.head? = some .round ∨ brackets.head? = some .square)

/-- The place where the last of some tokens ends, or the start of the text. -/
def lastStop (tokens : List Token) : Pos :=
  tokens.foldl (fun _ token => token.span.stop) .origin

/-- Tokens are the whole of a source text but for its blanks, each where it stands. -/
structure Lossless (source : List Char) (tokens : List Token) : Prop where
  /-- The last token, and no other, is the end of input, a point at the end of the text. -/
  ends : ∃ front, tokens = front ++ [⟨.eof, .point (.past source), ""⟩] ∧
    ∀ token ∈ front, token.kind ≠ .eof
  /-- Each other token is a stretch of the text, which is not empty. -/
  lexemes : ∀ token ∈ tokens, token.kind ≠ .eof → ∃ before after,
    source = before ++ token.lexeme.toList ++ after ∧ token.lexeme ≠ "" ∧
    token.span = ⟨.past before, .past (before ++ token.lexeme.toList)⟩ ∧
    token.span.start.offset < token.span.stop.offset
  /-- Tokens are in order and do not overlap. -/
  ordered : tokens.Pairwise fun one two => one.span.stop.offset ≤ two.span.start.offset
  /-- Before each token, after the one before it, are blanks only. -/
  gaps : ∀ earlier token later, tokens = earlier ++ token :: later → ∃ before gap after,
    source = before ++ gap ++ after ∧ lastStop earlier = .past before ∧
    token.span.start = .past (before ++ gap) ∧
    Blank (newlinesBlank (stillOpen earlier)) after gap

section Gaps

variable {newlines : Bool} {gap after : List Char}

/-- Blanks of which the first may be in a comment already. -/
def BlankFrom (newlines : Bool) (after : List Char) : Bool → List Char → Prop
  | false, gap => Blank newlines after gap
  | true, gap => ∃ text rest, gap = text ++ rest ∧ '\n' ∉ text ∧
      (∀ c, (rest ++ after).head? = some c → c = '\n') ∧ Blank newlines after rest

/-- A character at which the measure stops would leave the gap short, so along the gap, as it is
measured, all is blank. -/
theorem blankFrom_of_measured {inComment : Bool}
    (measured : blankLength newlines inComment (gap ++ after) = gap.length) :
    BlankFrom newlines after inComment gap := by
  induction gap generalizing inComment with
  | nil =>
    cases inComment with
    | false => exact .nil
    | true =>
      refine ⟨[], [], rfl, by simp, fun c isFirst => ?_, .nil⟩
      obtain ⟨rest, rfl⟩ : ∃ rest, after = c :: rest := by
        simpa [List.head?_eq_some_iff] using isFirst
      by_contra other
      simp [blankLength, other] at measured
  | cons c gap ih =>
    simp only [List.cons_append, blankLength, List.length_cons] at measured
    split at measured
    next newline =>
      subst newline
      split at measured
      next isBlank =>
        have inside : BlankFrom newlines after false gap := ih (by omega)
        have rest : Blank newlines after ('\n' :: gap) := .newline isBlank inside
        cases inComment with
        | false => exact rest
        | true => exact ⟨[], _, rfl, by simp, by simp, rest⟩
      next => omega
    next notNewline =>
      split at measured
      next comment =>
        have inside : BlankFrom newlines after true gap := ih (by omega)
        obtain ⟨text, rest, rfl, oneLine, ends, blank⟩ := inside
        cases inComment with
        | false =>
          have mark : c = '#' := by simpa using comment
          subst mark
          exact .comment oneLine ends blank
        | true => exact ⟨c :: text, rest, rfl, by simp [oneLine, Ne.symm notNewline], ends, blank⟩
      next noComment =>
        split at measured
        next space =>
          have outside : inComment = false := by simp_all
          subst outside
          have inside : BlankFrom newlines after false gap := ih (by omega)
          exact .space (by simpa [or_assoc] using space) inside
        next => omega

theorem blank_of_measured (measured : blankLength newlines false (gap ++ after) = gap.length) :
    Blank newlines after gap :=
  blankFrom_of_measured measured

end Gaps

/-- The tokens of a text that stands after another, with brackets still open. -/
inductive Laid : List Bracket → List Char → List Char → List Token → Prop
  | ended {brackets : List Bracket} {before gap : List Char}
      (blank : Blank (newlinesBlank brackets) [] gap) :
      Laid brackets before gap [⟨.eof, .point (.past (before ++ gap)), ""⟩]
  | token {brackets : List Bracket} {before gap lexeme after : List Char} {kind : Kind}
      {tokens : List Token} (blank : Blank (newlinesBlank brackets) (lexeme ++ after) gap)
      (some : lexeme ≠ []) (notEnd : kind ≠ .eof)
      (more : Laid (bracketsAfter brackets kind) (before ++ gap ++ lexeme) after tokens) :
      Laid brackets before (gap ++ lexeme ++ after)
        (⟨kind, ⟨.past (before ++ gap), .past (before ++ gap ++ lexeme)⟩, String.ofList lexeme⟩ ::
          tokens)

theorem newlineIsBlank_eq (context : Context) :
    context.newlineIsBlank = newlinesBlank context.brackets := by
  unfold Context.newlineIsBlank newlinesBlank
  rcases context.brackets with _ | ⟨bracket, rest⟩
  · rfl
  · cases bracket <;> rfl

theorem ofLexeme_ne_eof (first : Char) (rest : List Char) : Kind.ofLexeme first rest ≠ .eof := by
  unfold Kind.ofLexeme Kind.ofName
  dsimp only
  repeat' split
  all_goals nofun

/-- Every scan is laid out like this. -/
theorem laid_scan (context : Context) (before text : List Char) :
    Laid context.brackets before text (scan context (.past before) text) := by
  induction context, text using scan_induction generalizing before with
  | ended context text measured =>
    rw [scan_blank _ measured, ← Pos.past_append]
    refine .ended (blank_of_measured ?_)
    rw [List.append_nil, ← newlineIsBlank_eq, measured]
  | more context gap first tail after gapEnds tailEnds ih =>
    rw [scan_token _ gapEnds tailEnds, ← Pos.past_append, ← Pos.past_append]
    have blank : Blank (newlinesBlank context.brackets) (first :: tail ++ after) gap := by
      rw [← newlineIsBlank_eq]
      exact blank_of_measured gapEnds
    have laid : Laid context.brackets before _ _ :=
      .token blank (by simp) (ofLexeme_ne_eof first tail) (ih _)
    rwa [List.append_assoc] at laid

section Facts

variable {brackets : List Bracket} {before text : List Char} {tokens : List Token}

theorem Laid.ends (laid : Laid brackets before text tokens) :
    ∃ front, tokens = front ++ [⟨.eof, .point (.past (before ++ text)), ""⟩] ∧
      ∀ token ∈ front, token.kind ≠ .eof := by
  induction laid with
  | ended => exact ⟨[], rfl, by simp⟩
  | @token brackets before gap lexeme after kind tokens blank some notEnd more ih =>
    obtain ⟨front, same, others⟩ := ih
    refine ⟨⟨kind, ⟨.past (before ++ gap), .past (before ++ gap ++ lexeme)⟩,
      String.ofList lexeme⟩ :: front, ?_, ?_⟩
    · rw [same]
      simp
    · simpa [notEnd] using others

theorem offset_past_append (before text : List Char) :
    (Pos.past (before ++ text)).offset =
      (Pos.past before).offset + (String.ofList text).utf8ByteSize := by
  simp only [Pos.past, String.ofList_append, String.utf8ByteSize_append]

theorem lt_offset_past {lexeme : List Char} (before : List Char) (some : lexeme ≠ []) :
    (Pos.past before).offset < (Pos.past (before ++ lexeme)).offset := by
  obtain ⟨c, rest, rfl⟩ := List.exists_cons_of_ne_nil some
  have positive := c.utf8Size_pos
  rw [offset_past_append, String.ofList_cons, String.utf8ByteSize_append,
    String.utf8ByteSize_singleton]
  omega

theorem Laid.lexemes (laid : Laid brackets before text tokens) {token : Token}
    (member : token ∈ tokens) (notEnd : token.kind ≠ .eof) : ∃ front rest,
      before ++ text = front ++ token.lexeme.toList ++ rest ∧ token.lexeme ≠ "" ∧
      token.span = ⟨.past front, .past (front ++ token.lexeme.toList)⟩ ∧
      token.span.start.offset < token.span.stop.offset := by
  induction laid with
  | ended =>
    cases List.mem_singleton.mp member
    exact absurd rfl notEnd
  | @token brackets before gap lexeme after kind tokens blank some _ more ih =>
    rcases List.mem_cons.mp member with rfl | later
    · refine ⟨before ++ gap, after, ?_, ?_, ?_, lt_offset_past _ some⟩
      · simp
      · simpa using some
      · simp
    · obtain ⟨front, rest, split, facts⟩ := ih later
      exact ⟨front, rest, by simpa using split, facts⟩

/-- Tokens start after what was read before them. -/
theorem Laid.offset_le (laid : Laid brackets before text tokens) {token : Token}
    (member : token ∈ tokens) : (Pos.past before).offset ≤ token.span.start.offset := by
  induction laid with
  | @ended brackets before gap blank =>
    cases List.mem_singleton.mp member
    show _ ≤ (Pos.past (before ++ gap)).offset
    rw [offset_past_append]
    exact Nat.le_add_right _ _
  | @token brackets before gap lexeme after kind tokens blank some notEnd more ih =>
    have fromGap := offset_past_append before gap
    rcases List.mem_cons.mp member with rfl | later
    · rw [fromGap]
      exact Nat.le_add_right _ _
    · have fromLexeme := ih later
      rw [offset_past_append, fromGap] at fromLexeme
      omega

theorem Laid.ordered (laid : Laid brackets before text tokens) :
    tokens.Pairwise fun one two => one.span.stop.offset ≤ two.span.start.offset := by
  induction laid with
  | ended => exact List.pairwise_singleton _ _
  | token blank some notEnd more ih =>
    exact List.pairwise_cons.mpr ⟨fun other member => more.offset_le member, ih⟩

theorem Laid.gaps (laid : Laid brackets before text tokens) {earlier later : List Token}
    {token : Token} (split : tokens = earlier ++ token :: later) : ∃ front gap rest,
      before ++ text = front ++ gap ++ rest ∧
      earlier.foldl (fun _ token => token.span.stop) (.past before) = .past front ∧
      token.span.start = .past (front ++ gap) ∧
      Blank (newlinesBlank
        (earlier.foldl (fun brackets token => bracketsAfter brackets token.kind) brackets)) rest
        gap := by
  induction laid generalizing earlier with
  | @ended brackets before gap blank =>
    cases earlier with
    | nil =>
      cases split
      exact ⟨before, gap, [], by simp, rfl, rfl, blank⟩
    | cons first earlier => simp at split
  | @token brackets before gap lexeme after kind tokens blank some notEnd more ih =>
    cases earlier with
    | nil =>
      cases split
      exact ⟨before, gap, lexeme ++ after, by simp, rfl, rfl, blank⟩
    | cons first earlier =>
      obtain ⟨rfl, inRest⟩ := List.cons.inj split
      obtain ⟨front, gap', rest, whole, facts⟩ := ih inRest
      exact ⟨front, gap', rest, by simpa using whole, facts⟩

end Facts

/-- Nothing is lost when a source text is read as tokens. -/
theorem tokenize_lossless (source : String) : Lossless source.toList (tokenize source) := by
  have laid : Laid [] [] source.toList (tokenize source) := laid_scan .initial [] source.toList
  exact ⟨laid.ends, fun token => laid.lexemes, laid.ordered, fun earlier token later => laid.gaps⟩

end Token

end ScriptVM
