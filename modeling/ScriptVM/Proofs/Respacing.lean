import ScriptVM.Proofs.TokenSpans

/-!
Tokens do not depend on the layout of the text.

Write the lexemes of a text again with spaces and tabs between them in place of its blanks. A lexeme
reaches as far as before: what ends it is a character that cannot belong to it, and a space or a tab
belongs to none. It starts as before, since what a lexeme starts with is no blank. A newline that was
a token is one again, because the brackets before it are the same. So the same tokens are read.
-/
namespace ScriptVM.Token

/-- A space or a tab. -/
def isSpacing (c : Char) : Bool :=
  c == ' ' || c == '\t'

/-- Lexemes written one after the other, with spaces and tabs between them. Nothing needs to stand
before the empty lexeme at the end of input. -/
inductive Respaced : List String → List Char → Prop
  | nil : Respaced [] []
  | cons {lexeme : String} {lexemes : List String} {blank text : List Char}
      (spacing : ∀ c ∈ blank, isSpacing c = true) (apart : blank = [] → text = [])
      (rest : Respaced lexemes text) :
      Respaced (lexeme :: lexemes) (lexeme.toList ++ (blank ++ text))

/-- What a token is, apart from where it stands. -/
def content (token : Token) : Kind × String :=
  (token.kind, token.lexeme)

section Fronts

variable {text after after' : List Char} {p : Char → Bool}

/-- A text that begins with no such character. -/
def Avoids (p : Char → Bool) (text : List Char) : Prop :=
  ∀ c, text.head? = some c → p c = false

/-- A text at which every lexeme before it ends. -/
def Apart (text : List Char) : Prop :=
  ∀ c, text.head? = some c → isSpacing c = true

theorem Avoids.changed (avoids : Avoids p (text ++ after)) (avoids' : Avoids p after') :
    Avoids p (text ++ after') := by
  cases text with
  | nil => exact avoids'
  | cons c text => exact avoids

theorem Apart.avoids (apart : Apart text) (space : p ' ' = false) (tab : p '\t' = false) :
    Avoids p text := by
  intro c isFirst
  have spacing : c = ' ' ∨ c = '\t' := by simpa [isSpacing] using apart c isFirst
  rcases spacing with rfl | rfl
  · exact space
  · exact tab

theorem apart_append {blank : List Char} (spacing : ∀ c ∈ blank, isSpacing c = true)
    (apart : blank = [] → text = []) : Apart (blank ++ text) := by
  intro c isFirst
  cases blank with
  | nil => simp [apart rfl] at isFirst
  | cons d blank =>
    cases isFirst
    exact spacing _ List.mem_cons_self

end Fronts

section Measures

variable {first : Char} {tail after after' : List Char} {p : Char → Bool}

theorem runLength_eq_length :
    runLength p (tail ++ after) = tail.length ↔ (∀ c ∈ tail, p c = true) ∧ Avoids p after := by
  unfold runLength
  induction tail with
  | nil =>
    cases after with
    | nil => simp [Avoids]
    | cons c after => by_cases holds : p c = true <;> simp [Avoids, holds]
  | cons c tail ih =>
    by_cases holds : p c = true
    · simp [holds, ih]
    · simp [holds]

theorem runLength_before (measured : runLength p (tail ++ after) = tail.length)
    (avoids : Avoids p after') : runLength p (tail ++ after') = tail.length :=
  runLength_eq_length.mpr ⟨(runLength_eq_length.mp measured).1, avoids⟩

/-- What a fraction starts with or goes on with. -/
def isFractionChar (c : Char) : Bool :=
  c == '.' || isDigitChar c

theorem fractionLength_cons_cons (mark digit : Char) (rest : List Char) :
    fractionLength (mark :: digit :: rest) =
      if mark = '.' ∧ digit.isDigit = true then 2 + runLength isDigitChar rest else 0 := by
  by_cases point : mark = '.'
  · subst point
    simp [fractionLength]
  · simp [fractionLength, point]

theorem fractionLength_of_avoids (avoids : Avoids isFractionChar after) :
    fractionLength after = 0 := by
  unfold fractionLength
  split
  next => exact absurd (avoids '.' rfl) (by decide)
  next => rfl

/-- A fraction is the same before a text that cannot continue it. -/
theorem fractionLength_before (measured : fractionLength (tail ++ after) = tail.length)
    (avoids : Avoids isFractionChar after') : fractionLength (tail ++ after') = tail.length := by
  match tail with
  | [] => exact fractionLength_of_avoids avoids
  | [mark] =>
    cases after with
    | nil => simp [fractionLength] at measured
    | cons digit after =>
      rw [List.singleton_append, fractionLength_cons_cons] at measured
      split at measured
      · rw [List.length_singleton] at measured
        omega
      · cases measured
  | mark :: digit :: digits =>
    simp only [List.cons_append, fractionLength_cons_cons, List.length_cons] at measured ⊢
    split at measured
    next starts =>
      have notDigit : Avoids isDigitChar after' := fun c isFirst =>
        (Bool.or_eq_false_iff.mp (avoids c isFirst)).2
      have digitsEnd : runLength isDigitChar (digits ++ after) = digits.length := by omega
      rw [if_pos starts, runLength_before digitsEnd notDigit]
      omega
    next => omega

/-- What an exponent starts with. -/
def isExponentMark (c : Char) : Bool :=
  c == 'e' || c == 'E'

theorem exponentLength_of_avoids (avoids : Avoids isExponentMark after) :
    exponentLength after = 0 := by
  cases after with
  | nil => rfl
  | cons mark rest =>
    have noMark : (mark == 'e' || mark == 'E') = false := avoids mark rfl
    simp [exponentLength, noMark]

/-- A mark alone is no exponent. -/
theorem exponentLength_ne_one (text : List Char) : exponentLength text ≠ 1 := by
  unfold exponentLength
  repeat' split
  next => nofun
  next => nofun
  next digit =>
    simp only [runLength, List.takeWhile_cons, digit, if_true, List.length_cons]
    omega
  next => omega
  next => nofun
  next => nofun

theorem mark_of_exponentLength {mark : Char} {rest : List Char}
    (some : exponentLength (mark :: rest) ≠ 0) : isExponentMark mark = true := by
  by_contra noMark
  refine some (exponentLength_of_avoids fun c isFirst => ?_)
  cases isFirst
  exact Bool.eq_false_iff.mpr noMark

/-- An exponent is the same before a space or a tab. -/
theorem exponentLength_before (measured : exponentLength (tail ++ after) = tail.length)
    (apart : Apart after') : exponentLength (tail ++ after') = tail.length := by
  have notDigit : Avoids Char.isDigit after' := apart.avoids rfl rfl
  match tail with
  | [] => exact exponentLength_of_avoids (apart.avoids rfl rfl)
  | [mark] => exact absurd measured (exponentLength_ne_one _)
  | mark :: c :: digits =>
    simp only [List.cons_append, exponentLength, List.length_cons] at measured ⊢
    split at measured
    next isMark =>
      rw [if_pos isMark]
      split at measured
      next digit =>
        have digitsEnd : runLength Char.isDigit (c :: digits ++ after) = (c :: digits).length := by
          rw [List.cons_append, List.length_cons]
          omega
        rw [if_pos digit, ← List.cons_append, runLength_before digitsEnd notDigit, List.length_cons]
        omega
      next noDigit =>
        split at measured
        next signed =>
          have digitsEnd : runLength Char.isDigit (digits ++ after) = digits.length := by omega
          cases digits with
          | nil =>
            have none : Avoids Char.isDigit after := (runLength_eq_length.mp digitsEnd).2
            cases after with
            | nil => simp at signed
            | cons d after => simp [none d rfl] at signed
          | cons d digits =>
            have signed' : ((c == '+' || c == '-') &&
                (d :: digits ++ after').head?.any Char.isDigit) = true := signed
            rw [if_neg noDigit, if_pos signed', runLength_before digitsEnd notDigit]
            omega
        next => omega
    next => omega

theorem exists_front {n : Nat} (fits : n ≤ tail.length) :
    ∃ front rest, tail = front ++ rest ∧ front.length = n :=
  ⟨tail.take n, tail.drop n, (List.take_append_drop n tail).symm, List.length_take_of_le fits⟩

/-- The characters of a decimal number after its first digit: more digits, a fraction and an
exponent, each as long as it can be. -/
theorem numberTail_decimal (decimal : isHexMark first (tail ++ after) = false) :
    numberTail first (tail ++ after) = tail.length ↔
      ∃ whole fraction exponent, tail = whole ++ (fraction ++ exponent) ∧
        runLength isDigitChar (whole ++ (fraction ++ (exponent ++ after))) = whole.length ∧
        fractionLength (fraction ++ (exponent ++ after)) = fraction.length ∧
        exponentLength (exponent ++ after) = exponent.length := by
  simp only [numberTail, decimal, Bool.false_eq_true, if_false]
  constructor
  · intro measured
    have wholeFits : runLength isDigitChar (tail ++ after) ≤ tail.length := by omega
    obtain ⟨whole, rest, rfl, wholeEnds⟩ := exists_front wholeFits
    simp only [List.append_assoc, List.length_append] at measured wholeEnds
    rw [← wholeEnds, List.drop_left] at measured
    have fractionFits : fractionLength (rest ++ after) ≤ rest.length := by omega
    obtain ⟨fraction, exponent, rfl, fractionEnds⟩ := exists_front fractionFits
    simp only [List.append_assoc, List.length_append] at measured wholeEnds fractionEnds
    rw [← fractionEnds, ← List.drop_drop, List.drop_left, List.drop_left] at measured
    exact ⟨whole, fraction, exponent, rfl, wholeEnds.symm, fractionEnds.symm, by omega⟩
  · rintro ⟨whole, fraction, exponent, rfl, wholeEnds, fractionEnds, exponentEnds⟩
    simp only [List.append_assoc, List.length_append]
    rw [wholeEnds, List.drop_left, fractionEnds, ← List.drop_drop, List.drop_left, List.drop_left,
      exponentEnds, Nat.add_assoc]

/-- A decimal number is the same before a space or a tab. -/
theorem decimal_before (decimal : isHexMark first (tail ++ after) = false)
    (decimal' : isHexMark first (tail ++ after') = false)
    (measured : numberTail first (tail ++ after) = tail.length) (apart : Apart after') :
    numberTail first (tail ++ after') = tail.length := by
  obtain ⟨whole, fraction, exponent, rfl, wholeEnds, fractionEnds, exponentEnds⟩ :=
    (numberTail_decimal decimal).mp measured
  have afterWhole : Avoids isDigitChar (fraction ++ (exponent ++ after')) := by
    have ended := (runLength_eq_length.mp wholeEnds).2
    rw [← List.append_assoc] at ended ⊢
    exact ended.changed (apart.avoids rfl rfl)
  have afterFraction : Avoids isFractionChar (exponent ++ after') := by
    cases exponent with
    | nil => exact apart.avoids rfl rfl
    | cons mark exponent =>
      have some : exponentLength (mark :: (exponent ++ after)) ≠ 0 := by
        rw [← List.cons_append, exponentEnds]
        exact Nat.succ_ne_zero _
      have isMark : mark = 'e' ∨ mark = 'E' := by
        simpa [isExponentMark] using mark_of_exponentLength some
      intro c isFirst
      cases isFirst
      rcases isMark with rfl | rfl <;> rfl
  exact (numberTail_decimal decimal').mpr ⟨whole, fraction, exponent, rfl,
    runLength_before wholeEnds afterWhole, fractionLength_before fractionEnds afterFraction,
    exponentLength_before exponentEnds apart⟩

/-- A number is the same before a space or a tab. -/
theorem numberTail_before (measured : numberTail first (tail ++ after) = tail.length)
    (apart : Apart after') : numberTail first (tail ++ after') = tail.length := by
  cases tail with
  | nil =>
    have decimal : isHexMark first after = false := by
      rw [Bool.eq_false_iff]
      intro hex
      rw [List.nil_append, numberTail, if_pos hex, List.length_nil] at measured
      omega
    have noMark : Avoids (fun c => c == 'x' || c == 'X') after' := apart.avoids rfl rfl
    have decimal' : isHexMark first after' = false := by
      cases after' with
      | nil => simp [isHexMark]
      | cons c after' =>
        have other := noMark c rfl
        simp only [isHexMark, List.head?_cons, Option.any_some, other, Bool.and_false]
    exact decimal_before decimal decimal' measured apart
  | cons c tail =>
    have sameMark :
      isHexMark first (c :: tail ++ after') = isHexMark first (c :: tail ++ after) := rfl
    by_cases hex : isHexMark first (c :: tail ++ after) = true
    · rw [numberTail, if_pos hex, List.cons_append, List.drop_one, List.tail_cons,
        List.length_cons] at measured
      have digitsEnd : runLength isHexChar (tail ++ after) = tail.length := by omega
      have digitsEnd' := runLength_before digitsEnd (apart.avoids rfl rfl)
      rw [numberTail, sameMark, if_pos hex, List.cons_append, List.drop_one, List.tail_cons,
        digitsEnd', List.length_cons, Nat.add_comm]
    · rw [Bool.not_eq_true] at hex
      exact decimal_before hex (sameMark.trans hex) measured apart

/-- Every lexeme is the same before a space or a tab. A minus sign has no digit after it any more,
and needs none. -/
theorem lexemeTail_before {operandBefore : Bool}
    (measured : lexemeTail operandBefore first (tail ++ after) = tail.length)
    (apart : Apart after') : lexemeTail operandBefore first (tail ++ after') = tail.length := by
  unfold lexemeTail at measured ⊢
  split at measured
  next digit =>
    rw [if_pos digit]
    exact numberTail_before measured apart
  next noDigit =>
    rw [if_neg noDigit]
    split at measured
    next name =>
      rw [if_pos name]
      exact runLength_before measured (apart.avoids rfl rfl)
    next noName =>
      rw [if_neg noName]
      split at measured
      next symbol =>
        rw [if_pos symbol]
        cases tail with
        | nil =>
          cases after' with
          | nil => rfl
          | cons c after' =>
            have noDigit : c.isDigit = false := apart.avoids rfl rfl c rfl
            have noSymbol : isSymbolChar c = false := apart.avoids rfl rfl c rfl
            simp [noDigit, noSymbol, runLength]
        | cons d more =>
          simp only [List.cons_append] at measured ⊢
          split at measured
          next signed =>
            have numberEnds : numberTail d (more ++ after) = more.length := by
              rw [List.length_cons] at measured
              omega
            rw [if_pos signed, numberTail_before numberEnds apart, List.length_cons, Nat.add_comm]
          next unsigned =>
            rw [if_neg unsigned]
            rw [← List.cons_append] at measured ⊢
            exact runLength_before measured (apart.avoids rfl rfl)
      next noSymbol =>
        rw [if_neg noSymbol]
        exact measured

end Measures

section Blanks

variable {newlines : Bool} {gap gap' text text' : List Char} {first : Char}

/-- Where blanks end, no blank begins. -/
theorem blankLength_after {inComment : Bool}
    (measured : blankLength newlines inComment (gap ++ text) = gap.length) :
    blankLength newlines false text = 0 := by
  induction gap generalizing inComment with
  | nil =>
    cases text with
    | nil => rfl
    | cons c text =>
      simp only [List.nil_append, blankLength, List.length_nil] at measured ⊢
      grind
  | cons c gap ih =>
    simp only [List.cons_append, blankLength, List.length_cons] at measured
    grind

theorem blankLength_spacing (spacing : ∀ c ∈ gap, isSpacing c = true) :
    blankLength newlines false (gap ++ text) = gap.length + blankLength newlines false text := by
  induction gap with
  | nil => rw [List.nil_append, List.length_nil, Nat.zero_add]
  | cons c gap ih =>
    have more := ih fun d member => spacing d (List.mem_cons_of_mem _ member)
    have isSpace : c = ' ' ∨ c = '\t' := by simpa [isSpacing] using spacing c List.mem_cons_self
    rcases isSpace with rfl | rfl <;> simp [blankLength, more] <;> omega

/-- Whether a blank begins a text is seen from its first character. -/
theorem blankLength_first (none : blankLength newlines false (first :: text) = 0) :
    blankLength newlines false (first :: text') = 0 := by
  simp only [blankLength] at none ⊢
  grind

/-- A lexeme starts where the spaces and tabs before it end. -/
theorem blankLength_before
    (measured : blankLength newlines false (gap ++ first :: text) = gap.length)
    (spacing : ∀ c ∈ gap', isSpacing c = true) :
    blankLength newlines false (gap' ++ first :: text') = gap'.length := by
  rw [blankLength_spacing spacing, blankLength_first (blankLength_after measured), Nat.add_zero]

end Blanks

/-- A scan of the same lexemes with other blanks gives the same tokens at other places. -/
theorem scan_respaced {context : Context} {pos pos' : Pos} {text text' : List Char}
    (blank : List Char) (spacing : ∀ c ∈ blank, isSpacing c = true)
    (respaced : Respaced ((scan context pos text).map Token.lexeme) text') :
    (scan context pos' (blank ++ text')).map content = (scan context pos text).map content := by
  induction context, text using scan_induction generalizing pos pos' text' blank with
  | ended context text measured =>
    rw [scan_blank pos measured] at respaced ⊢
    cases respaced with
    | @cons _ _ trailing _ trails _ rest =>
      cases rest
      have allBlank : blankLength context.newlineIsBlank false (blank ++ (trailing ++ [])) =
          (blank ++ (trailing ++ [])).length := by
        rw [blankLength_spacing spacing, blankLength_spacing trails, List.length_append,
          List.length_append]
        rfl
      rw [String.toList_empty, List.nil_append, scan_blank pos' allBlank]
      rfl
  | more context gap first tail after gapEnds tailEnds ih =>
    rw [scan_token pos gapEnds tailEnds] at respaced ⊢
    cases respaced with
    | @cons _ _ between text spaces apart rest =>
      have tailEnds' := lexemeTail_before tailEnds (apart_append spaces apart)
      have gapEnds' : blankLength context.newlineIsBlank false
          (blank ++ first :: (tail ++ (between ++ text))) = blank.length :=
        blankLength_before gapEnds spacing
      rw [String.toList_ofList, List.cons_append, scan_token pos' gapEnds' tailEnds', List.map_cons,
        List.map_cons, ih between spaces rest]
      rfl

/-- The lexemes of a source text, written with spaces and tabs between them in place of its blanks,
are read as the same tokens. -/
theorem tokenize_respaced {source spread : String}
    (respaced : Respaced ((tokenize source).map Token.lexeme) spread.toList) :
    (tokenize spread).map content = (tokenize source).map content :=
  scan_respaced [] (List.forall_mem_nil _) respaced

/-- A minus sign next to its operands stays one when it is moved away from them, and one before a
literal stays with it. The comment and the newline in brackets are gone. -/
theorem tokenize_respaced_of_minus :
    Respaced ((tokenize "x-1.5e3#less\n[-2\n]").map Token.lexeme)
        "x -\t1.5e3 \n [  -2 ]".toList ∧
      (tokenize "x -\t1.5e3 \n [  -2 ]").map content =
        (tokenize "x-1.5e3#less\n[-2\n]").map content := by
  have lexemes : (tokenize "x-1.5e3#less\n[-2\n]").map Token.lexeme =
      ["x", "-", "1.5e3", "\n", "[", "-2", "]", ""] := by
    decide +kernel
  have layout : "x -\t1.5e3 \n [  -2 ]".toList =
      "x".toList ++ ([' '] ++ ("-".toList ++ (['\t'] ++ ("1.5e3".toList ++ ([' '] ++
        ("\n".toList ++ ([' '] ++ ("[".toList ++ ([' ', ' '] ++ ("-2".toList ++ ([' '] ++
          ("]".toList ++ ([] ++ ("".toList ++ ([] ++ []))))))))))))))) := by
    decide +kernel
  have respaced : Respaced ((tokenize "x-1.5e3#less\n[-2\n]").map Token.lexeme)
      "x -\t1.5e3 \n [  -2 ]".toList := by
    rw [lexemes, layout]
    have space : ∀ c ∈ [' '], isSpacing c = true := List.forall_mem_singleton.mpr rfl
    have tab : ∀ c ∈ ['\t'], isSpacing c = true := List.forall_mem_singleton.mpr rfl
    have spaces : ∀ c ∈ [' ', ' '], isSpacing c = true := List.forall_mem_cons.mpr ⟨rfl, space⟩
    have nothing : ∀ c ∈ [], isSpacing c = true := List.forall_mem_nil _
    exact .cons space nofun (.cons tab nofun (.cons space nofun (.cons space nofun
      (.cons spaces nofun (.cons space nofun (.cons nothing (fun _ => rfl)
        (.cons nothing (fun _ => rfl) .nil)))))))
  exact ⟨respaced, tokenize_respaced respaced⟩

end ScriptVM.Token
