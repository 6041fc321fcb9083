import Mathlib.Data.Nat.Digits.Defs
import Mathlib.Tactic.IntervalCases
import Mathlib.Tactic.Ring
import ScriptVM.Constant
import ScriptVM.Proofs.Arithmetic
import ScriptVM.Proofs.Respacing

/-!
Literals mean what their digits say.

How far a number reaches is decided when a text is cut into tokens, and what it means when the
constants are collected, by another reader of the same characters. The second reader accepts more
than the first lets through: signs inside, words for infinity, a point without digits. On what the
first lets through it is exact. An integer is the number that its digits denote by their places, and
is refused if it has no digits or no word can hold it; a real always has a value.
-/
namespace ScriptVM

namespace Literal

/-- The digits of base sixteen in the order of their values. -/
def digitChars : List Char := "0123456789abcdef".toList

/-- The value of a digit, small or large: its place among the digits. -/
def digitValue (c : Char) : Nat := digitChars.idxOf c.toLower

/-- Whether a literal has a minus sign. -/
def isNegative (text : String) : Bool := text.toList.head? == some '-'

/-- A literal without its sign. -/
def magnitude (text : String) : List Char :=
  if isNegative text then text.toList.drop 1 else text.toList

/-- Whether a literal is marked as one of base sixteen. -/
def isHexadecimal (text : String) : Bool :=
  (magnitude text).take 2 == ['0', 'x'] || (magnitude text).take 2 == ['0', 'X']

/-- The base of a literal's digits. -/
def radix (text : String) : Nat := if isHexadecimal text then 16 else 10

/-- The digits of an integer literal, after the mark of their base and without separators. -/
def digits (text : String) : List Char :=
  ((magnitude text).drop (if isHexadecimal text then 2 else 0)).filter (· ≠ '_')

/-- The number that digits denote by their places. -/
def placeValue (base : Nat) (digits : List Char) : Nat :=
  Nat.ofDigits base (digits.reverse.map digitValue)

/-- The number that an integer literal denotes. -/
def exactValue (text : String) : Int :=
  if isNegative text then -(placeValue (radix text) (digits text) : Int)
  else placeValue (radix text) (digits text)

end Literal

open Token (Kind Context isHexDigit isHexChar isDigitChar isHexMark isRealLexeme numberTail
  lexemeTail runLength fractionLength exponentLength)

section Digits

variable {c : Char} {base : Nat} {digits : List Char}

theorem mem_digits_of_isHexDigit (isDigit : isHexDigit c = true) :
    c ∈ "0123456789abcdefABCDEF".toList := by
  have code : c = Char.ofNat c.toNat := (Char.ofNat_toNat c).symm
  have bounds : 48 ≤ c.toNat ∧ c.toNat ≤ 57 ∨ 97 ≤ c.toNat ∧ c.toNat ≤ 102 ∨
      65 ≤ c.toNat ∧ c.toNat ≤ 70 := by
    simpa [isHexDigit, Char.isDigit, Char.le_def, UInt32.le_iff_toNat_le, or_assoc] using isDigit
  rw [code]
  generalize c.toNat = n at bounds
  rcases bounds with ⟨lower, upper⟩ | ⟨lower, upper⟩ | ⟨lower, upper⟩ <;>
    interval_cases n <;> decide

/-- What the table of the digits shows of each holds of every digit. -/
theorem of_all_hexDigits {p : Char → Bool} (all : "0123456789abcdefABCDEF".toList.all p = true)
    (isDigit : isHexDigit c = true) : p c = true :=
  List.all_eq_true.mp all c (mem_digits_of_isHexDigit isDigit)

theorem digitValue?_of_isHexDigit (isDigit : isHexDigit c = true) :
    Decimal.digitValue? c = some (Literal.digitValue c) ∧ Literal.digitValue c < 16 := by
  have known := of_all_hexDigits (p := fun c =>
    Decimal.digitValue? c = some (Literal.digitValue c) ∧ Literal.digitValue c < 16)
    (by decide) isDigit
  exact of_decide_eq_true known

theorem digitValue?_of_isDigit (isDigit : c.isDigit = true) :
    Decimal.digitValue? c = some (Literal.digitValue c) ∧ Literal.digitValue c < 10 := by
  have known := of_all_hexDigits (p := fun c => c.isDigit = true →
    Decimal.digitValue? c = some (Literal.digitValue c) ∧ Literal.digitValue c < 10)
    (by decide) (by simp [isHexDigit, isDigit] : isHexDigit c = true)
  exact of_decide_eq_true known isDigit

/-- Digits of a base. -/
def AreDigits (base : Nat) (digits : List Char) : Prop :=
  ∀ c ∈ digits, Decimal.digitValue? c = some (Literal.digitValue c) ∧ Literal.digitValue c < base

theorem placeValue_cons (base : Nat) (c : Char) (digits : List Char) :
    Literal.placeValue base (c :: digits) =
      Literal.digitValue c * base ^ digits.length + Literal.placeValue base digits := by
  unfold Literal.placeValue
  rw [List.reverse_cons, List.map_append, Nat.ofDigits_append, List.map_cons, List.map_nil,
    Nat.ofDigits_singleton, List.length_map, List.length_reverse, Nat.add_comm, Nat.mul_comm]

/-- Reading digits from the left gives the number that they denote by their places. -/
theorem foldDigits?_eq (areDigits : AreDigits base digits) (acc : Nat) :
    Decimal.foldDigits? base acc digits =
      some (acc * base ^ digits.length + Literal.placeValue base digits) := by
  induction digits generalizing acc with
  | nil => simp [Decimal.foldDigits?, Literal.placeValue]
  | cons c digits ih =>
    obtain ⟨value, small⟩ := areDigits c List.mem_cons_self
    have rest := ih (fun d member => areDigits d (List.mem_cons_of_mem _ member))
      (acc * base + Literal.digitValue c)
    simp only [Decimal.foldDigits?, value, if_pos small, rest, placeValue_cons, List.length_cons]
    congr 1
    ring

theorem ofDigits?_eq (areDigits : AreDigits base digits) :
    Decimal.ofDigits? base digits =
      if digits = [] then none else some (Literal.placeValue base digits) := by
  cases digits with
  | nil => rfl
  | cons c digits =>
    rw [if_neg (by simp), Decimal.ofDigits?, foldDigits?_eq areDigits, Nat.zero_mul, Nat.zero_add]
    nofun

/-- Digits are no sign. -/
theorem takeSign_eq (areDigits : AreDigits base digits) :
    Decimal.takeSign digits = (false, digits) := by
  cases digits with
  | nil => rfl
  | cons c digits =>
    have value := (areDigits c List.mem_cons_self).1
    unfold Decimal.takeSign
    split
    next same =>
      cases same
      cases value
    next same =>
      cases same
      cases value
    next => rfl

theorem ofSigned?_eq (areDigits : AreDigits base digits) :
    Decimal.ofSigned? base digits =
      if digits = [] then none else some (Literal.placeValue base digits : Int) := by
  rw [Decimal.ofSigned?, takeSign_eq areDigits]
  dsimp only
  rw [ofDigits?_eq areDigits]
  by_cases none : digits = [] <;> simp [none]

theorem areDigits_of_hexChars (all : ∀ c ∈ digits, isHexChar c = true) :
    AreDigits 16 (digits.filter (· ≠ '_')) := by
  intro c member
  obtain ⟨inDigits, notSeparator⟩ := List.mem_filter.mp member
  exact digitValue?_of_isHexDigit (by simpa [isHexChar, of_decide_eq_true notSeparator] using all c inDigits)

theorem areDigits_of_digitChars (all : ∀ c ∈ digits, isDigitChar c = true) :
    AreDigits 10 (digits.filter (· ≠ '_')) := by
  intro c member
  obtain ⟨inDigits, notSeparator⟩ := List.mem_filter.mp member
  exact digitValue?_of_isDigit (by simpa [isDigitChar, of_decide_eq_true notSeparator] using all c inDigits)

end Digits

section Lexemes

variable {operandBefore : Bool} {first mark : Char} {tail after digits more : List Char}

/-- The characters of a number after its first digit: base sixteen has a mark, and decimals may have a
fraction and an exponent. -/
theorem number_cases (ends : numberTail first (more ++ after) = more.length) :
    (∃ mark digits, first = '0' ∧ more = mark :: digits ∧ (mark = 'x' ∨ mark = 'X') ∧
      ∀ c ∈ digits, isHexChar c = true) ∨
    isHexMark first more = false ∧ ∃ whole fraction exponent,
      more = whole ++ (fraction ++ exponent) ∧ (∀ c ∈ whole, isDigitChar c = true) ∧
      fractionLength (fraction ++ (exponent ++ after)) = fraction.length ∧
      exponentLength (exponent ++ after) = exponent.length := by
  by_cases hex : isHexMark first (more ++ after) = true
  · rw [numberTail, if_pos hex] at ends
    cases more with
    | nil =>
      rw [List.length_nil] at ends
      omega
    | cons mark digits =>
      rw [List.cons_append, List.drop_one, List.tail_cons, List.length_cons, Nat.add_comm,
        Nat.add_right_cancel_iff] at ends
      have isMark : first = '0' ∧ (mark = 'x' ∨ mark = 'X') := by simpa [isHexMark] using hex
      exact .inl ⟨mark, digits, isMark.1, rfl, isMark.2, (Token.runLength_eq_length.mp ends).1⟩
  · rw [Bool.not_eq_true] at hex
    obtain ⟨whole, fraction, exponent, rfl, wholeEnds, fractionEnds, exponentEnds⟩ :=
      (Token.numberTail_decimal hex).mp ends
    refine .inr ⟨?_, whole, fraction, exponent, rfl, (Token.runLength_eq_length.mp wholeEnds).1,
      fractionEnds, exponentEnds⟩
    cases front : whole ++ (fraction ++ exponent) with
    | nil => simp [isHexMark]
    | cons c rest => simpa only [front, isHexMark, List.cons_append, List.head?_cons] using hex

/-- A fraction is a point, a digit, and digits and separators. -/
theorem fraction_cases {fraction : List Char}
    (ends : fractionLength (fraction ++ after) = fraction.length) :
    fraction = [] ∨ ∃ digit digits, fraction = '.' :: digit :: digits ∧ digit.isDigit = true ∧
      ∀ c ∈ digits, isDigitChar c = true := by
  match fraction with
  | [] => exact .inl rfl
  | [mark] =>
    cases after with
    | nil => simp [fractionLength] at ends
    | cons c after =>
      rw [List.singleton_append, Token.fractionLength_cons_cons] at ends
      split at ends
      · rw [List.length_singleton] at ends
        omega
      · cases ends
  | mark :: digit :: digits =>
    simp only [List.cons_append, Token.fractionLength_cons_cons, List.length_cons] at ends
    split at ends
    next starts =>
      have digitsEnd : runLength isDigitChar (digits ++ after) = digits.length := by omega
      exact .inr ⟨digit, digits, by rw [starts.1], starts.2,
        (Token.runLength_eq_length.mp digitsEnd).1⟩
    next => omega

/-- An exponent is a mark, an optional sign and digits. The digit that the sign needs is one of the
exponent's own. -/
theorem exponent_cases {exponent : List Char}
    (ends : exponentLength (exponent ++ after) = exponent.length) :
    exponent = [] ∨ ∃ mark sign digits, exponent = mark :: (sign ++ digits) ∧
      (mark = 'e' ∨ mark = 'E') ∧ (sign = [] ∨ sign = ['+'] ∨ sign = ['-']) ∧ digits ≠ [] ∧
      ∀ c ∈ digits, c.isDigit = true := by
  match exponent with
  | [] => exact .inl rfl
  | [mark] => exact absurd ends (Token.exponentLength_ne_one _)
  | mark :: c :: digits =>
    have isMark : mark = 'e' ∨ mark = 'E' := by
      have some : exponentLength (mark :: (c :: digits ++ after)) ≠ 0 := by
        rw [← List.cons_append, ends]
        exact Nat.succ_ne_zero _
      simpa [Token.isExponentMark] using Token.mark_of_exponentLength some
    refine .inr ⟨mark, ?_⟩
    have marked : (mark == 'e' || mark == 'E') = true := by simpa using isMark
    simp only [List.cons_append, exponentLength, marked, if_true, List.length_cons] at ends
    split at ends
    next digit =>
      have digitsEnd : runLength Char.isDigit (c :: digits ++ after) = (c :: digits).length := by
        rw [List.cons_append, List.length_cons]
        omega
      exact ⟨[], c :: digits, rfl, isMark, .inl rfl, List.cons_ne_nil _ _,
        (Token.runLength_eq_length.mp digitsEnd).1⟩
    next noDigit =>
      split at ends
      next signed =>
        have digitsEnd : runLength Char.isDigit (digits ++ after) = digits.length := by omega
        obtain ⟨all, avoids⟩ := Token.runLength_eq_length.mp digitsEnd
        have isSign : c = '+' ∨ c = '-' := by simp_all
        refine ⟨[c], digits, rfl, isMark, .inr (isSign.imp (congrArg ([·])) (congrArg ([·]))), ?_,
          all⟩
        rintro rfl
        cases after with
        | nil => simp at signed
        | cons d after => simp [avoids d rfl] at signed
      next => omega

theorem ofName_ne_number (lexeme : List Char) (text : String) :
    Kind.ofName lexeme ≠ .int text ∧ Kind.ofName lexeme ≠ .real text := by
  unfold Kind.ofName
  dsimp only
  repeat' split
  all_goals exact ⟨nofun, nofun⟩

theorem isSymbolChar_of_isDigit {c : Char} (digit : c.isDigit = true) :
    Token.isSymbolChar c = false := by
  have known := of_all_hexDigits (p := fun c => !Token.isSymbolChar c) (by decide)
    (by simp [isHexDigit, digit] : isHexDigit c = true)
  exact (Bool.not_eq_true' _).mp known

/-- A sign before a digit is a minus sign, and what follows it is a number. -/
theorem signed_number {digit : Char} (noName : Token.isNameStart first = false)
    (noDigit : first.isDigit = false) (symbol : Token.isSymbolChar first = true)
    (isDigit : digit.isDigit = true)
    (ends : lexemeTail operandBefore first (digit :: (more ++ after)) = more.length + 1) :
    first = '-' ∧ numberTail digit (more ++ after) = more.length := by
  simp only [lexemeTail, noDigit, noName, symbol, Bool.false_eq_true, if_false, if_true] at ends
  split at ends
  next signed =>
    have isMinus : first = '-' := by simp_all
    exact ⟨isMinus, by omega⟩
  next =>
    simp only [runLength, List.takeWhile_cons, isSymbolChar_of_isDigit isDigit,
      Bool.false_eq_true, if_false, List.length_nil] at ends
    omega

/-- What is read as a number is an optional minus sign, a digit and as much more of a number as there
is. -/
theorem number_of_lexeme (ends : lexemeTail operandBefore first (tail ++ after) = tail.length)
    {text : String} (isNumber : Kind.ofLexeme first tail = .int text ∨
      Kind.ofLexeme first tail = .real text) :
    ∃ sign digit more, text = String.ofList (sign ++ digit :: more) ∧ (sign = [] ∨ sign = ['-']) ∧
      digit.isDigit = true ∧ numberTail digit (more ++ after) = more.length ∧
      (isRealLexeme digit more = true ↔ Kind.ofLexeme first tail = .real text) := by
  by_cases isDigit : first.isDigit = true
  · simp only [lexemeTail, isDigit, if_true] at ends
    simp only [Kind.ofLexeme, isDigit, if_true] at isNumber ⊢
    refine ⟨[], first, tail, ?_, .inl rfl, isDigit, ends, ?_⟩ <;> split at isNumber <;> simp_all
  rw [Bool.not_eq_true] at isDigit
  by_cases name : Token.isNameStart first = true
  · simp only [Kind.ofLexeme, isDigit, name, if_true, Bool.false_eq_true, if_false] at isNumber
    exact (isNumber.elim (ofName_ne_number _ _).1 (ofName_ne_number _ _).2).elim
  rw [Bool.not_eq_true] at name
  by_cases symbol : Token.isSymbolChar first = true
  · cases tail with
    | nil =>
      simp only [Kind.ofLexeme, isDigit, name, symbol, if_true, Bool.false_eq_true, if_false]
        at isNumber
      split at isNumber <;> simp at isNumber
    | cons digit more =>
      simp only [Kind.ofLexeme, isDigit, name, symbol, if_true, Bool.false_eq_true, if_false]
        at isNumber ⊢
      by_cases isDigit' : digit.isDigit = true
      · obtain ⟨rfl, numberEnds⟩ := signed_number name isDigit symbol isDigit' ends
        simp only [isDigit', if_true] at isNumber ⊢
        refine ⟨['-'], digit, more, ?_, .inr rfl, isDigit', numberEnds, ?_⟩ <;>
          split at isNumber <;> simp_all
      · simp [isDigit'] at isNumber
  · rw [Bool.not_eq_true] at symbol
    simp only [Kind.ofLexeme, isDigit, name, symbol, Bool.false_eq_true, if_false] at isNumber
    repeat' split at isNumber
    all_goals simp at isNumber

end Lexemes

section Integers

variable {sign more after : List Char} {first : Char}

theorem ne_of_isDigit {c : Char} (isDigit : c.isDigit = true) : c ≠ '-' ∧ c ≠ '+' ∧ c ≠ '_' := by
  refine ⟨?_, ?_, ?_⟩ <;> rintro rfl <;> cases isDigit

/-- A digit is no separator. -/
theorem kept_cons (isDigit : first.isDigit = true) :
    (first :: more).filter (· ≠ '_') = first :: more.filter (· ≠ '_') := by
  simp [(ne_of_isDigit isDigit).2.2]

theorem isNegative_eq (isSign : sign = [] ∨ sign = ['-']) (isDigit : first.isDigit = true) :
    Literal.isNegative (String.ofList (sign ++ first :: more)) = decide (sign = ['-']) := by
  rcases isSign with rfl | rfl
  · simp [Literal.isNegative, (ne_of_isDigit isDigit).1]
  · simp [Literal.isNegative]

theorem magnitude_eq (isSign : sign = [] ∨ sign = ['-']) (isDigit : first.isDigit = true) :
    Literal.magnitude (String.ofList (sign ++ first :: more)) = first :: more := by
  unfold Literal.magnitude
  rw [isNegative_eq isSign isDigit]
  rcases isSign with rfl | rfl <;> simp

theorem isHexadecimal_eq (isSign : sign = [] ∨ sign = ['-']) (isDigit : first.isDigit = true) :
    Literal.isHexadecimal (String.ofList (sign ++ first :: more)) = isHexMark first more := by
  unfold Literal.isHexadecimal
  rw [magnitude_eq isSign isDigit]
  cases more <;> simp [isHexMark, ← Bool.and_or_distrib_left]

theorem clean_eq (isSign : sign = [] ∨ sign = ['-']) :
    Literal.clean (String.ofList (sign ++ more)) = sign ++ more.filter (· ≠ '_') := by
  rcases isSign with rfl | rfl <;> simp [Literal.clean]

theorem base_of_digits {digits : List Char} (areDigits : AreDigits 10 digits) :
    Literal.base digits = (10, digits) := by
  unfold Literal.base
  split
  next mark rest => cases (areDigits 'x' (by simp)).1
  next mark rest => cases (areDigits 'X' (by simp)).1
  next => rfl

theorem plain_of_not_real (decimal : isHexMark first more = false)
    (isInt : isRealLexeme first more = false) : ∀ c ∈ more, c ≠ '.' ∧ c ≠ 'e' ∧ c ≠ 'E' := by
  simpa [isRealLexeme, decimal, and_assoc] using isInt

/-- An integer's characters, read as its base and its digits. -/
theorem base_eq (isSign : sign = [] ∨ sign = ['-']) (isDigit : first.isDigit = true)
    (ends : numberTail first (more ++ after) = more.length) (isInt : isRealLexeme first more = false) :
    let text := String.ofList (sign ++ first :: more)
    Literal.base ((first :: more).filter (· ≠ '_')) =
        (Literal.radix text, Literal.digits text) ∧
      AreDigits (Literal.radix text) (Literal.digits text) := by
  dsimp only
  unfold Literal.radix Literal.digits
  rw [isHexadecimal_eq isSign isDigit, magnitude_eq isSign isDigit]
  rcases number_cases ends with ⟨mark, digits, rfl, rfl, isMark, all⟩ |
    ⟨decimal, whole, fraction, exponent, rfl, all, fractionEnds, exponentEnds⟩
  · have marked : isHexMark '0' (mark :: digits) = true := by
      rcases isMark with rfl | rfl <;> rfl
    rw [marked]
    refine ⟨?_, areDigits_of_hexChars all⟩
    rcases isMark with rfl | rfl <;> simp [Literal.base]
  · have plain := plain_of_not_real decimal isInt
    have noFraction : fraction = [] := by
      rcases fraction_cases fractionEnds with none | ⟨digit, digits, rfl, _⟩
      · exact none
      · exact absurd rfl (plain '.' (by simp)).1
    have noExponent : exponent = [] := by
      rcases exponent_cases exponentEnds with none | ⟨mark, sign, digits, rfl, isMark, _⟩
      · exact none
      · have other := plain mark (by simp)
        exact (isMark.elim other.2.1 other.2.2).elim
    subst noFraction noExponent
    rw [decimal]
    simp only [List.append_nil]
    have areDigits : AreDigits 10 ((first :: whole).filter (· ≠ '_')) := by
      refine areDigits_of_digitChars fun c member => ?_
      rcases List.mem_cons.mp member with rfl | inWhole
      · simp [isDigitChar, isDigit]
      · exact all c inWhole
    exact ⟨base_of_digits areDigits, areDigits⟩

/-- The number that an integer's characters are read as is the one that its digits denote. -/
theorem wholeNumber?_eq (isSign : sign = [] ∨ sign = ['-']) (isDigit : first.isDigit = true)
    (ends : numberTail first (more ++ after) = more.length) (isInt : isRealLexeme first more = false) :
    let text := String.ofList (sign ++ first :: more)
    Literal.wholeNumber? text =
      if Literal.digits text = [] then none else some (Literal.exactValue text) := by
  dsimp only
  obtain ⟨base, areDigits⟩ := base_eq isSign isDigit ends isInt
  rw [kept_cons isDigit] at base
  have read := ofSigned?_eq areDigits
  unfold Literal.wholeNumber? Literal.exactValue
  rw [clean_eq isSign, isNegative_eq isSign isDigit, kept_cons isDigit]
  rcases isSign with rfl | rfl
  · split
    next same => exact absurd (List.cons.inj same).1 (ne_of_isDigit isDigit).1
    next =>
      rw [List.nil_append, base, read]
      simp only [List.ne_cons_self, decide_false, Bool.false_eq_true, if_false]
  · show (Decimal.ofSigned? (Literal.base (first :: more.filter (· ≠ '_'))).1
      (Literal.base (first :: more.filter (· ≠ '_'))).2).map _ = _
    rw [base, read]
    split <;> rfl

end Integers

section Reals

variable {sign whole fraction exponent digits rest after : List Char} {first : Char}

theorem kept_of_isDigit (all : ∀ c ∈ digits, c.isDigit = true) :
    digits.filter (· ≠ '_') = digits :=
  List.filter_eq_self.mpr fun c member => decide_eq_true (ne_of_isDigit (all c member)).2.2

theorem isDigit_of_kept (all : ∀ c ∈ digits, isDigitChar c = true) :
    ∀ c ∈ digits.filter (· ≠ '_'), c.isDigit = true := by
  intro c member
  obtain ⟨inDigits, notSeparator⟩ := List.mem_filter.mp member
  simpa [isDigitChar, of_decide_eq_true notSeparator] using all c inDigits

theorem areDigits_of_isDigit (all : ∀ c ∈ digits, c.isDigit = true) : AreDigits 10 digits :=
  fun c member => digitValue?_of_isDigit (all c member)

theorem exists_ofDigits (all : ∀ c ∈ digits, c.isDigit = true) (some : digits ≠ []) :
    ∃ n, Decimal.ofDigits? 10 digits = .some n := by
  rw [ofDigits?_eq (areDigits_of_isDigit all), if_neg some]
  exact ⟨_, rfl⟩

/-- Digits end where no digit comes next. -/
theorem digits_end (all : ∀ c ∈ digits, c.isDigit = true) (avoids : Token.Avoids Char.isDigit rest) :
    (digits ++ rest).takeWhile Char.isDigit = digits ∧
      (digits ++ rest).dropWhile Char.isDigit = rest := by
  rw [List.takeWhile_append_of_pos all, List.dropWhile_append_of_pos all]
  cases rest with
  | nil => simp
  | cons c rest => simp [avoids c rfl]

/-- An exponent is read, and the digits before it end there. -/
theorem exponent_read (ends : exponentLength (exponent ++ after) = exponent.length) :
    (∃ n, Decimal.exponent? exponent = some n) ∧ exponent.filter (· ≠ '_') = exponent ∧
      Token.Avoids Char.isDigit exponent ∧ ∀ rest, exponent ≠ '.' :: rest := by
  rcases exponent_cases ends with rfl | ⟨mark, sign, digits, rfl, isMark, isSign, some, all⟩
  · exact ⟨⟨0, rfl⟩, rfl, nofun, nofun⟩
  · obtain ⟨n, read⟩ := exists_ofDigits all some
    have unsigned := takeSign_eq (areDigits_of_isDigit all)
    have signed : ∃ n, Decimal.ofSigned? 10 (sign ++ digits) = .some n := by
      unfold Decimal.ofSigned?
      rcases isSign with rfl | rfl | rfl
      · exact ⟨n, by simp [unsigned, read]⟩
      · exact ⟨n, by simp [Decimal.takeSign, read]⟩
      · exact ⟨-n, by simp [Decimal.takeSign, read]⟩
    refine ⟨?_, ?_, ?_, ?_⟩
    · simpa [Decimal.exponent?, isMark] using signed
    · have kept := kept_of_isDigit all
      rcases isMark with rfl | rfl <;> rcases isSign with rfl | rfl | rfl <;> simpa using kept
    · rintro c ⟨⟩
      rcases isMark with rfl | rfl <;> rfl
    · rintro rest ⟨⟩
      rcases isMark with impossible | impossible <;> cases impossible

/-- The digits after a point, if there is one, and what follows them. -/
def pointed (text : List Char) : List Char × List Char :=
  match text with
  | '.' :: after => (after.takeWhile Char.isDigit, after.dropWhile Char.isDigit)
  | _ => ([], text)

/-- A decimal is read if its parts are. -/
theorem unsigned?_eq_some {text : List Char} {value : Nat} {scale : Int}
    (digitsEnd : text.takeWhile Char.isDigit = whole ∧ text.dropWhile Char.isDigit = rest)
    (split : pointed rest = (fraction, exponent))
    (readDigits : Decimal.ofDigits? 10 (whole ++ fraction) = some value)
    (readExponent : Decimal.exponent? exponent = some scale) :
    Decimal.unsigned? text = some ⟨value, scale - fraction.length⟩ := by
  unfold Decimal.unsigned?
  rw [digitsEnd.1, digitsEnd.2]
  obtain ⟨rfl, rfl⟩ : (pointed rest).1 = fraction ∧ (pointed rest).2 = exponent :=
    ⟨congrArg Prod.fst split, congrArg Prod.snd split⟩
  dsimp only
  split
  next readDigits' readExponent' =>
    cases readDigits'.symm.trans readDigits
    cases readExponent'.symm.trans readExponent
    rfl
  next unread => exact (unread _ _ readDigits readExponent).elim

/-- A decimal number is read, whatever it has of a fraction and an exponent. -/
theorem exists_unsigned (isDigit : first.isDigit = true)
    (all : ∀ c ∈ whole, isDigitChar c = true)
    (fractionEnds : fractionLength (fraction ++ (exponent ++ after)) = fraction.length)
    (exponentEnds : exponentLength (exponent ++ after) = exponent.length) :
    ∃ scaled, Decimal.unsigned? ((first :: (whole ++ (fraction ++ exponent))).filter (· ≠ '_')) =
      some scaled := by
  obtain ⟨⟨n, readExponent⟩, keptExponent, noDigit, noPoint⟩ := exponent_read exponentEnds
  have wholeDigits : ∀ c ∈ first :: whole.filter (· ≠ '_'), c.isDigit = true := by
    simpa [isDigit] using isDigit_of_kept all
  rw [kept_cons isDigit, List.filter_append, List.filter_append, keptExponent, ← List.cons_append]
  rcases fraction_cases fractionEnds with rfl | ⟨digit, digits, rfl, isDigit', all'⟩
  · have noFraction : pointed exponent = ([], exponent) := by
      unfold pointed
      split
      next rest => exact absurd rfl (noPoint rest)
      next => rfl
    obtain ⟨value, readDigits⟩ := exists_ofDigits wholeDigits nofun
    rw [← List.append_nil (first :: _)] at readDigits
    exact ⟨_, unsigned?_eq_some (digits_end wholeDigits noDigit) noFraction readDigits readExponent⟩
  · have fractionDigits : ∀ c ∈ digit :: digits.filter (· ≠ '_'), c.isDigit = true := by
      simpa [isDigit'] using isDigit_of_kept all'
    have isPoint : Token.Avoids Char.isDigit
        ('.' :: (digit :: digits.filter (· ≠ '_') ++ exponent)) := by
      rintro c ⟨⟩
      rfl
    obtain ⟨taken, left⟩ := digits_end fractionDigits noDigit
    have split : pointed ('.' :: (digit :: digits.filter (· ≠ '_') ++ exponent)) =
        (digit :: digits.filter (· ≠ '_'), exponent) :=
      Prod.ext taken left
    have digitsOfBoth : ∀ c ∈ (first :: whole.filter (· ≠ '_')) ++ digit :: digits.filter (· ≠ '_'),
        c.isDigit = true :=
      fun c member => (List.mem_append.mp member).elim (wholeDigits c) (fractionDigits c)
    obtain ⟨value, readDigits⟩ := exists_ofDigits digitsOfBoth nofun
    rw [List.filter_cons_of_pos (by decide), kept_cons isDigit', List.cons_append]
    exact ⟨_, unsigned?_eq_some (digits_end wholeDigits isPoint) split readDigits readExponent⟩

/-- The sign of a literal is taken off. -/
theorem takeSign_clean (isSign : sign = [] ∨ sign = ['-']) (isDigit : first.isDigit = true) :
    Decimal.takeSign (sign ++ first :: digits) = (decide (sign = ['-']), first :: digits) := by
  rcases isSign with rfl | rfl
  · unfold Decimal.takeSign
    split
    next same => exact absurd (List.cons.inj same).1 (ne_of_isDigit isDigit).1
    next same => exact absurd (List.cons.inj same).1 (ne_of_isDigit isDigit).2.1
    next => rfl
  · rfl

/-- A real's characters have a value. -/
theorem exists_real {more : List Char} (isSign : sign = [] ∨ sign = ['-'])
    (isDigit : first.isDigit = true) (ends : numberTail first (more ++ after) = more.length)
    (isReal : isRealLexeme first more = true) :
    ∃ x, Literal.real? (String.ofList (sign ++ first :: more)) = some (.real x) := by
  have decimal : isHexMark first more = false := by simp_all [isRealLexeme]
  rcases number_cases ends with ⟨mark, digits, rfl, rfl, isMark, _⟩ |
    ⟨_, whole, fraction, exponent, rfl, all, fractionEnds, exponentEnds⟩
  · rcases isMark with rfl | rfl <;> cases decimal
  · obtain ⟨scaled, read⟩ := exists_unsigned isDigit all fractionEnds exponentEnds
    rw [kept_cons isDigit] at read
    unfold Literal.real? Decimal.parse?
    rw [clean_eq isSign, kept_cons isDigit, String.toList_ofList, takeSign_clean isSign isDigit]
    dsimp only
    rw [read]
    repeat' split
    all_goals exact ⟨_, rfl⟩

end Reals

namespace Token

/-- Every token but the last is read from a first character and as many more as belong to it. -/
theorem lexeme_of_mem_scan {context : Context} {text : List Char} {pos : Pos} {token : Token}
    (member : token ∈ scan context pos text) :
    token.kind = .eof ∨ ∃ operandBefore first tail after,
      lexemeTail operandBefore first (tail ++ after) = tail.length ∧
      token.kind = .ofLexeme first tail := by
  induction context, text using scan_induction generalizing pos with
  | ended context text measured =>
    rw [scan_blank _ measured] at member
    exact .inl (by rw [List.mem_singleton.mp member])
  | more context gap first tail after gapEnds tailEnds ih =>
    rw [scan_token _ gapEnds tailEnds] at member
    rcases List.mem_cons.mp member with rfl | later
    · exact .inr ⟨_, first, tail, after, tailEnds, rfl⟩
    · exact ih later

variable {source text : String} {token : Token}

/-- The characters of a number that is read from a source text. -/
theorem number_of_mem_tokenize (member : token ∈ tokenize source)
    (isNumber : token.kind = .int text ∨ token.kind = .real text) :
    ∃ sign first more after, text = String.ofList (sign ++ first :: more) ∧
      (sign = [] ∨ sign = ['-']) ∧ first.isDigit = true ∧
      numberTail first (more ++ after) = more.length ∧
      (isRealLexeme first more = true ↔ token.kind = .real text) := by
  rcases lexeme_of_mem_scan member with ended | ⟨_, first, tail, after, ends, isKind⟩
  · rw [ended] at isNumber
    simp at isNumber
  · rw [isKind] at isNumber ⊢
    obtain ⟨sign, digit, more, same, facts⟩ := number_of_lexeme ends isNumber
    exact ⟨sign, digit, more, after, same, facts⟩

/-- An integer that is read from a source text has the value of its digits, if it has digits and a
word can hold that value. -/
theorem value_of_integer (member : token ∈ tokenize source) (isInt : token.kind = .int text)
    (span : Span) :
    Literal.integer.value text span =
      if fits : Literal.digits text ≠ [] ∧ Value.Fits (Literal.exactValue text) then
        .ok (.int (Value.word (Literal.exactValue text) fits.2))
      else .error (.invalid .integer text span) := by
  obtain ⟨sign, first, more, after, rfl, isSign, isDigit, ends, isReal⟩ :=
    number_of_mem_tokenize member (.inl isInt)
  have notReal : isRealLexeme first more = false := by
    rw [← Bool.not_eq_true, isReal, isInt]
    nofun
  have read := wholeNumber?_eq isSign isDigit ends notReal
  dsimp only at read
  unfold Literal.value Literal.int?
  dsimp only
  rw [read]
  by_cases none : Literal.digits (String.ofList (sign ++ first :: more)) = []
  · rw [if_pos none, dif_neg fun fits => fits.1 none]
    rfl
  · rw [if_neg none, Option.bind_some, Value.fit?_eq]
    by_cases fits : Value.Fits (Literal.exactValue (String.ofList (sign ++ first :: more)))
    · rw [dif_pos fits, dif_pos ⟨none, fits⟩]
      rfl
    · rw [dif_neg fits, dif_neg fun both => fits both.2]
      rfl

/-- A real that is read from a source text has a value. -/
theorem value_of_real (member : token ∈ tokenize source) (isReal : token.kind = .real text)
    (span : Span) : ∃ x, Literal.real.value text span = .ok (.real x) := by
  obtain ⟨sign, first, more, after, rfl, isSign, isDigit, ends, realChars⟩ :=
    number_of_mem_tokenize member (.inr isReal)
  obtain ⟨x, read⟩ := exists_real isSign isDigit ends (realChars.mpr isReal)
  exact ⟨x, by unfold Literal.value; dsimp only; rw [read]⟩

end Token

end ScriptVM
