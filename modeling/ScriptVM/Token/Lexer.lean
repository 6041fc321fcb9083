import ScriptVM.Token
import ScriptVM.Text.Escape

/-!
Reading a source text as tokens.

A scan alternates two steps: measure the blanks at the front, then measure the lexeme that follows
them. Both are lengths of prefixes, so a token's lexeme and the text after it are a `take` and a
`drop` of the same characters, and positions are folds over what was taken.
-/
namespace ScriptVM

namespace Token

/-- Characters of which operators are made. -/
def isSymbolChar (c : Char) : Bool :=
  "+-*/%<>=!^~&|?@$.:".toList.contains c

/-- Characters that start a name. -/
def isNameStart (c : Char) : Bool :=
  c == '_' || c.isAlpha

/-- Characters that continue a name. -/
def isNameChar (c : Char) : Bool :=
  c == '_' || c.isAlphanum

/-- Decimal digits and the separator. -/
def isDigitChar (c : Char) : Bool :=
  c == '_' || c.isDigit

/-- Hexadecimal digits, in either case. -/
def isHexDigit (c : Char) : Bool :=
  c.isDigit || ('a' ≤ c && c ≤ 'f') || ('A' ≤ c && c ≤ 'F')

/-- Hexadecimal digits and the separator. -/
def isHexChar (c : Char) : Bool :=
  c == '_' || isHexDigit c

/-- The length of the longest prefix made of such characters. -/
def runLength (p : Char → Bool) (text : List Char) : Nat :=
  (text.takeWhile p).length

/-- The length of a fraction at the front: a point, a digit, then digits and separators. -/
def fractionLength : List Char → Nat
  | '.' :: d :: rest => if d.isDigit then 2 + runLength isDigitChar rest else 0
  | _ => 0

/-- The length of an exponent at the front: its mark, an optional sign, and at least one digit. -/
def exponentLength : List Char → Nat
  | [] => 0
  | mark :: rest =>
    if mark == 'e' || mark == 'E' then
      match rest with
      | [] => 0
      | c :: digits =>
        if c.isDigit then 1 + runLength Char.isDigit rest
        else if (c == '+' || c == '-') && digits.head?.any Char.isDigit then
          2 + runLength Char.isDigit digits
        else 0
    else 0

/-- Whether a literal continues as hexadecimal after its first digit. -/
def isHexMark (first : Char) (rest : List Char) : Bool :=
  first == '0' && rest.head?.any fun c => c == 'x' || c == 'X'

/-- How many characters of a number follow its first digit. -/
def numberTail (first : Char) (rest : List Char) : Nat :=
  if isHexMark first rest then 1 + runLength isHexChar (rest.drop 1)
  else
    let whole := runLength isDigitChar rest
    let fraction := fractionLength (rest.drop whole)
    whole + fraction + exponentLength (rest.drop (whole + fraction))

/-- How many characters of a lexeme follow its first. A minus sign before a digit belongs to the
number unless an operand ends before it. -/
def lexemeTail (operandBefore : Bool) (first : Char) (rest : List Char) : Nat :=
  if first.isDigit then numberTail first rest
  else if isNameStart first then runLength isNameChar rest
  else if isSymbolChar first then
    match rest with
    | d :: more =>
      if first == '-' && d.isDigit && !operandBefore then 1 + numberTail d more
      else runLength isSymbolChar rest
    | [] => 0
  else 0

/-- The kind of an unsigned number's lexeme. -/
def isRealLexeme (first : Char) (rest : List Char) : Bool :=
  !isHexMark first rest && rest.any fun c => c == '.' || c == 'e' || c == 'E'

/-- The kind of a name's lexeme. Underscores at the front do not decide between values and types. -/
def Kind.ofName (lexeme : List Char) : Kind :=
  let text := String.ofList lexeme
  match Keyword.ofSpelling? text with
  | some keyword => .word keyword
  | none =>
    if (lexeme.find? (· != '_')).any Char.isUpper then .typeId text else .valueId text

/-- The kind of a lexeme, given its first character and the others. -/
def Kind.ofLexeme (first : Char) (rest : List Char) : Kind :=
  let text := String.ofList (first :: rest)
  if first.isDigit then
    if isRealLexeme first rest then .real text else .int text
  else if isNameStart first then .ofName (first :: rest)
  else if isSymbolChar first then
    match rest with
    | d :: more =>
      if d.isDigit then if isRealLexeme d more then .real text else .int text
      else .symbol text
    | [] => if first == '=' then .assign else .symbol text
  else if first == '\n' || first == ';' then .term
  else if first == ',' then .comma
  else
    match [Bracket.round, .square, .curly].find? (·.left == first) with
    | some bracket => .opening bracket
    | none =>
      match [Bracket.round, .square, .curly].find? (·.right == first) with
      | some bracket => .closing bracket
      | none => .error ("unrecognized character `" ++ Text.escapeChar first ++ "`")

/-- The length of the blanks at the front: spaces, tabs, carriage returns, comments, and newlines
when they are blank too. A comment runs up to its newline, which is not part of it. -/
def blankLength (newlineIsBlank : Bool) : Bool → List Char → Nat
  | _, [] => 0
  | inComment, c :: rest =>
    if c = '\n' then
      if newlineIsBlank then 1 + blankLength newlineIsBlank false rest else 0
    else if inComment || c == '#' then 1 + blankLength newlineIsBlank true rest
    else if c == ' ' || c == '\t' || c == '\r' then 1 + blankLength newlineIsBlank false rest
    else 0

end Token

/-- What a scan remembers of the tokens before it. -/
structure Token.Context where
  /-- The brackets still open, innermost first. -/
  brackets : List Bracket
  /-- Whether the last token can end an operand. -/
  operandBefore : Bool
deriving DecidableEq, Repr

namespace Token.Context

/-- Nothing read yet. -/
def initial : Context := ⟨[], false⟩

/-- Inside round and square brackets a newline separates nothing. -/
def newlineIsBlank (context : Context) : Bool :=
  match context.brackets with
  | .round :: _ | .square :: _ => true
  | _ => false

/-- What is remembered after one more token. A closing bracket closes the innermost open one, of
whichever kind. -/
def push (context : Context) (kind : Kind) : Context where
  brackets :=
    match kind with
    | .opening bracket => bracket :: context.brackets
    | .closing _ => context.brackets.tail
    | _ => context.brackets
  operandBefore := kind.endsOperand

end Token.Context

namespace Token

/-- The tokens of a text that starts at `pos`, the end of input included. -/
def scan (context : Context) (pos : Pos) (text : List Char) : List Token :=
  let blanks := blankLength context.newlineIsBlank false text
  let start := pos.after (text.take blanks)
  match _h : text.drop blanks with
  | [] => [⟨.eof, .point start, ""⟩]
  | first :: rest =>
    let tail := rest.take (lexemeTail context.operandBefore first rest)
    let kind := Kind.ofLexeme first tail
    let stop := start.after (first :: tail)
    ⟨kind, ⟨start, stop⟩, String.ofList (first :: tail)⟩ ::
      scan (context.push kind) stop (rest.drop (lexemeTail context.operandBefore first rest))
termination_by text.length
decreasing_by
  have shorter : (first :: rest).length ≤ text.length := by
    rw [← _h, List.length_drop]
    exact Nat.sub_le _ _
  simp only [List.length_cons, List.length_drop] at shorter ⊢
  omega

/-- The tokens of a source text. The last one, and no other, is the end of input. -/
def tokenize (source : String) : List Token :=
  scan .initial .origin source.toList

end Token

end ScriptVM
