import ScriptVM.Node
import ScriptVM.Token.Lexer

/-!
Reading tokens as a syntax tree.

A program is a module between its two reserved words, or else the body of a module without a name.
Binary operators have four levels and only the tightest associates to the right. A predicate is read
with trailing blocks off, so that the brace after it opens the body.

Every node is given a tag when it is made, after the nodes below it. A text is read with numbers
dealt one after the other, from which its nodes have their identities. The productions leave open
how tags are made, so that facts about what is read need not mention numbers: read with plain spans
for tags, a text has the same tree without them.

The productions are mutually recursive on a bound for their nesting. Between two tokens taken at
most eight of them are entered, so eight for every token are enough.
-/
namespace ScriptVM

/-- Why a text is not a program. -/
inductive ParseError.Cause where
  /-- The token found cannot stand where something else was expected. -/
  | expected (what : String)
  /-- The bound on nested productions was reached. -/
  | exhausted
  /-- The last token, which ends the input, was to be taken. -/
  | overrun
deriving DecidableEq, Repr

/-- A refusal, with the token at which it arose and the text around it. -/
structure ParseError where
  cause : ParseError.Cause
  token : Token
  snippet : String
deriving DecidableEq, Repr

namespace ParseError

/-- The reason alone. A token that is no token at all explains itself. -/
def reason (e : ParseError) : String :=
  match e.token.kind, e.cause with
  | .error reason, _ => reason
  | _, .expected what => "expected " ++ what
  | _, .exhausted => "too deeply nested"
  | _, .overrun => "nothing left to take"

/-- The whole diagnostic. -/
def message (e : ParseError) : String :=
  e.token.span.render ++ ": " ++ e.reason ++ " (found " ++ e.token.kind.name ++ ") near " ++
    e.snippet

/-- How many characters a snippet shows on either side. -/
def window : Nat := 10

/-- Splits a text at a byte offset that lies between two characters. -/
def splitAtOffset : Nat → List Char → List Char × List Char
  | _, [] => ([], [])
  | offset, c :: rest =>
    if offset = 0 then ([], c :: rest)
    else
      let (before, after) := splitAtOffset (offset - c.utf8Size) rest
      (c :: before, after)

/-- A newline as two visible characters. -/
def flatten (text : List Char) : List Char :=
  text.flatMap fun c => if c = '\n' then ['\\', 'n'] else [c]

/-- The character at an offset between backquotes, with its neighbours, on one line. -/
def snippetAt (source : String) (offset : Nat) : String :=
  let (before, after) := splitAtOffset offset source.toList
  let shown := (before.reverse.take window).reverse ++ ['\x60'] ++ after.take 1 ++ ['\x60'] ++
    (after.drop 1).take window
  String.ofList (flatten shown)

end ParseError

/-- Where a parse stands: the token to be read, those after it, and the span of the one before. -/
structure Cursor where
  current : Token
  rest : List Token
  previous : Span
deriving DecidableEq, Repr

/-- A refusal before the text around it is added. -/
structure Parser.Failure where
  cause : ParseError.Cause
  token : Token
deriving DecidableEq, Repr

/-- A production: it moves the cursor and gives a result, or refuses. -/
abbrev Parser : Type → Type := StateT Cursor (Except Parser.Failure)

/-- A production that deals numbers. Its state is the first number that was not dealt yet. -/
abbrev Parser.Dealing : Type → Type := StateT Nat Parser

/-- How tags are made for new nodes. -/
class Parser.Tagging (m : Type → Type) (τ : outParam Type) where
  /-- The tag of a new node with this span. -/
  tag : Span → m τ

namespace Cursor

/-- The cursor past the current token. The last token is never passed. -/
def advance (c : Cursor) : Cursor :=
  match c.rest with
  | [] => c
  | next :: rest => ⟨next, rest, c.current.span⟩

/-- The kind of the token after the current one. -/
def second (c : Cursor) : Token.Kind :=
  match c.rest with
  | [] => c.current.kind
  | next :: _ => next.kind

/-- The cursor past all statement ends at the front. -/
def skipTerms (previous : Span) (current : Token) : List Token → Cursor
  | [] => ⟨current, [], previous⟩
  | next :: rest =>
    if current.kind = .term then skipTerms current.span next rest
    else ⟨current, next :: rest, previous⟩

end Cursor

namespace Parser

/-- Spans are tags themselves. -/
instance : Tagging Parser Span where
  tag := pure

/-- A new node is given the next number. -/
instance : Tagging Dealing Tag where
  tag span := do
    let id ← getThe Nat
    set (id + 1)
    return ⟨id, span⟩

/-- How tightly an operator binds. -/
def level (op : String) : Nat :=
  if op = "^" then 4
  else if op = "*" ∨ op = "/" ∨ op = "%" then 3
  else if op = "+" ∨ op = "-" then 2
  else 1

/-- The least level that may stand to the right of an operator without brackets. -/
def rightLevel (op : String) : Nat :=
  if op = "^" then level op else level op + 1

section Productions

variable {m : Type → Type} [Monad m] [MonadStateOf Cursor m] [MonadExceptOf Failure m]

/-- The kind of the current token. -/
def peek : m Token.Kind := do
  return (← get).current.kind

/-- Whether the current token has this kind. -/
def sees (kind : Token.Kind) : m Bool := do
  return (← get).current.kind = kind

/-- Refuses the current token. -/
def fail {α : Type} (what : String) : m α := do
  throw ⟨.expected what, (← get).current⟩

/-- Gives up at the bound on nested productions. -/
def exhaust {α : Type} : m α := do
  throw ⟨.exhausted, (← get).current⟩

/-- Takes the current token and gives its span. The last token ends the input and cannot be taken.
-/
def advance : m Span := do
  let c ← get
  match c.rest with
  | [] => throw ⟨.overrun, c.current⟩
  | _ :: _ =>
    set c.advance
    return c.current.span

/-- Takes a token of this kind and gives its span. -/
def expect (kind : Token.Kind) : m Span := do
  if ← sees kind then advance else fail kind.name

/-- Takes all statement ends at the front. -/
def skipTerms : m Unit :=
  modify fun c => Cursor.skipTerms c.previous c.current c.rest

/-- Takes the name of a value. -/
def valueName : m String := do
  match ← peek with
  | .valueId name => let _ ← advance; return name
  | _ => fail "identifier"

/-- Takes the name of a type, if there is one. -/
def typeName? : m (Option String) := do
  match ← peek with
  | .typeId name => let _ ← advance; return some name
  | _ => return none

variable {τ : Type} [Tagging m τ]

/-- The tag of a new node from `start` to the last token taken. -/
def tagFrom (start : Span) : m τ := do
  Tagging.tag (start.merge (← get).previous)

/-- A unit leaf at the last token taken, for what the source leaves out. -/
def missing : m (Node τ) := do
  return .leaf (← Tagging.tag (← get).previous) .unit

/-- A leaf made of the current token. -/
def tokenLeaf (kind : Leaf) : m (Node τ) := do
  let start ← advance
  return .leaf (← tagFrom start) kind

/-- Parameters up to the closing bracket. -/
def parameters : Nat → m (List (Node τ))
  | 0 => exhaust
  | fuel + 1 => do
    if ← sees (.closing .round) then return []
    else
      let start := (← get).current.span
      let name ← valueName
      let type ← typeName?
      let param := Node.param (← tagFrom start) name type
      unless ← sees (.closing .round) do
        let _ ← expect .comma
      return param :: (← parameters fuel)

mutual

/-- Statements up to a token of the given kind, which is not taken. -/
def statements : Nat → Token.Kind → m (List (Node τ))
  | 0, _ => exhaust
  | fuel + 1, terminator => do
    skipTerms
    if ← sees terminator then return []
    else if ← sees .eof then fail terminator.name
    else
      let first ← statement fuel
      if (← sees .term) || (← sees terminator) then
        return first :: (← statements fuel terminator)
      else fail "end of statement"

/-- A declaration, a function, the other half of a branch, an assignment or an expression. -/
def statement : Nat → m (Node τ)
  | 0 => exhaust
  | fuel + 1 => do
    match ← peek with
    | .word .val => declaration fuel .val
    | .word .var => declaration fuel .var
    | .word .define => function fuel
    | .word .otherwise =>
      let start ← advance
      let body ← alternative fuel
      return .orElse (← tagFrom start) body
    | .valueId name =>
      if (← get).second = .assign then
        let start ← advance
        let _ ← advance
        let value ← binary fuel 1 false
        return .assign (← tagFrom start) name value
      else binary fuel 1 false
    | _ => binary fuel 1 false

/-- Statements between braces. -/
def block : Nat → m (Node τ)
  | 0 => exhaust
  | fuel + 1 => do
    let start ← expect (.opening .curly)
    let body ← statements fuel (.closing .curly)
    let _ ← expect (.closing .curly)
    return .block (← tagFrom start) body

/-- A variable with an optional type and an optional value. -/
def declaration : Nat → Mutability → m (Node τ)
  | 0, _ => exhaust
  | fuel + 1, mutability => do
    let start ← advance
    let name ← valueName
    let type ← typeName?
    let value ←
      match ← peek with
      | .assign => do
        let _ ← advance
        binary fuel 1 false
      | .opening .curly => block fuel
      | _ => missing
    return .declare (← tagFrom start) mutability name type value

/-- A function with its parameters, an optional result type and a block. -/
def function : Nat → m (Node τ)
  | 0 => exhaust
  | fuel + 1 => do
    let start ← advance
    let name ← valueName
    let _ ← expect (.opening .round)
    let params ← parameters fuel
    let _ ← expect (.closing .round)
    let result ← typeName?
    let body ← block fuel
    return .define (← tagFrom start) name params body result

/-- A branch whose other half is a block, another branch or left out. -/
def conditional : Nat → m (Node τ)
  | 0 => exhaust
  | fuel + 1 => do
    let start ← advance
    let pred ← binary fuel 1 true
    let yes ← block fuel
    let no ←
      if ← sees (.word .otherwise) then do
        let _ ← advance
        alternative fuel
      else missing
    return .branch (← tagFrom start) pred yes no

/-- What may follow the reserved word of the other half. -/
def alternative : Nat → m (Node τ)
  | 0 => exhaust
  | fuel + 1 => do
    if ← sees (.word .cond) then conditional fuel else block fuel

/-- A loop. -/
def whileLoop : Nat → m (Node τ)
  | 0 => exhaust
  | fuel + 1 => do
    let start ← advance
    let pred ← binary fuel 1 true
    let body ← block fuel
    return .loop (← tagFrom start) pred body

/-- An expression whose operators, outside brackets, are at least at level `least`. A guard is a
predicate: its calls take no trailing block. -/
def binary : Nat → Nat → Bool → m (Node τ)
  | 0, _, _ => exhaust
  | fuel + 1, least, guarded => do
    let start := (← get).current.span
    let left ← unary fuel guarded
    binaryRest fuel least guarded start left

/-- The operators that follow a left operand. -/
def binaryRest : Nat → Nat → Bool → Span → Node τ → m (Node τ)
  | 0, _, _, _, _ => exhaust
  | fuel + 1, least, guarded, start, left => do
    match ← peek with
    | .symbol op =>
      if level op < least then return left
      else
        let _ ← advance
        let right ← binary fuel (rightLevel op) guarded
        binaryRest fuel least guarded start (.binary (← tagFrom start) op left right)
    | _ => return left

/-- A minus sign subtracts its operand from zero. -/
def unary : Nat → Bool → m (Node τ)
  | 0, _ => exhaust
  | fuel + 1, guarded => do
    if ← sees (.symbol "-") then
      let start ← advance
      let zero := Node.leaf (← Tagging.tag start) (.int "0")
      let operand ← unary fuel guarded
      return .binary (← tagFrom start) "-" zero operand
    else primary fuel guarded

/-- An expression without operators outside brackets. -/
def primary : Nat → Bool → m (Node τ)
  | 0, _ => exhaust
  | fuel + 1, guarded => do
    match ← peek with
    | .int text => tokenLeaf (.int text)
    | .real text => tokenLeaf (.real text)
    | .word .yes => tokenLeaf (.bool Keyword.yes.spelling)
    | .word .no => tokenLeaf (.bool Keyword.no.spelling)
    | .typeId name => tokenLeaf (.typeId name)
    | .symbol text => tokenLeaf (.symbolId text)
    | .valueId name =>
      let start := (← get).current.span
      let callee ← tokenLeaf (.valueId name)
      if ← sees (.opening .round) then call fuel guarded start callee else return callee
    | .opening .round => parenthesized fuel
    | .opening .square =>
      let start ← advance
      let elements ← sequence fuel (.closing .square)
      let _ ← expect (.closing .square)
      return .aggregate (← tagFrom start) .list elements
    | .opening .curly => block fuel
    | .word .cond => conditional fuel
    | .word .loop => whileLoop fuel
    | _ => fail "expression"

/-- The arguments of a call and, outside guards, a trailing block. -/
def call : Nat → Bool → Span → Node τ → m (Node τ)
  | 0, _, _, _ => exhaust
  | fuel + 1, guarded, start, callee => do
    let _ ← expect (.opening .round)
    let args ← sequence fuel (.closing .round)
    let _ ← expect (.closing .round)
    if !guarded && (← sees (.opening .curly)) then
      let trailing ← block fuel
      return .call (← tagFrom start) callee args (some trailing)
    else
      return .call (← tagFrom start) callee args none

/-- Nothing, one expression or a tuple between round brackets. -/
def parenthesized : Nat → m (Node τ)
  | 0 => exhaust
  | fuel + 1 => do
    let start ← advance
    if ← sees (.closing .round) then
      let _ ← advance
      return .leaf (← tagFrom start) .unit
    else
      let first ← binary fuel 1 false
      if ← sees .comma then
        let others ← tupleRest fuel
        let _ ← expect (.closing .round)
        return .aggregate (← tagFrom start) .tuple (first :: others)
      else
        let _ ← expect (.closing .round)
        return first

/-- Further elements of a tuple, each after a comma; the last comma may close it. -/
def tupleRest : Nat → m (List (Node τ))
  | 0 => exhaust
  | fuel + 1 => do
    if ← sees .comma then
      let _ ← advance
      if ← sees (.closing .round) then return []
      else
        let next ← binary fuel 1 false
        return next :: (← tupleRest fuel)
    else return []

/-- Expressions with commas between them up to a token of the given kind, which is not taken. A
comma may stand after the last one. -/
def sequence : Nat → Token.Kind → m (List (Node τ))
  | 0, _ => exhaust
  | fuel + 1, close => do
    if ← sees close then return []
    else
      let first ← binary fuel 1 false
      unless ← sees close do
        let _ ← expect .comma
      return first :: (← sequence fuel close)

end

/-- Enough nested productions for the tokens that are left. -/
def fuelFor (c : Cursor) : Nat :=
  8 * (c.rest.length + 2)

/-- The name of a module, right after its first reserved word. -/
def moduleName (anonymous : String) : m String := do
  match ← peek with
  | .valueId name | .typeId name => let _ ← advance; return name
  | _ => return anonymous

/-- A whole program. A module that does not say its name takes `anonymous`. -/
def program (anonymous : String) : m (Node τ) := do
  skipTerms
  let start := (← get).current.span
  let fuel := fuelFor (← get)
  if ← sees (.word .beginModule) then
    let _ ← advance
    let name ← moduleName anonymous
    if (← sees .term) || (← sees (.word .endModule)) then
      let body ← statements fuel (.word .endModule)
      let _ ← expect (.word .endModule)
      skipTerms
      if ← sees .eof then return .program (← tagFrom start) name body
      else fail "end of input"
    else fail "end of statement"
  else
    let body ← statements fuel .eof
    return .program (← tagFrom start) anonymous body

end Productions

/-- Whether a token list begins a module that says its own name. -/
def isNamed : List Token → Bool
  | [] => false
  | token :: rest =>
    match token.kind with
    | .term => isNamed rest
    | .word .beginModule =>
      match rest with
      | ⟨.valueId _, _, _⟩ :: _ | ⟨.typeId _, _, _⟩ :: _ => true
      | _ => false
    | _ => false

/-- The cursor at the start of a token list. -/
def start : List Token → Cursor
  | [] => ⟨⟨.eof, .origin, ""⟩, [], .origin⟩
  | token :: rest => ⟨token, rest, .origin⟩

/-- Reads a token list as a program, with numbers dealt from 1: a new tree has a placeholder for its
root, and that has number 0. The tree comes with the first number that is left. -/
def ofTokens (anonymous : String) (tokens : List Token) : Except Failure (Node Tag × Nat) :=
  ((program anonymous : Dealing (Node Tag)).run 1).run' (start tokens)

end Parser

/-- Reads a source text as a program with numbered nodes, and gives the first number that is left. A
module that does not say its name takes `anonymous`. -/
def Node.parseNumbered (anonymous source : String) : Except ParseError (Node Tag × Nat) :=
  match Parser.ofTokens anonymous (Token.tokenize source) with
  | .ok result => .ok result
  | .error failure =>
    .error ⟨failure.cause, failure.token,
      ParseError.snippetAt source failure.token.span.start.offset⟩

/-- Reads a source text as a program. A module that does not say its name takes `anonymous`. -/
def Node.parse (anonymous source : String) : Except ParseError (Node Span) :=
  (Node.parseNumbered anonymous source).map fun (tree, _) => tree.map Tag.span

/-- Whether a source text leaves its module without a name. -/
def Node.isAnonymous (source : String) : Bool :=
  !Parser.isNamed (Token.tokenize source)

end ScriptVM
