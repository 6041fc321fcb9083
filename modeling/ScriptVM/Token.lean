import ScriptVM.Source.Span

/-!
Tokens of the language: their kinds, the names diagnostics use for them, and the kind that a lexeme
has. The kind of a token is a function of its lexeme alone; only how far a lexeme reaches depends on
what stands before it.
-/
namespace ScriptVM

/-- The reserved words. -/
inductive Keyword where
  | beginModule
  | endModule
  | define
  | val
  | var
  | cond
  | otherwise
  | loop
  | yes
  | no
deriving DecidableEq, Repr

namespace Keyword

/-- How a reserved word is written. -/
def spelling : Keyword → String
  | beginModule => "module"
  | endModule => "end"
  | define => "def"
  | val => "val"
  | var => "var"
  | cond => "if"
  | otherwise => "else"
  | loop => "while"
  | yes => "true"
  | no => "false"

/-- Every reserved word. -/
def all : List Keyword :=
  [beginModule, endModule, define, val, var, cond, otherwise, loop, yes, no]

/-- The reserved word with this spelling. -/
def ofSpelling? (word : String) : Option Keyword :=
  all.find? fun keyword => keyword.spelling == word

end Keyword

/-- The three kinds of bracket. -/
inductive Bracket where
  | round
  | square
  | curly
deriving DecidableEq, Repr

namespace Bracket

/-- The opening character. -/
def left : Bracket → Char
  | round => '('
  | square => '['
  | curly => '\x7b'

/-- The closing character. -/
def right : Bracket → Char
  | round => ')'
  | square => ']'
  | curly => '\x7d'

end Bracket

/-- Kinds of token. Literals keep their text: their values are read when the constant pool is built,
so that a literal out of range is reported once. -/
inductive Token.Kind where
  | int (text : String)
  | real (text : String)
  | valueId (name : String)
  | typeId (name : String)
  | symbol (text : String)
  | word (keyword : Keyword)
  | assign
  | comma
  | opening (bracket : Bracket)
  | closing (bracket : Bracket)
  | term
  | eof
  | error (reason : String)
deriving DecidableEq, Repr

namespace Token.Kind

/-- The name of a kind in diagnostics. -/
def name : Kind → String
  | int _ => "integer"
  | real _ => "real"
  | valueId _ => "identifier"
  | typeId _ => "type name"
  | symbol _ => "operator"
  | word keyword => "`" ++ keyword.spelling ++ "`"
  | assign => "`=`"
  | comma => "`,`"
  | opening bracket => "`" ++ bracket.left.toString ++ "`"
  | closing bracket => "`" ++ bracket.right.toString ++ "`"
  | term => "end of statement"
  | eof => "end of input"
  | error _ => "error"

/-- The text that a kind carries. -/
def payload? : Kind → Option String
  | int text | real text | valueId text | typeId text | symbol text | error text => some text
  | _ => none

/-- Whether a token of this kind can be the last one of an operand. After such a token a minus
sign is an operator; elsewhere it may be the sign of a literal. -/
def endsOperand : Kind → Bool
  | int _ | real _ | valueId _ | typeId _ => true
  | word .yes | word .no => true
  | closing _ => true
  | _ => false

end Token.Kind

/-- A token with its place and the exact text it was read from. -/
structure Token where
  kind : Token.Kind
  span : Span
  lexeme : String
deriving DecidableEq, Repr

end ScriptVM
