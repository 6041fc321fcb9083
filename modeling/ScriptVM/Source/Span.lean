/-!
Positions and spans in a source text.

Offsets and columns count UTF-8 bytes, lines and columns start at one, and the position reached
after a stretch of text is a fold of `Pos.advance` over its characters.
-/
namespace ScriptVM

/-- A place in a source text, between two characters. -/
structure Pos where
  /-- Bytes before this place. -/
  offset : Nat
  /-- One more than the newlines before this place. -/
  line : Nat
  /-- One more than the bytes since the last newline. -/
  column : Nat
deriving DecidableEq, Repr, Inhabited

namespace Pos

/-- The place before the first character. -/
def origin : Pos := ⟨0, 1, 1⟩

/-- The place reached by passing one character. -/
def advance (p : Pos) (c : Char) : Pos :=
  if c = '\n' then ⟨p.offset + c.utf8Size, p.line + 1, 1⟩
  else ⟨p.offset + c.utf8Size, p.line, p.column + c.utf8Size⟩

/-- The place reached by passing a stretch of text. -/
def after (p : Pos) (text : List Char) : Pos :=
  text.foldl advance p

theorem after_nil (p : Pos) : p.after [] = p := rfl

theorem after_cons (p : Pos) (c : Char) (text : List Char) :
    p.after (c :: text) = (p.advance c).after text := rfl

/-- Line and column, as diagnostics print them. -/
def render (p : Pos) : String :=
  toString p.line ++ ":" ++ toString p.column

end Pos

/-- A stretch of source text between two places. -/
structure Span where
  start : Pos
  stop : Pos
deriving DecidableEq, Repr, Inhabited

namespace Span

/-- The empty span at one place. -/
def point (p : Pos) : Span := ⟨p, p⟩

/-- The span of nodes that no source text produced. -/
def origin : Span := point Pos.origin

/-- The smallest span that covers both. On equal offsets the start is the left one's and the end is
the right one's. -/
def merge (left right : Span) : Span where
  start := if right.start.offset < left.start.offset then right.start else left.start
  stop := if right.stop.offset < left.stop.offset then left.stop else right.stop

/-- Both ends, as diagnostics print them. -/
def render (s : Span) : String :=
  s.start.render ++ "-" ++ s.stop.render

end Span

end ScriptVM
