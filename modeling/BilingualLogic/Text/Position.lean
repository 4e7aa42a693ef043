/-!
Places in a text: the offset in bytes, and line and column counted from one. A line ends with a line feed; every other
character takes a column.
-/

namespace BilingualLogic.Text

structure Position where
  offset : Nat
  line : Nat
  column : Nat
deriving DecidableEq, Repr, Inhabited

def Position.start : Position := ⟨0, 1, 1⟩

/-- The place behind a character. -/
def Position.after (p : Position) (c : Char) : Position :=
  if c = '\n' then ⟨p.offset + c.utf8Size, p.line + 1, 1⟩
  else ⟨p.offset + c.utf8Size, p.line, p.column + 1⟩

/-- A stretch of text: where it starts, and the offset behind it. -/
structure Span where
  start : Position
  stop : Nat
deriving DecidableEq, Repr, Inhabited

/-- What is left of a text from some place on. -/
structure Cursor where
  rest : List Char
  position : Position

def Cursor.ofString (s : String) : Cursor := ⟨s.toList, .start⟩

end BilingualLogic.Text
