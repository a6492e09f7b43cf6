/-
Reading positions in a source text.

A cursor is what is left of a source together with the position reached. A position is determined by what has been read:
the number of bytes, one more than the number of line ends, and one more than the number of runes since the last one.
-/
import LispMachine.Text.Rune

namespace LispMachine.Source

open Text (Rune)

structure Position where
  offset : Nat := 0
  line : Nat := 1
  column : Nat := 1
deriving DecidableEq, Repr

/-- the position after reading one more rune -/
def Position.advance (p : Position) (r : Rune) : Position :=
  if r.toChar = '\n' then ⟨p.offset + r.width, p.line + 1, 1⟩
  else ⟨p.offset + r.width, p.line, p.column + 1⟩

/-- the position after reading `rs` -/
def Position.advanceAll (p : Position) (rs : List Rune) : Position := rs.foldl Position.advance p

/-- line and column, as messages show them -/
def Position.text (p : Position) : String := s!"{p.line}:{p.column}"

structure Cursor where
  rest : List Rune
  pos : Position := {}
deriving DecidableEq, Repr

namespace Cursor

def ofRunes (rs : List Rune) : Cursor := { rest := rs }

def ofString (s : String) : Cursor := ofRunes (Rune.ofString s)

def ofBytes (bytes : List UInt8) : Cursor := ofRunes (Rune.decode bytes)

end Cursor

end LispMachine.Source
