import TextTemplate.Text.Blank

/-! # Characters of data files

  Which characters a data file may hold, which of them end a line, and where in
  a file something stands.  Lines are counted by line feeds alone, although more
  characters than these end a line inside a quoted text.
-/

namespace TextTemplate.Data

/-- The code points that a data file may hold, as closed ranges. -/
def allowedRanges : List (Nat × Nat) :=
  [(0x20, 0x7E), (0x09, 0x0A), (0x0D, 0x0D), (0x85, 0x85), (0xA0, 0xD7FF), (0xE000, 0xFFFD),
   (0x10000, 0x10FFFF)]

/-- May a data file hold the character? -/
def isAllowed (c : Char) : Bool := Text.inRanges allowedRanges c.toNat

/-- Is the character a blank inside a line? -/
def isInlineBlank (c : Char) : Bool := c == ' ' || c == '\t'

/-- Does the character end a line? -/
def isLineEnd (c : Char) : Bool := c == '\n' || c == '\x85' || c == '\u2028' || c == '\u2029'

/-- A place in a file. -/
structure Place where
  /-- The number of line feeds in front of it. -/
  line : Nat
  /-- The number of characters in front of it. -/
  position : Nat
  deriving Repr, DecidableEq

namespace Place

/-- The place where a file starts. -/
def start : Place := ⟨0, 0⟩

/-- The place behind a character. -/
def next (p : Place) (c : Char) : Place :=
  ⟨if c = '\n' then p.line + 1 else p.line, p.position + 1⟩

/-- The place behind a text. -/
def after (p : Place) (s : List Char) : Place := s.foldl next p

/-- The place behind a text is as many characters on as the text is long. -/
theorem position_after (p : Place) (s : List Char) :
    (p.after s).position = p.position + s.length := by
  induction s generalizing p with
  | nil => rfl
  | cons c rest ih =>
    calc ((p.next c).after rest).position
        = (p.next c).position + rest.length := ih _
      _ = p.position + (c :: rest).length := by simp only [next, List.length_cons]; omega

end Place

end TextTemplate.Data
