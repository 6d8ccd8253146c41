import TextTemplate.Data.Character

/-! # Quoted texts in data files

  A quoted text runs to the next double quote that no backslash escapes.  An
  escape is a letter for a character, or a letter with the character's code; a
  code above the first plane may be written as a pair of halves.

  A quoted text may run over several lines.  Then the blanks around a line's end
  mean nothing, one line's end stands for one blank, and several of them stand
  for one fewer.  A line's end behind a backslash means nothing at all.  A line
  inside a quoted text may not start like a new document.
-/

namespace TextTemplate.Data

/-! ### Escapes -/

/-- The value of a hexadecimal digit. -/
def hexValue? (c : Char) : Option Nat :=
  if '0' ≤ c ∧ c ≤ '9' then some (c.toNat - 0x30)
  else if 'a' ≤ c ∧ c ≤ 'f' then some (c.toNat - 0x57)
  else if 'A' ≤ c ∧ c ≤ 'F' then some (c.toNat - 0x37)
  else none

/-- The number that some hexadecimal digits at the front of a text write. -/
def hexNumber? (count : Nat) (s : List Char) : Option Nat :=
  let digits := s.take count
  if digits.length < count then none
  else digits.foldlM (fun n c => (hexValue? c).map (16 * n + ·)) 0

/-- The character with a code; half of a pair is none. -/
def charOfCode? (code : Nat) : Option Char :=
  if code.isValidChar then some (Char.ofNat code) else none

/-- The characters that one letter after a backslash means. -/
def escapeLetters : List (Char × Char) :=
  [('"', '"'), ('\\', '\\'), ('/', '/'), ('b', '\x08'), ('f', '\x0c'), ('n', '\n'), ('r', '\r'),
   ('t', '\t'), ('\t', '\t'), (' ', ' '), ('0', '\x00'), ('a', '\x07'), ('v', '\x0b'),
   ('e', '\x1b'), ('N', '\x85'), ('_', '\xa0'), ('L', '\u2028'), ('P', '\u2029')]

/-- The character that a pair of halves means, the second of which is at the front of a text. -/
def pairedChar? (high : Nat) (s : List Char) : Option Char :=
  match s with
  | '\\' :: 'u' :: rest => do
    let low ← hexNumber? 4 rest
    if 0xDC00 ≤ low ∧ low ≤ 0xDFFF then
      charOfCode? (0x10000 + 0x400 * (high - 0xD800) + (low - 0xDC00))
    else none
  | _ => none

/-- What the text after a backslash means, and how many of its characters mean it. -/
def escape? : List Char → Option (Char × Nat)
  | 'x' :: rest => do return (← charOfCode? (← hexNumber? 2 rest), 3)
  | 'U' :: rest => do return (← charOfCode? (← hexNumber? 8 rest), 9)
  | 'u' :: rest => do
    let code ← hexNumber? 4 rest
    if 0xD800 ≤ code ∧ code ≤ 0xDBFF then return (← pairedChar? code (rest.drop 4), 11)
    else return (← charOfCode? code, 5)
  | c :: _ => (escapeLetters.lookup c).map (·, 1)
  | [] => none

/-! ### Lines -/

/-- The blanks and ends of lines since the last character that is neither, the last one first. -/
inductive Gap where
  /-- Only blanks. -/
  | blanks (s : List Char)
  /-- Ends of lines: the first one, unless a backslash takes its meaning, and those after it. -/
  | lineEnds (first? : Option Char) (later : List Char)

namespace Gap

/-- Nothing. -/
def empty : Gap := .blanks []

/-- What a gap means. -/
def text : Gap → List Char
  | .blanks s => s.reverse
  | .lineEnds (some '\n') [] => [' ']
  | .lineEnds (some '\n') later => later.reverse
  | .lineEnds first? later => first?.toList ++ later.reverse

/-- The gap with a blank more.  At the start of a line it means nothing. -/
def addBlank (c : Char) : Gap → Gap
  | .blanks s => .blanks (c :: s)
  | gap => gap

/-- The gap with a line's end more, which makes the blanks before it mean nothing. -/
def addLineEnd (c : Char) : Gap → Gap
  | .blanks _ => .lineEnds (some (lineFeed c)) []
  | .lineEnds first? later => .lineEnds first? (lineFeed c :: later)
where
  /-- The next line character means the same as a line feed. -/
  lineFeed (c : Char) : Char := if c = '\x85' then '\n' else c

end Gap

/-- Does the text, which starts a line, start like a new document? -/
def startsDocument : List Char → Bool
  | a :: b :: c :: rest =>
    ([a, b, c] == ['-', '-', '-'] || [a, b, c] == ['.', '.', '.']) &&
      rest.head?.all fun d => isInlineBlank d || d == '\n' || d == '\x85'
  | _ => false

/-! ### Reading -/

/-- A quoted text that has been read. -/
structure Quoted where
  content : List Char
  /-- The place behind it. -/
  place : Place
  /-- The text behind it. -/
  rest : List Char

namespace Quoted

/-- The quoted text with more in front of it. -/
def prepend (s : List Char) (q : Quoted) : Quoted := { q with content := s ++ q.content }

/-- Reads the rest of a quoted text, with the gap that stands in front of it. -/
def readFrom? (gap : Gap) (place : Place) : List Char → Option Quoted
  | [] => none
  | '"' :: rest => some ⟨gap.text, place.next '"', rest⟩
  | '\\' :: c :: rest =>
    if isLineEnd c then
      if startsDocument rest then none
      else (readFrom? (.lineEnds none []) (place.after ['\\', c]) rest).map (prepend gap.text)
    else do
      let (char, taken) ← escape? (c :: rest)
      let read ← readFrom? .empty (place.after ('\\' :: (c :: rest).take taken))
        (rest.drop (taken - 1))
      return read.prepend (gap.text ++ [char])
  | c :: rest =>
    if isInlineBlank c then readFrom? (gap.addBlank c) (place.next c) rest
    else if isLineEnd c then
      if startsDocument rest then none else readFrom? (gap.addLineEnd c) (place.next c) rest
    else (readFrom? .empty (place.next c) rest).map (prepend (gap.text ++ [c]))
termination_by s => s.length
decreasing_by all_goals simp only [List.length_drop, List.length_cons]; omega

/-- The text behind a quoted text is shorter than the text that it was read from. -/
theorem length_rest_of_readFrom? {gap : Gap} {place : Place} {s : List Char} {q : Quoted}
    (h : readFrom? gap place s = some q) : q.rest.length < s.length := by
  fun_induction readFrom? gap place s generalizing q with
  | case1 => cases h
  | case2 => cases h; simp
  | case3 => cases h
  | case4 gap place c rest _ _ ih =>
    obtain ⟨read, hread, rfl⟩ := Option.map_eq_some_iff.1 h
    have := ih hread
    simp only [prepend, List.length_cons]
    omega
  | case5 gap place c rest _ ih =>
    simp only [Option.bind_eq_bind, Option.bind_eq_some_iff, pure, Option.some.injEq] at h
    obtain ⟨⟨char, taken⟩, _, read, hread, rfl⟩ := h
    have := ih taken hread
    simp only [prepend, List.length_drop, List.length_cons] at this ⊢
    omega
  | case6 gap place c rest _ _ _ ih => have := ih h; simp only [List.length_cons]; omega
  | case7 => cases h
  | case8 gap place c rest _ _ _ _ _ ih => have := ih h; simp only [List.length_cons]; omega
  | case9 gap place c rest _ _ _ _ ih =>
    obtain ⟨read, hread, rfl⟩ := Option.map_eq_some_iff.1 h
    have := ih hread
    simp only [prepend, List.length_cons]
    omega

/-- The quoted text whose opening mark is at a place and has been read. -/
def read? (place : Place) (s : List Char) : Option Quoted := readFrom? .empty (place.next '"') s

end Quoted

end TextTemplate.Data
