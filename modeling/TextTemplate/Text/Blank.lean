/-! # White space

  The characters that separate words: the expression reader skips them, and
  tags and directive parts are trimmed of them.  Main facts: trimming gives a
  text that neither starts nor ends with a blank character, and the set extends
  the four characters that core calls white space.
-/

namespace TextTemplate.Text

/-- Closed ranges of code points, ascending and apart. -/
def blankRanges : List (Nat × Nat) :=
  [(0x09, 0x0D), (0x1C, 0x20), (0x85, 0x85), (0xA0, 0xA0), (0x1680, 0x1680),
   (0x2000, 0x200A), (0x2028, 0x2029), (0x202F, 0x202F), (0x205F, 0x205F), (0x3000, 0x3000)]

/-- Does one of the closed ranges hold the number? -/
def inRanges (ranges : List (Nat × Nat)) (n : Nat) : Bool :=
  ranges.any fun r => r.1 ≤ n && n ≤ r.2

/-- Is the character white space? -/
def isBlank (c : Char) : Bool := inRanges blankRanges c.toNat

/-- Every character that core calls white space is blank. -/
theorem isBlank_of_isWhitespace (c : Char) (h : c.isWhitespace = true) : isBlank c = true := by
  simp [Char.isWhitespace] at h
  rcases h with ((h | h) | h) | h <;> subst h <;> decide

/-! ### Trimming -/

/-- The text without the blank characters at its start. -/
def trimLeft (s : List Char) : List Char := s.dropWhile isBlank

/-- The text without the blank characters at its end. -/
def trimRight (s : List Char) : List Char := (s.reverse.dropWhile isBlank).reverse

/-- The text without the blank characters at its two ends. -/
def trimChars (s : List Char) : List Char := trimRight (trimLeft s)

/-- A trimmed text starts with no blank character. -/
theorem isBlank_of_head_trimChars {s : List Char} {c : Char} (h : (trimChars s).head? = some c) :
    isBlank c = false := by
  have hstart : (trimChars s) <+: (trimLeft s) := by
    have := List.dropWhile_suffix isBlank (l := (trimLeft s).reverse)
    simpa [trimChars, trimRight] using List.reverse_prefix.2 this
  obtain ⟨rest, hrest⟩ := hstart
  have hhead : (trimLeft s).head? = some c := by
    rw [← hrest, List.head?_append, h]
    rfl
  have := List.head?_dropWhile_not isBlank s
  rw [show s.dropWhile isBlank = trimLeft s from rfl, hhead] at this
  exact this

/-- A trimmed text ends with no blank character. -/
theorem isBlank_of_getLast_trimChars {s : List Char} {c : Char}
    (h : (trimChars s).getLast? = some c) : isBlank c = false := by
  rw [trimChars, trimRight, List.getLast?_reverse] at h
  have := List.head?_dropWhile_not isBlank (trimLeft s).reverse
  rw [h] at this
  exact this

/-- The text without the blank characters at its two ends. -/
def trim (s : String) : String := String.ofList (trimChars s.toList)

/-- The text up to its first blank character, and what follows that character, trimmed. -/
def splitWord (s : List Char) : List Char × List Char :=
  let word := (trimLeft s).takeWhile (fun c => !isBlank c)
  (word, trimChars ((trimLeft s).drop word.length))

end TextTemplate.Text
