import TextTemplate.Proofs.Markup.Counting
import TextTemplate.Proofs.Markup.Cutting

/-! # The places of tokens

  Every token of a text stands in it at its position and carries the line and the
  column of this position, and so does the end of the text.  A tag that is not
  closed leaves an error with the place of its opening mark (`places_of_scan`).

  The scan gets its places from one counter that never goes back, and a text that
  is cut into pieces says which places it is asked for: those of the pieces, in
  their order (`Piece.ascending_positions`), each of which is the place behind the
  pieces before (`Piece.tokens_placed`, by induction on the pieces).
-/

namespace TextTemplate

namespace Markup

open Piece

/-- The token is that of a piece of the text, and starts where the piece does. -/
def Token.StartsIn (s : List Char) (t : Token) : Prop :=
  ∃ (front : List Char) (piece : Piece) (rest : List Char),
    s = front ++ (piece.chars ++ rest) ∧ piece.chars ≠ [] ∧
      t = piece.token front.length t.location

theorem Piece.position_token (piece : Piece) (position : Nat) (location : Location) :
    (piece.token position location).position = position := by cases piece <;> rfl

theorem Piece.location_token (piece : Piece) (position : Nat) (location : Location) :
    (piece.token position location).location = location := by cases piece <;> rfl

/-- No piece that is cut off is empty. -/
theorem Cut.chars_ne_nil {left : List Char} {pieces : List Piece} (h : Cut left pieces) :
    ∀ piece ∈ pieces, piece.chars ≠ [] := by
  induction h with
  | nil => nofun
  | plain hne _ _ _ ih => exact List.forall_mem_cons.2 ⟨hne, ih⟩
  | @tag kind _ _ _ _ ih =>
    refine List.forall_mem_cons.2 ⟨?_, ih⟩
    cases kind <;> exact List.cons_ne_nil _ _

section tokens

variable {s left : List Char} {pieces : List Piece}

/-- The tokens of pieces start where the pieces do, and carry the places of their starts. -/
theorem Piece.tokens_placed (front : List Char) (hs : s = front ++ (charsOf pieces ++ left))
    (hchars : ∀ piece ∈ pieces, piece.chars ≠ []) :
    ∀ t ∈ tokens front.length (Location.start.after front) pieces,
      t.StartsIn s ∧ t.location = .ofPosition s t.position := by
  induction pieces generalizing front with
  | nil => nofun
  | cons piece rest ih =>
    have hfirst : s = front ++ (piece.chars ++ (charsOf rest ++ left)) := by
      rw [hs, charsOf_cons, List.append_assoc]
    obtain ⟨hpiece, hmore⟩ := List.forall_mem_cons.1 hchars
    rw [tokens, ← Location.after_append, ← List.length_append]
    refine List.forall_mem_cons.2 ⟨⟨?_, ?_⟩, ?_⟩
    · exact ⟨front, piece, _, hfirst, hpiece, by rw [location_token]⟩
    · rw [location_token, position_token, hfirst, Location.ofPosition_append]
    · exact ih _ (by rw [hfirst, List.append_assoc]) hmore

/-- The tokens of pieces stand in the order of the pieces, and between the ends of them. -/
theorem Piece.ascending_positions (position : Nat) (location : Location) (pieces : List Piece) :
    (position :: ((tokens position location pieces).map (·.position) ++
      [position + (charsOf pieces).length])).Pairwise (· ≤ ·) := by
  induction pieces generalizing position location with
  | nil => simp [tokens, charsOf]
  | cons piece rest ih =>
    have hrest := ih (position + piece.chars.length) (location.after piece.chars)
    rw [tokens, List.map_cons, position_token, charsOf_cons, List.length_append, ← Nat.add_assoc]
    -- What comes after the piece comes after its start as well.
    have hfrom : (position :: ((tokens (position + piece.chars.length)
        (location.after piece.chars) rest).map (·.position) ++
          [position + piece.chars.length + (charsOf rest).length])).Pairwise (· ≤ ·) := by
      obtain ⟨hnext, hmore⟩ := List.pairwise_cons.1 hrest
      refine List.pairwise_cons.2 ⟨fun p hp => ?_, hmore⟩
      exact Nat.le_trans (Nat.le_add_right ..) (hnext p hp)
    refine List.pairwise_cons.2 ⟨fun p hp => ?_, hfrom⟩
    rcases List.mem_cons.1 hp with rfl | hp
    · exact Nat.le_refl p
    · exact (List.pairwise_cons.1 hfrom).1 p hp

end tokens

/-- Either a text is scanned: then every token stands in it at its position and carries the line and
    the column of this position, and so does the token of the end, behind all of them.  Or a tag is
    not closed: then the error carries the line and the column of the first such tag's opening mark,
    behind the tokens that stand before it. -/
theorem places_of_scan (text : String) :
    (∀ tokens stop, Token.tokenize text = .ok (tokens, stop) →
      (∀ t ∈ tokens, t.StartsIn text.toList ∧
        t.location = .ofPosition text.toList t.position) ∧
      stop.position = text.length ∧ stop.location = .ofPosition text.toList text.length ∧
      (tokens.map (·.position) ++ [stop.position]).Pairwise (· ≤ ·)) ∧
    ∀ fault, Token.tokenize text = .error fault → ∃ pieces kind inside,
      CutInto text.toList pieces (Token.opening kind ++ inside) ∧
      ¬ Token.closing kind <:+: inside ∧ fault.cause = .unterminated kind ∧
      fault.location = .ofPosition text.toList (charsOf pieces).length ∧
      ((Piece.tokens 0 .start pieces).map (·.position) ++
        [(charsOf pieces).length]).Pairwise (· ≤ ·) := by
  obtain ⟨pieces, left, hscanned⟩ := Scanned.total text.toList
  obtain ⟨hcut, hstops⟩ := hscanned.cutInto
  have hchars := hcut.cut.chars_ne_nil
  have hascending := (List.pairwise_cons.1 (ascending_positions 0 .start pieces)).2
  rw [Nat.zero_add] at hascending
  cases hstops with
  | nil =>
    have hwhole : text.toList = charsOf pieces := by rw [hcut.whole, List.append_nil]
    have hlength : (charsOf pieces).length = text.length := by rw [← hwhole, String.length_toList]
    constructor
    · intro tokens stop htokens
      obtain ⟨rfl, rfl⟩ :=
        Prod.mk.inj (Except.ok.inj (hscanned.tokenize_ok.symm.trans htokens))
      refine ⟨tokens_placed [] hcut.whole hchars, rfl, ?_, ?_⟩
      · rw [Token.endOf, Location.start_after, String.length_toList]
      · rw [Token.endOf, ← hlength]
        exact hascending
    · intro fault hfault
      cases hscanned.tokenize_ok.symm.trans hfault
  | @unclosed kind inside hunclosed =>
    constructor
    · intro tokens stop htokens
      cases hscanned.tokenize_error.symm.trans htokens
    · intro fault hfault
      obtain rfl := Except.error.inj (hscanned.tokenize_error.symm.trans hfault)
      refine ⟨pieces, kind, inside, hcut, hunclosed, rfl, ?_, hascending⟩
      show Location.start.after (charsOf pieces) = _
      rw [hcut.whole, Location.ofPosition_append]

/-- A tag that goes on in a third line, with another tag behind it. -/
def foldedText : String := "a\n  \x7b\x7b x\n \x7d\x7d{% if y %}"

/-- The tokens of `foldedText`. -/
def foldedTokens : List Token :=
  [⟨.text, "a\n  ", 0, ⟨1, 1⟩⟩, ⟨.tag .output, "x", 4, ⟨2, 3⟩⟩,
    ⟨.tag .directive, "if y", 12, ⟨3, 4⟩⟩]

/-- A tag in a second line that is not closed. -/
def brokenOffText : String := "ok\n  \x7b\x7b name"

/-- The tokens of `foldedText` and its end carry the places of their positions, and the error of
    `brokenOffText` that of the tag. -/
theorem foldedText_places :
    Token.tokenize foldedText = .ok (foldedTokens, ⟨22, ⟨3, 14⟩⟩) ∧
      (∀ t ∈ foldedTokens, t.StartsIn foldedText.toList ∧
        t.location = .ofPosition foldedText.toList t.position) ∧
      (⟨3, 14⟩ : Location) = .ofPosition foldedText.toList 22 ∧
      Token.tokenize brokenOffText = .error ⟨.unterminated .output, ⟨2, 3⟩⟩ ∧
      ∃ pieces inside,
        CutInto brokenOffText.toList pieces (Token.opening .output ++ inside) ∧
        (⟨2, 3⟩ : Location) = .ofPosition brokenOffText.toList (charsOf pieces).length := by
  have htokens : Token.tokenize foldedText = .ok (foldedTokens, ⟨22, ⟨3, 14⟩⟩) := by
    decide +kernel
  have hfault : Token.tokenize brokenOffText = .error ⟨.unterminated .output, ⟨2, 3⟩⟩ := by
    decide +kernel
  obtain ⟨hplaced, -, hstop, -⟩ := (places_of_scan foldedText).1 foldedTokens _ htokens
  obtain ⟨pieces, kind, inside, hcut, -, hcause, hplace, -⟩ :=
    (places_of_scan brokenOffText).2 _ hfault
  cases hcause
  exact ⟨htokens, hplaced, hstop, hfault, pieces, inside, hcut, hplace⟩

end Markup

end TextTemplate
