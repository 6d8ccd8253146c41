import TextTemplate.Proofs.Markup.Scanning

/-! # The one way to cut a text

  A text can be cut into plain pieces and tags in one way at most, if no opening
  mark starts in a plain piece, no tag goes on behind its first closing mark, and
  plain pieces are as long as they can be (`Cut`).  Marks are two characters wide
  and may overlap, so a mark that starts in a piece may end behind it.

  Scanning finds this way (`scan_iff_cut`).  Where a tag is not closed there is
  none, and scanning fails at the first such tag.  The induction is on the scan,
  which takes a plain piece and a tag at a time (`Scanned`).
-/

namespace TextTemplate

open Text

namespace Markup

/-! ### Pieces -/

/-- A part of a text: plain text, or a tag around its content. -/
inductive Piece where
  | plain (s : List Char)
  | tag (kind : TagKind) (content : List Char)
  deriving DecidableEq

namespace Piece

/-- The characters of a piece, with the marks of a tag. -/
def chars : Piece → List Char
  | .plain s => s
  | .tag kind content => Token.tagChars kind content

def isPlain : Piece → Bool
  | .plain _ => true
  | .tag _ _ => false

/-- The characters of pieces that stand one after the other. -/
def charsOf (pieces : List Piece) : List Char := pieces.flatMap chars

/-- The token of a piece: plain text as it is, the content of a tag without the blanks around it. -/
def token (position : Nat) (location : Location) : Piece → Token
  | .plain s => ⟨.text, String.ofList s, position, location⟩
  | .tag kind content => ⟨.tag kind, String.ofList (trimChars content), position, location⟩

/-- The tokens of pieces that stand one after the other, from a place on. -/
def tokens (position : Nat) (location : Location) : List Piece → List Token
  | [] => []
  | piece :: rest => piece.token position location ::
      tokens (position + piece.chars.length) (location.after piece.chars) rest

/-- A plain text as a piece, if it is not empty. -/
def ofPlain (s : List Char) : List Piece := if s.isEmpty then [] else [.plain s]

theorem charsOf_ofPlain (s : List Char) : charsOf (ofPlain s) = s := by
  cases s <;> simp [charsOf, ofPlain, chars]

theorem charsOf_cons (piece : Piece) (rest : List Piece) :
    charsOf (piece :: rest) = piece.chars ++ charsOf rest := List.flatMap_cons

theorem charsOf_append (a b : List Piece) : charsOf (a ++ b) = charsOf a ++ charsOf b :=
  List.flatMap_append

theorem tokens_ofPlain (position : Nat) (location : Location) (s : List Char) :
    tokens position location (ofPlain s) = Token.plain s position location := by
  cases s <;> rfl

theorem tokens_ofPlain_append (position : Nat) (location : Location) (s : List Char)
    (rest : List Piece) : tokens position location (ofPlain s ++ rest)
      = Token.plain s position location ++
        tokens (position + s.length) (location.after s) rest := by
  cases s <;> rfl

end Piece

open Piece

/-- The pieces are cut off from what is left of a text behind them: no plain piece is empty or
    stands beside another one, no opening mark starts in one, and no tag is closed before its end.
    A mark that starts in a plain piece may end in what follows. -/
inductive Cut (left : List Char) : List Piece → Prop where
  | nil : Cut left []
  | plain {s : List Char} {rest : List Piece} (nonempty : s ≠ [])
      (apart : ∀ next ∈ rest.head?, next.isPlain = false)
      (unopened : ∀ kind, ∀ i < s.length,
        ¬ StartsAt (Token.opening kind) (s ++ (charsOf rest ++ left)) i)
      (more : Cut left rest) : Cut left (.plain s :: rest)
  | tag {kind : TagKind} {content : List Char} {rest : List Piece}
      (shortest : ∀ i < content.length,
        ¬ StartsAt (Token.closing kind) (content ++ Token.closing kind) i)
      (more : Cut left rest) : Cut left (.tag kind content :: rest)

/-- The text is cut into the pieces and what is left behind them. -/
structure CutInto (text : List Char) (pieces : List Piece) (left : List Char) : Prop where
  whole : text = charsOf pieces ++ left
  cut : Cut left pieces

/-- A plain text in front of other pieces. -/
theorem Cut.ofPlain_append {s left : List Char} {rest : List Piece}
    (apart : ∀ next ∈ rest.head?, next.isPlain = false)
    (unopened : ∀ kind, ∀ i < s.length,
      ¬ StartsAt (Token.opening kind) (s ++ (charsOf rest ++ left)) i)
    (more : Cut left rest) : Cut left (ofPlain s ++ rest) := by
  cases s with
  | nil => exact more
  | cons c s => exact .plain (List.cons_ne_nil c s) apart unopened more

/-- Cutting stops where nothing is left, or where a tag is opened and not closed. -/
inductive Stops : List Char → Prop where
  | nil : Stops []
  | unclosed {kind : TagKind} {inside : List Char} : ¬ Token.closing kind <:+: inside →
      Stops (Token.opening kind ++ inside)

/-! ### The pieces of a scan -/

/-- The text is scanned piece by piece, until nothing is left or a tag is not closed. -/
inductive Scanned : List Char → List Piece → List Char → Prop where
  | plain {s : List Char} : Token.cutAtOpening s = none → Scanned s (ofPlain s) []
  | unclosed {s before inside : List Char} {kind : TagKind} :
      Token.cutAtOpening s = some (before, kind, inside) →
      Token.cutAtClosing kind inside = none →
      Scanned s (ofPlain before) (Token.opening kind ++ inside)
  | tag {s before inside content rest left : List Char} {kind : TagKind} {more : List Piece} :
      Token.cutAtOpening s = some (before, kind, inside) →
      Token.cutAtClosing kind inside = some (content, rest) →
      Scanned rest more left →
      Scanned s (ofPlain before ++ .tag kind content :: more) left

namespace Scanned

variable {s left left' : List Char} {pieces pieces' : List Piece}

/-- Every text is scanned.  What is left to scan behind a tag is shorter than the text. -/
theorem total (s : List Char) : ∃ pieces left, Scanned s pieces left := by
  induction hlength : s.length using Nat.strongRecOn generalizing s with
  | ind length ih =>
    cases hopening : Token.cutAtOpening s with
    | none => exact ⟨_, _, .plain hopening⟩
    | some cut =>
      obtain ⟨before, kind, inside⟩ := cut
      cases hclosing : Token.cutAtClosing kind inside with
      | none => exact ⟨_, _, .unclosed hopening hclosing⟩
      | some cut =>
        obtain ⟨content, rest⟩ := cut
        have hinside := Token.length_after_cutAtOpening hopening
        have hrest := Token.length_after_cutAtClosing hclosing
        obtain ⟨more, left, hmore⟩ := ih rest.length (by omega) rest rfl
        exact ⟨_, _, .tag hopening hclosing hmore⟩

/-- A text is scanned in one way only. -/
theorem unique (h : Scanned s pieces left) (h' : Scanned s pieces' left') : pieces = pieces' := by
  induction h generalizing pieces' with
  | plain hopening =>
    cases h' with
    | plain => rfl
    | unclosed hopening' | tag hopening' => cases hopening.symm.trans hopening'
  | unclosed hopening hclosing =>
    cases h' with
    | plain hopening' => cases hopening.symm.trans hopening'
    | unclosed hopening' =>
      cases hopening.symm.trans hopening'
      rfl
    | tag hopening' hclosing' =>
      cases hopening.symm.trans hopening'
      cases hclosing.symm.trans hclosing'
  | tag hopening hclosing _ ih =>
    cases h' with
    | plain hopening' => cases hopening.symm.trans hopening'
    | unclosed hopening' hclosing' =>
      cases hopening.symm.trans hopening'
      cases hclosing.symm.trans hclosing'
    | tag hopening' hclosing' hmore' =>
      cases hopening.symm.trans hopening'
      cases hclosing.symm.trans hclosing'
      rw [ih hmore']

/-- Scanning gives the tokens of the pieces if nothing is left. -/
theorem scanFrom_ok (h : Scanned s pieces []) (position : Nat) (location : Location) :
    Token.scanFrom position location s = .ok (tokens position location pieces) := by
  generalize hleft : ([] : List Char) = left at h
  induction h generalizing position location with
  | plain hopening =>
    rw [tokens_ofPlain, Token.scanFrom_of_plain hopening]
  | @unclosed _ _ _ kind => cases kind <;> cases hleft
  | @tag s before inside content rest left kind more hopening hclosing _ ih =>
    rw [Token.scanFrom_tag hopening hclosing, ih _ _ hleft, tokens_ofPlain_append, tokens,
      List.length_append, ← Nat.add_assoc, Location.after_append]
    rfl

/-- Scanning fails where a tag is not closed. -/
theorem scanFrom_error {kind : TagKind} {inside : List Char}
    (h : Scanned s pieces (Token.opening kind ++ inside)) (position : Nat) (location : Location) :
    Token.scanFrom position location s
      = .error ⟨.unterminated kind, location.after (charsOf pieces)⟩ := by
  generalize hleft : Token.opening kind ++ inside = left at h
  induction h generalizing position location with
  | plain => cases kind <;> cases hleft
  | @unclosed s before inside' kind' hopening hclosing =>
    obtain rfl : kind = kind' := by cases kind <;> cases kind' <;> simp [Token.opening] at hleft ⊢
    rw [charsOf_ofPlain, Token.scanFrom_of_unclosed hopening hclosing]
  | @tag s before inside' content rest left kind' more hopening hclosing _ ih =>
    have hplace : location.after (charsOf (ofPlain before ++ .tag kind' content :: more))
        = (location.after (before ++ Token.tagChars kind' content)).after (charsOf more) := by
      rw [charsOf_append, charsOf_cons, charsOf_ofPlain, ← List.append_assoc]
      exact Location.after_append ..
    rw [Token.scanFrom_tag hopening hclosing, ih _ _ hleft, hplace]
    rfl

/-- A text that is scanned has the tokens of the pieces, and its end. -/
theorem tokenize_ok {text : String} (h : Scanned text.toList pieces []) :
    Token.tokenize text = .ok (tokens 0 .start pieces, Token.endOf text) := by
  rw [Token.tokenize_eq, h.scanFrom_ok]
  rfl

/-- A text has no tokens if a tag of it is not closed. -/
theorem tokenize_error {text : String} {kind : TagKind} {inside : List Char}
    (h : Scanned text.toList pieces (Token.opening kind ++ inside)) :
    Token.tokenize text = .error ⟨.unterminated kind, Location.start.after (charsOf pieces)⟩ := by
  rw [Token.tokenize_eq, h.scanFrom_error]
  rfl

/-- What is scanned is cut. -/
theorem cutInto (h : Scanned s pieces left) : CutInto s pieces left ∧ Stops left := by
  induction h with
  | @plain s hopening =>
    refine ⟨⟨by rw [charsOf_ofPlain, List.append_nil], ?_⟩, .nil⟩
    have hnone := Token.cutAtOpening_eq_none_iff.1 hopening
    rw [← List.append_nil (ofPlain s)]
    refine Cut.ofPlain_append (by simp) ?_ .nil
    intro kind i _ hstart
    rw [show charsOf [] ++ [] = [] from rfl, List.append_nil] at hstart
    exact hnone kind hstart.isInfix
  | @unclosed s before inside kind hopening hclosing =>
    obtain ⟨rfl, hfirst⟩ := Token.cutAtOpening_eq_some_iff.1 hopening
    refine ⟨⟨by rw [charsOf_ofPlain], ?_⟩, .unclosed (Token.cutAtClosing_eq_none_iff.1 hclosing)⟩
    rw [← List.append_nil (ofPlain before)]
    exact Cut.ofPlain_append (by simp) hfirst .nil
  | @tag s before inside content rest left kind more hopening hclosing _ ih =>
    obtain ⟨⟨rfl, hmore⟩, hstops⟩ := ih
    obtain ⟨rfl, hfirst⟩ := Token.cutAtOpening_eq_some_iff.1 hopening
    obtain ⟨rfl, hshort⟩ := Token.cutAtClosing_eq_some_iff.1 hclosing
    have hbehind : Token.opening kind ++ (content ++ (Token.closing kind ++ (charsOf more ++ left)))
        = charsOf (.tag kind content :: more) ++ left := by
      simp [charsOf_cons, Piece.chars, Token.tagChars]
    rw [hbehind] at hfirst ⊢
    refine ⟨⟨by rw [charsOf_append, charsOf_ofPlain, List.append_assoc], ?_⟩, hstops⟩
    refine Cut.ofPlain_append (by simp [isPlain]) hfirst (.tag ?_ hmore)
    intro i hi hstart
    apply hshort i hi
    rw [← List.append_assoc]
    exact hstart.append _

/-- A plain text in front of what is scanned from a tag on. -/
theorem plain_cons {rest : List Char} (hs : s ≠ []) (h : Scanned rest pieces left)
    (hapart : ∀ next ∈ pieces.head?, next.isPlain = false)
    (hunopened : ∀ kind, ∀ i < s.length, ¬ StartsAt (Token.opening kind) (s ++ rest) i) :
    Scanned (s ++ rest) (.plain s :: pieces) left := by
  -- No plain piece comes first, so what the scan finds before its first tag is empty.
  have hplain : ∀ {before : List Char} {pieces : List Piece},
      (∀ next ∈ (ofPlain before ++ pieces).head?, next.isPlain = false) → before = [] := by
    intro before pieces hapart
    cases before with
    | nil => rfl
    | cons c before => cases hapart (.plain (c :: before)) rfl
  have hpiece : [Piece.plain s] = ofPlain s := by
    cases s with
    | nil => exact absurd rfl hs
    | cons c s => rfl
  cases h with
  | plain hopening =>
    rw [← List.append_nil (ofPlain rest)] at hapart
    obtain rfl := hplain hapart
    have hnone : Token.cutAtOpening (s ++ []) = none := by
      rw [Token.cutAtOpening_eq_none_iff]
      intro kind hmark
      obtain ⟨i, hends, hstart⟩ := startsAt_of_isInfix hmark
      rw [List.append_nil, Token.length_opening] at hends
      exact hunopened kind i (by omega) hstart
    have h := Scanned.plain hnone
    rw [List.append_nil, ← hpiece] at h
    rw [List.append_nil]
    exact h
  | @unclosed _ before inside kind hopening hclosing =>
    rw [← List.append_nil (ofPlain before)] at hapart
    obtain rfl := hplain hapart
    obtain ⟨rfl, -⟩ := Token.cutAtOpening_eq_some_iff.1 hopening
    have hfirst := Token.cutAtOpening_eq_some_iff.2 ⟨rfl, hunopened⟩
    exact hpiece ▸ .unclosed hfirst hclosing
  | @tag _ before inside content rest _ kind more hopening hclosing hmore =>
    obtain rfl := hplain hapart
    obtain ⟨rfl, -⟩ := Token.cutAtOpening_eq_some_iff.1 hopening
    have hfirst := Token.cutAtOpening_eq_some_iff.2 ⟨rfl, hunopened⟩
    have h := Scanned.tag hfirst hclosing hmore
    rw [← hpiece] at h
    exact h

/-- A tag in front of what is scanned. -/
theorem tag_cons {rest content : List Char} {kind : TagKind} (h : Scanned rest pieces left)
    (hclosed : ∀ i < content.length,
      ¬ StartsAt (Token.closing kind) (content ++ Token.closing kind) i) :
    Scanned (Token.tagChars kind content ++ rest) (.tag kind content :: pieces) left := by
  have hopening : Token.cutAtOpening (Token.tagChars kind content ++ rest)
      = some ([], kind, content ++ (Token.closing kind ++ rest)) := by
    rw [Token.cutAtOpening_eq_some_iff]
    exact ⟨by simp [Token.tagChars], nofun⟩
  have hclosing : Token.cutAtClosing kind (content ++ (Token.closing kind ++ rest))
      = some (content, rest) := by
    rw [Token.cutAtClosing_eq_some_iff]
    refine ⟨rfl, fun i hi hstart => hclosed i hi ?_⟩
    -- A mark that starts in the content ends in the mark behind it at the latest.
    rw [← List.append_assoc] at hstart
    refine hstart.of_append ?_
    rw [List.length_append]
    omega
  exact .tag hopening hclosing h

end Scanned

/-- What is cut is scanned, if cutting stops where it does. -/
theorem CutInto.scanned {text left : List Char} {pieces : List Piece}
    (h : CutInto text pieces left) (hstops : Stops left) : Scanned text pieces left := by
  obtain ⟨rfl, hcut⟩ := h
  induction hcut with
  | nil =>
    cases hstops with
    | nil => exact .plain rfl
    | @unclosed kind inside hunclosed =>
      have hopening : Token.cutAtOpening (Token.opening kind ++ inside) = some ([], kind, inside) :=
        Token.cutAtOpening_eq_some_iff.2 ⟨rfl, nofun⟩
      exact .unclosed hopening (Token.cutAtClosing_eq_none_iff.2 hunclosed)
  | plain hne hapart hunopened _ ih =>
    rw [charsOf_cons, List.append_assoc]
    exact ih.plain_cons hne hapart hunopened
  | tag hclosed _ ih =>
    rw [charsOf_cons, List.append_assoc]
    exact ih.tag_cons hclosed

/-- A text that is one tag has one token. -/
theorem Token.scan_tagChars {kind : TagKind} {content : List Char}
    (hclosed : ∀ i < content.length,
      ¬ StartsAt (Token.closing kind) (content ++ Token.closing kind) i) :
    Token.scan (String.ofList (Token.tagChars kind content))
      = .ok [⟨.tag kind, String.ofList (trimChars content), 0, .start⟩] := by
  have hnothing : Scanned [] [] [] := .plain rfl
  have htag := (hnothing.tag_cons hclosed).scanFrom_ok 0 .start
  rw [List.append_nil] at htag
  rw [Token.scan_eq, String.toList_ofList, htag]
  rfl

/-- A text has its tokens if and only if it can be cut as a whole.  It is then cut in one way only,
    its tokens are those of the pieces, and it ends where they end.  Scanning fails if and only if a
    tag is not closed, at the first one that is not. -/
theorem scan_iff_cut (text : String) :
    (∀ tokens stop, Token.tokenize text = .ok (tokens, stop) ↔ ∃ pieces,
      CutInto text.toList pieces [] ∧
      (∀ other, CutInto text.toList other [] → other = pieces) ∧
      tokens = Piece.tokens 0 .start pieces ∧ text.length = (charsOf pieces).length ∧
      stop = ⟨text.length, Location.start.after (charsOf pieces)⟩) ∧
    ∀ fault, Token.tokenize text = .error fault ↔ ∃ pieces kind inside,
      CutInto text.toList pieces (Token.opening kind ++ inside) ∧
      ¬ Token.closing kind <:+: inside ∧
      fault = ⟨.unterminated kind, Location.start.after (charsOf pieces)⟩ := by
  constructor
  · intro tokens stop
    constructor
    · intro h
      obtain ⟨pieces, left, hscanned⟩ := Scanned.total text.toList
      obtain ⟨hcut, hstops⟩ := hscanned.cutInto
      cases hstops with
      | nil =>
        have hwhole : text.toList = charsOf pieces := by rw [hcut.whole, List.append_nil]
        obtain ⟨rfl, rfl⟩ := Prod.mk.inj (Except.ok.inj (h.symm.trans hscanned.tokenize_ok))
        refine ⟨pieces, hcut, ?_, rfl, ?_, ?_⟩
        · intro other hother
          exact (hother.scanned .nil).unique hscanned
        · rw [← String.length_toList, hwhole]
        · rw [Token.endOf, hwhole]
      | unclosed => cases h.symm.trans hscanned.tokenize_error
    · rintro ⟨pieces, hcut, -, rfl, -, rfl⟩
      have hwhole : text.toList = charsOf pieces := by rw [hcut.whole, List.append_nil]
      rw [(hcut.scanned .nil).tokenize_ok, Token.endOf, hwhole]
  · intro fault
    constructor
    · intro h
      obtain ⟨pieces, left, hscanned⟩ := Scanned.total text.toList
      obtain ⟨hcut, hstops⟩ := hscanned.cutInto
      cases hstops with
      | nil => cases h.symm.trans hscanned.tokenize_ok
      | @unclosed kind inside hunclosed =>
        refine ⟨pieces, kind, inside, hcut, hunclosed, ?_⟩
        exact Except.error.inj (h.symm.trans hscanned.tokenize_error)
    · rintro ⟨pieces, kind, inside, hcut, hunclosed, rfl⟩
      exact (hcut.scanned (.unclosed hunclosed)).tokenize_error

/-- Of three braces in a row the first two make the mark. -/
example : CutInto "{{{a}}}".toList [.tag .output ['\x7b', 'a'], .plain ['\x7d']] [] where
  whole := rfl
  cut := by
    have hbehind : Cut [] [.plain ['\x7d']] :=
      .plain (by decide) (by simp) (fun kind => by cases kind <;> decide) .nil
    exact .tag (by decide) hbehind

end Markup

end TextTemplate
