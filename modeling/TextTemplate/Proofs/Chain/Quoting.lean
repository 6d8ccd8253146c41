import TextTemplate.Proofs.Chain.Branches
import TextTemplate.Proofs.Expr.Parsing
import TextTemplate.Proofs.Expr.Spelling
import TextTemplate.Proofs.Markup.Cutting

/-! # A quoted text for every text

  Any text can be written between quote marks of either kind: with a backslash
  before every backslash and every mark of that kind in it (`Token.quoted`).  It
  is then one word, which says the text again (`Token.scan_quoted`).  Nothing else
  has to be escaped: a letter such as `n` means a control character only behind a
  backslash that is itself not escaped, and line breaks stand for themselves.

  A tag goes up to its first closing mark and knows nothing of quote marks.  A
  quoted text without such a mark in it can stand in a tag, and the tag writes the
  text (`quoted_stands_for_text`).
-/

namespace TextTemplate

namespace Token

/-! ### Writing a text between quote marks -/

/-- What is written for one character. -/
def escaped (mark c : Char) : List Char := if c = mark ∨ c = '\\' then ['\\', c] else [c]

/-- The text in quote marks, with a backslash before every backslash and every mark in it. -/
def quoted (mark : Char) (s : String) : String :=
  String.ofList (mark :: (s.toList.flatMap (escaped mark) ++ [mark]))

theorem stringBody_escapedChar {mark : Char} (hmark : mark = '"' ∨ mark = '\'') (c : Char)
    (s : List Char) : stringBody mark (escaped mark c ++ s)
      = (stringBody mark s).map fun body => (c :: body.1, body.2 + (escaped mark c).length) := by
  unfold escaped
  by_cases hself : c = mark ∨ c = '\\'
  · rw [if_pos hself]
    exact stringBody_self hmark hself s
  · rw [if_neg hself]
    exact stringBody_plain (not_or.1 hself).1 (not_or.1 hself).2 s

/-- A text in quote marks is one word, which says the text. -/
theorem scan_quoted {mark : Char} (hmark : mark = '"' ∨ mark = '\'') (s : String) :
    scan (quoted mark s) = .ok [⟨.string s, 0, (quoted mark s).length⟩] := by
  have hwrite : ∀ c ∈ s.toList, ∀ rest, stringBody mark (escaped mark c ++ rest)
      = (stringBody mark rest).map fun body =>
        (c :: body.1, body.2 + (escaped mark c).length) :=
    fun c _ => stringBody_escapedChar hmark c
  have hbody := stringBody_written hwrite []
  have hfront := front_quoted hmark hbody
  have hlength : (s.toList.flatMap (escaped mark) ++ [mark]).length
      = (s.toList.flatMap (escaped mark)).length + 1 := by simp
  rw [scan, ← String.length_toList, quoted, String.toList_ofList, scanFrom, hfront]
  simp only [← hlength, List.drop_length, String.ofList_toList]
  rw [scanFrom]
  simp [Nat.add_comm]

end Token

namespace Expr

/-- The value of a text in quote marks is the text, whatever the scope. -/
theorem evaluate_quoted {mark : Char} (hmark : mark = '"' ∨ mark = '\'') (s : String)
    (scope : Scope) : evaluate scope (Token.quoted mark s) = .ok (.string s, none) := by
  have hread : read (Token.quoted mark s) = .ok (.literal (.string s)) := by
    rw [read, Token.scan_quoted hmark]
    exact ofTokens_single _ (.string rfl) (by rintro ⟨digits, hnumber, -⟩; cases hnumber)
  rw [evaluate, hread]
  rfl

end Expr

open TextTemplate.Token (quoted escaped scan_quoted)

namespace Markup

open Text

/-! ### A quoted text in a tag -/

theorem trimChars_spaced {mark : Char} (hmark : isBlank mark = false) (body : List Char) :
    trimChars (' ' :: (mark :: (body ++ [mark]) ++ [' '])) = mark :: (body ++ [mark]) := by
  have hspace : isBlank ' ' = true := by decide
  simp [trimChars, trimLeft, trimRight, hspace, hmark]

/-- Spaces around a text close no tag that the text does not close. -/
theorem unclosed_spaced {s : List Char} (h : ¬ Token.closing .output <:+: s) :
    ∀ i < (' ' :: (s ++ [' '])).length,
      ¬ StartsAt (Token.closing .output) (' ' :: (s ++ [' ']) ++ Token.closing .output) i := by
  intro i hi hstart
  have hspace : ' ' ∉ Token.closing .output := by decide
  cases i with
  | zero => simp [StartsAt, Token.closing] at hstart
  | succ i =>
    rw [List.cons_append, startsAt_cons_succ, List.append_assoc, List.singleton_append] at hstart
    have hle : i ≤ s.length := by simpa [Nat.lt_succ_iff] using hi
    exact h (hstart.of_append (hstart.ends_before hspace hle)).isInfix

/-- A tag around a text in quote marks, with a space on either side. -/
theorem Token.scan_quotedTag {mark : Char} (hmark : mark = '"' ∨ mark = '\'') {s : String}
    (hopen : ¬ ['\x7d', '\x7d'] <:+: (quoted mark s).toList) :
    Token.scan ("\x7b\x7b " ++ quoted mark s ++ " \x7d\x7d")
      = .ok [⟨.tag .output, quoted mark s, 0, .start⟩] := by
  have hblank : isBlank mark = false := by rcases hmark with rfl | rfl <;> decide
  have htext : "\x7b\x7b " ++ quoted mark s ++ " \x7d\x7d"
      = String.ofList (Token.tagChars .output (' ' :: ((quoted mark s).toList ++ [' ']))) := by
    apply String.toList_injective
    simp [Token.tagChars, Token.opening, Token.closing]
  rw [htext, Token.scan_tagChars (unclosed_spaced hopen), quoted, String.toList_ofList,
    trimChars_spaced hblank]

/-- The document of such a tag. -/
theorem Document.read_quotedTag {mark : Char} (hmark : mark = '"' ∨ mark = '\'') {s : String}
    (hopen : ¬ ['\x7d', '\x7d'] <:+: (quoted mark s).toList) (rules : Rules) :
    Document.read rules ("\x7b\x7b " ++ quoted mark s ++ " \x7d\x7d")
      = ⟨[], .ok ⟨[.output (quoted mark s)], [], none⟩⟩ := by
  rw [Document.read, Token.scan_quotedTag hmark hopen]
  rfl

end Markup

/-- A template that is one tag writes the text that the tag's expression gives. -/
theorem Chain.render_output {expr s : String}
    (h : ∀ scope, Expr.evaluate scope expr = .ok (.string s, none)) (name : String)
    (blocks : Markup.Blocks) (bindings : List (String × Value)) :
    (Chain.derive ⟨name, ⟨[.output expr], blocks, none⟩⟩ none).render bindings
      = .ok ⟨s, []⟩ := by
  have htag : ∀ scope, Render.outputTag scope expr = .ok ⟨s, []⟩ := by
    intro scope
    have hevaluate : Render.evaluate scope expr = .ok (.string s, .empty) := by
      rw [Render.evaluate, h]
      rfl
    rw [Render.outputTag, hevaluate]
    show Except.ok (Render.Output.empty ++ ⟨s, []⟩) = _
    rw [Render.Output.empty_append]
  show Render.nodes _ _ _ false [.output expr] = _
  simp only [Render.nodes, Render.node, htag]
  show Except.ok (⟨s, []⟩ ++ Render.Output.empty) = _
  rw [Render.Output.append_empty]

/-- Every text is said by a text in quote marks of either kind: that one is one word with this
    content, its value is the text in every scope, and if it closes no tag, a tag around it writes
    the text and nothing is reported. -/
theorem quoted_stands_for_text {mark : Char} (hmark : mark = '"' ∨ mark = '\'') (s : String) :
    Token.scan (quoted mark s) = .ok [⟨.string s, 0, (quoted mark s).length⟩] ∧
    (∀ scope, Expr.evaluate scope (quoted mark s) = .ok (.string s, none)) ∧
    (¬ ['\x7d', '\x7d'] <:+: (quoted mark s).toList → ∀ rules, ∃ document,
      Markup.Document.read rules ("\x7b\x7b " ++ quoted mark s ++ " \x7d\x7d")
        = ⟨[], .ok document⟩ ∧
      ∀ name bindings, (Chain.derive ⟨name, document⟩ none).render bindings = .ok ⟨s, []⟩) := by
  refine ⟨scan_quoted hmark s, Expr.evaluate_quoted hmark s, ?_⟩
  intro hopen rules
  refine ⟨_, Markup.Document.read_quotedTag hmark hopen rules, ?_⟩
  intro name bindings
  exact Chain.render_output (Expr.evaluate_quoted hmark s) name [] bindings

/-- A text with both quote marks, a backslash before a letter, two braces apart and a line break. -/
def awkwardText : String := "it's \"\\n\\\" \x7d\n\x7d"

theorem awkwardText_quoted :
    quoted '\'' awkwardText = "'it\\'s \"\\\\n\\\\\" \x7d\n\x7d'" ∧
    Token.scan (quoted '\'' awkwardText) = .ok [⟨.string awkwardText, 0, 19⟩] ∧
    ∃ document, Markup.Document.read .default
        ("\x7b\x7b " ++ quoted '\'' awkwardText ++ " \x7d\x7d") = ⟨[], .ok document⟩ ∧
      (Chain.derive ⟨"awkward", document⟩ none).render [] = .ok ⟨awkwardText, []⟩ := by
  have hmark : '\'' = '"' ∨ '\'' = '\'' := .inr rfl
  obtain ⟨hscan, -, htag⟩ := quoted_stands_for_text hmark awkwardText
  obtain ⟨document, hread, hrender⟩ := htag (by decide +kernel) .default
  exact ⟨by decide +kernel, hscan, document, hread, hrender "awkward" []⟩

end TextTemplate
