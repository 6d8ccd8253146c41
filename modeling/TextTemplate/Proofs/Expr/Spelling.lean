import TextTemplate.Expr.Token
import TextTemplate.Text.Quoted

/-! # How words are spelled

  The scanner takes one word after the other from the front of a text.  So a text
  is made up of words, each of which is told from what stands behind it
  (`Reads.word`), with any white space between them (`Reads.blank`).  Behind a
  name, a keyword or a number something has to stand that cannot belong to it
  (`Parts`); quoted texts, symbols and most operators show where they end.
-/

namespace TextTemplate

namespace Token

/-- The text has tokens with these lexemes, wherever it stands. -/
def Reads (s : List Char) (lexemes : List Lexeme) : Prop :=
  ∀ position, ∃ tokens, scanFrom position s = .ok tokens ∧ tokens.map (·.lexeme) = lexemes

theorem Reads.nil : Reads [] [] := by
  intro position
  exact ⟨[], by rw [scanFrom], rfl⟩

/-- White space in front is skipped, one character like many. -/
theorem scanFrom_blank {c : Char} (hc : Text.isBlank c = true) (position : Nat) (s : List Char) :
    scanFrom position (c :: s) = scanFrom (position + 1) s := by
  have hskip : ∀ {c : Char}, Text.isBlank c = true → ∀ position s, scanFrom position (c :: s)
      = scanFrom (position + 1 + (s.takeWhile Text.isBlank).length)
        (s.drop (s.takeWhile Text.isBlank).length) := by
    intro c hc position s
    have hfront : front c s = .ok (none, (s.takeWhile Text.isBlank).length) := if_pos hc
    rw [scanFrom, hfront]
    simp only
    cases scanFrom _ _ with
    | error fault => rfl
    | ok tokens => rfl
  -- What is left behind a run of white space is left behind the rest of the run.
  rw [hskip hc]
  cases s with
  | nil => rfl
  | cons d s =>
    by_cases hd : Text.isBlank d = true
    · rw [hskip hd, List.takeWhile_cons_of_pos hd, List.length_cons, List.drop_succ_cons]
      congr 1
      omega
    · rw [List.takeWhile_cons_of_neg hd]
      rfl

theorem Reads.blank {c : Char} (hc : Text.isBlank c = true) {s : List Char}
    {lexemes : List Lexeme} (h : Reads s lexemes) : Reads (c :: s) lexemes := by
  intro position
  rw [scanFrom_blank hc]
  exact h (position + 1)

/-- A word and what stands behind it. -/
theorem Reads.word {c : Char} {w s : List Char} {lexeme : Lexeme} {lexemes : List Lexeme}
    (hfront : front c (w ++ s) = .ok (some lexeme, w.length)) (h : Reads s lexemes) :
    Reads (c :: w ++ s) (lexeme :: lexemes) := by
  intro position
  obtain ⟨tokens, hscan, htokens⟩ := h (position + 1 + w.length)
  refine ⟨⟨lexeme, position, position + 1 + w.length⟩ :: tokens, ?_, ?_⟩
  · rw [List.cons_append, scanFrom, hfront]
    simp only [List.drop_left, hscan]
    rfl
  · rw [List.map_cons, htokens]

/-- A word of one character. -/
theorem Reads.letter {c : Char} {s : List Char} {lexeme : Lexeme} {lexemes : List Lexeme}
    (hfront : front c s = .ok (some lexeme, 0)) (h : Reads s lexemes) :
    Reads (c :: s) (lexeme :: lexemes) :=
  Reads.word (w := []) hfront h

/-! ### What may stand behind a word -/

/-- The text starts with nothing that a name or a number would go on with. -/
inductive Parts : List Char → Prop where
  | nil : Parts []
  | mark {c : Char} (h : c ∈ [' ', '[', ']', ')', ',']) (s : List Char) : Parts (c :: s)
  | dot {d : Char} (h : Text.isDecimalDigit d = false) (s : List Char) : Parts ('.' :: d :: s)

theorem Parts.head {s : List Char} (h : Parts s) {c : Char} (hc : c ∈ s.head?) :
    continuesName c = false ∧ Text.isDecimalDigit c = false := by
  cases h with
  | nil => simp at hc
  | @mark d hmark s =>
    obtain rfl := Option.some.inj hc
    simp only [List.mem_cons, List.not_mem_nil, or_false] at hmark
    rcases hmark with rfl | rfl | rfl | rfl | rfl <;> decide
  | dot hd s =>
    obtain rfl := Option.some.inj hc
    decide

/-- A run of characters ends where what follows has none of them. -/
theorem takeWhile_append_of_head {p : Char → Bool} {w s : List Char} (hw : ∀ c ∈ w, p c = true)
    (hs : ∀ c ∈ s.head?, p c = false) : (w ++ s).takeWhile p = w := by
  rw [List.takeWhile_append_of_pos hw]
  cases s with
  | nil => simp
  | cons c s => simp [hs c rfl]

/-! ### Names and keywords -/

/-- The text is a name or a keyword. -/
def IsWord (n : String) : Prop :=
  ∃ c w, n.toList = c :: w ∧ startsName c = true ∧ ∀ d ∈ w, continuesName d = true

theorem toNat_lt_of_startsName {c : Char} (hc : startsName c = true) : c.toNat < 128 := by
  simp only [startsName, Bool.or_eq_true, Bool.and_eq_true, decide_eq_true_eq, beq_iff_eq] at hc
  rcases hc with ((⟨-, hz⟩ | ⟨-, hz⟩) | rfl) | rfl
  · exact Nat.lt_of_le_of_lt hz (by decide)
  · exact Nat.lt_of_le_of_lt hz (by decide)
  · decide
  · decide

/-- A character that starts a name starts nothing else. -/
theorem startsName_only {c : Char} (hc : startsName c = true) : Text.isBlank c = false ∧
    Text.isDecimalDigit c = false ∧ c ≠ '"' ∧ c ≠ '\'' ∧ c ∉ ['&', '|', '=', '!', '<', '>'] ∧
    operator1? c = none ∧ symbol? c = none := by
  have hascii : ∀ n < 128, startsName (Char.ofNat n) = true →
      Text.isBlank (Char.ofNat n) = false ∧ Text.isDecimalDigit (Char.ofNat n) = false ∧
      Char.ofNat n ≠ '"' ∧ Char.ofNat n ≠ '\'' ∧
      Char.ofNat n ∉ ['&', '|', '=', '!', '<', '>'] ∧
      operator1? (Char.ofNat n) = none ∧ symbol? (Char.ofNat n) = none := by
    decide +kernel
  have := hascii c.toNat (toNat_lt_of_startsName hc)
  rw [Char.ofNat_toNat] at this
  exact this hc

theorem operator2?_of_notMem {c : Char} (hc : c ∉ ['&', '|', '=', '!', '<', '>']) (d : Char) :
    operator2? c d = none := by
  unfold operator2?
  split <;> simp at hc ⊢

theorem front_of_startsName {c : Char} (hc : startsName c = true) (s : List Char) :
    front c s = .ok (some (word (String.ofList (c :: s.takeWhile continuesName))),
      (s.takeWhile continuesName).length) := by
  obtain ⟨hblank, hdigit, hdouble, hsingle, hpair, hoperator, hsymbol⟩ := startsName_only hc
  -- No operator of two characters starts with a letter, whatever follows it.
  have hnone : s.head?.bind (operator2? c) = none := by
    cases s with
    | nil => rfl
    | cons d s => exact operator2?_of_notMem hpair d
  simp [front, hblank, hdigit, hdouble, hsingle, hnone, hoperator, hsymbol, hc]

theorem Reads.name {n : String} (hn : IsWord n) {s : List Char} (hs : Parts s)
    {lexemes : List Lexeme} (h : Reads s lexemes) :
    Reads (n.toList ++ s) (Token.word n :: lexemes) := by
  obtain ⟨c, w, hchars, hc, hw⟩ := hn
  have hrun : (w ++ s).takeWhile continuesName = w :=
    takeWhile_append_of_head hw fun d hd => (hs.head hd).1
  have hfront := front_of_startsName hc (w ++ s)
  rw [hrun, ← hchars, String.ofList_toList] at hfront
  rw [hchars]
  exact .word hfront h

theorem isWord_keyword (k : Keyword) : IsWord k.text := by
  cases k with
  | yes => exact ⟨'t', ['r', 'u', 'e'], rfl, by decide, List.all_eq_true.1 (by decide)⟩
  | no => exact ⟨'f', ['a', 'l', 's', 'e'], rfl, by decide, List.all_eq_true.1 (by decide)⟩
  | null => exact ⟨'n', ['u', 'l', 'l'], rfl, by decide, List.all_eq_true.1 (by decide)⟩

theorem word_keyword (k : Keyword) : word k.text = .keyword k := by
  cases k <;> rfl

/-! ### Numbers -/

theorem isBlank_of_isDecimalDigit {c : Char} (hc : Text.isDecimalDigit c = true) :
    Text.isBlank c = false := by
  unfold Text.isDecimalDigit Text.digitValue? at hc
  cases hfound : Text.digitZeros.find? fun first => first ≤ c.toNat && c.toNat < first + 10 with
  | none =>
    rw [hfound] at hc
    cases hc
  | some first =>
    have hplace := List.find?_some hfound
    simp only [Bool.and_eq_true, decide_eq_true_eq] at hplace
    have hall : ∀ first ∈ Text.digitZeros, ∀ k < 10,
        Text.inRanges Text.blankRanges (first + k) = false := by decide +kernel
    have hdigit := hall first (List.mem_of_find?_eq_some hfound) (c.toNat - first) (by omega)
    rwa [Nat.add_sub_cancel' hplace.1] at hdigit

/-- What a number goes on with behind its first digit, and what follows the number: no digit, and no
    point with a digit if the number has no fraction. -/
inductive NumberEnds : List Char → List Char → Prop where
  | whole {w s : List Char} (digits : ∀ d ∈ w, Text.isDecimalDigit d = true)
      (behind : ∀ d ∈ s.head?, Text.isDecimalDigit d = false)
      (pointless : ∀ d more, s = '.' :: d :: more → Text.isDecimalDigit d = false) :
      NumberEnds w s
  | fraction {w f s : List Char} {d : Char} (digits : ∀ d ∈ w, Text.isDecimalDigit d = true)
      (places : ∀ e ∈ d :: f, Text.isDecimalDigit e = true)
      (behind : ∀ d ∈ s.head?, Text.isDecimalDigit d = false) : NumberEnds (w ++ '.' :: d :: f) s

/-- A number ends where it says. -/
theorem NumberEnds.numberTail_eq {w s : List Char} (h : NumberEnds w s) :
    numberTail (w ++ s) = w := by
  cases h with
  | whole digits behind pointless =>
    unfold numberTail
    simp only [takeWhile_append_of_head digits behind, List.drop_left]
    split
    · next d more => rw [if_neg (by simp [pointless d more rfl])]
    · rfl
  | @fraction w f s d digits places behind =>
    have hpoint : ∀ e ∈ ('.' :: d :: (f ++ s)).head?, Text.isDecimalDigit e = false := by
      intro e he
      obtain rfl := Option.some.inj he
      decide
    have hplaces : (f ++ s).takeWhile Text.isDecimalDigit = f :=
      takeWhile_append_of_head (fun e he => places e (List.mem_cons_of_mem _ he)) behind
    unfold numberTail
    rw [List.append_assoc, List.cons_append, List.cons_append]
    simp only [takeWhile_append_of_head digits hpoint, List.drop_left, hplaces]
    rw [if_pos (places d List.mem_cons_self)]

/-- A number in decimal digits ends where no digit follows, and no point with a digit. -/
theorem numberTail_of_parts {w s : List Char} (hw : ∀ d ∈ w, Text.isDecimalDigit d = true)
    (hs : Parts s) : numberTail (w ++ s) = w := by
  apply NumberEnds.numberTail_eq
  refine .whole hw (fun d hd => (hs.head hd).2) ?_
  rintro d more rfl
  cases hs with
  | mark hmark => simp at hmark
  | dot hd => exact hd

/-- A digit starts a number. -/
theorem front_number {c : Char} (hc : Text.isDecimalDigit c = true) (rest : List Char) :
    front c rest = .ok (some (.number (String.ofList (c :: numberTail rest))),
      (numberTail rest).length) := by
  simp [front, isBlank_of_isDecimalDigit hc, hc]

theorem Reads.number {c : Char} {w : List Char}
    (hdigits : ∀ d ∈ c :: w, Text.isDecimalDigit d = true) {s : List Char} (hs : Parts s)
    {lexemes : List Lexeme} (h : Reads s lexemes) :
    Reads (c :: w ++ s) (.number (String.ofList (c :: w)) :: lexemes) := by
  have hc := hdigits c List.mem_cons_self
  have htail : numberTail (w ++ s) = w :=
    numberTail_of_parts (fun d hd => hdigits d (List.mem_cons_of_mem _ hd)) hs
  apply Reads.word _ h
  rw [front_number hc, htail]

/-! ### Operators and symbols -/

/-- An operator with a space behind it. -/
theorem Reads.operator (op : Operator) {s : List Char} {lexemes : List Lexeme}
    (h : Reads s lexemes) : Reads (op.text.toList ++ ' ' :: s) (.operator op :: lexemes) := by
  have hblank : Reads (' ' :: s) lexemes := h.blank (by decide)
  cases op with
  | and | or | eq | ne | le | ge => exact .word (w := [_]) rfl hblank
  | lt | gt | add | sub | mul | div | mod | not => exact .letter rfl hblank

theorem Reads.neg {s : List Char} {lexemes : List Lexeme} (h : Reads s lexemes) :
    Reads ('-' :: s) (.operator .sub :: lexemes) := by
  apply Reads.letter _ h
  cases s <;> rfl

/-- The sign of a negation, if nothing makes it an inequality. -/
theorem Reads.not {c : Char} (hc : c ≠ '=') {s : List Char} {lexemes : List Lexeme}
    (h : Reads (c :: s) lexemes) : Reads ('!' :: c :: s) (.operator .not :: lexemes) := by
  apply Reads.letter _ h
  have hsingle : operator2? '!' c = none := by
    unfold operator2?
    split <;> simp_all
  have hblank : Text.isBlank '!' = false := by decide
  have hdigit : Text.isDecimalDigit '!' = false := by decide
  have hoperator : operator1? '!' = some .not := rfl
  simp [front, hblank, hdigit, hsingle, hoperator]

theorem Reads.symbol (sym : Symbol) {s : List Char} {lexemes : List Lexeme}
    (h : Reads s lexemes) : Reads (sym.text.toList ++ s) (.symbol sym :: lexemes) := by
  cases sym with
  | openParen | closeParen | openBracket | closeBracket | dot | comma =>
    apply Reads.letter _ h
    cases s <;> rfl

/-! ### Quoted texts -/

/-- Between quote marks the character stands for itself, behind a backslash if need be. -/
def IsWritable (c : Char) : Prop := Text.isPrintable c = true ∨ c = '\n' ∨ c = '\t' ∨ c = '\r'

instance (c : Char) : Decidable (IsWritable c) := inferInstanceAs (Decidable (_ ∨ _))

theorem stringBody_mark (mark : Char) (s : List Char) :
    stringBody mark (mark :: s) = some ([], 1) := by
  rw [stringBody.eq_def]
  exact if_pos rfl

theorem stringBody_plain {mark c : Char} (hmark : c ≠ mark) (hbackslash : c ≠ '\\')
    (s : List Char) : stringBody mark (c :: s)
      = (stringBody mark s).map fun body => (c :: body.1, body.2 + 1) := by
  rw [stringBody.eq_def]
  simp only
  rw [if_neg hmark, if_neg hbackslash]

theorem stringBody_escaped {mark : Char} (hmark : '\\' ≠ mark) (c : Char) (s : List Char) :
    stringBody mark ('\\' :: c :: s)
      = (stringBody mark s).map fun body => (unescape c :: body.1, body.2 + 2) := by
  rw [stringBody, if_neg hmark, if_pos rfl]

theorem backslash_ne {mark : Char} (hmark : mark = '"' ∨ mark = '\'') : '\\' ≠ mark := by
  rintro rfl
  simp at hmark

/-- Behind a backslash, the mark and the backslash stand for themselves. -/
theorem stringBody_self {mark c : Char} (hmark : mark = '"' ∨ mark = '\'')
    (hself : c = mark ∨ c = '\\') (s : List Char) : stringBody mark ('\\' :: c :: s)
      = (stringBody mark s).map fun body => (c :: body.1, body.2 + 2) := by
  have hunescape : unescape c = c := by
    rcases hself with rfl | rfl
    · rcases hmark with rfl | rfl <;> rfl
    · rfl
  have hescaped := stringBody_escaped (backslash_ne hmark) c s
  rwa [hunescape] at hescaped

/-- What is written for one character says that character. -/
theorem stringBody_quoteChar {mark c : Char} (hmark : mark = '"' ∨ mark = '\'')
    (hc : IsWritable c) (s : List Char) :
    stringBody mark (Text.quoteChar mark c ++ s)
      = (stringBody mark s).map fun body =>
        (c :: body.1, body.2 + (Text.quoteChar mark c).length) := by
  have hbackslash := backslash_ne hmark
  unfold Text.quoteChar
  -- The mark and the backslash stand for themselves, three control characters have letters.
  by_cases hself : c = mark ∨ c = '\\'
  · rw [if_pos hself]
    exact stringBody_self hmark hself s
  rw [if_neg hself]
  by_cases hn : c = '\n'
  · subst hn
    exact stringBody_escaped hbackslash 'n' s
  rw [if_neg hn]
  by_cases ht : c = '\t'
  · subst ht
    exact stringBody_escaped hbackslash 't' s
  rw [if_neg ht]
  by_cases hr : c = '\r'
  · subst hr
    exact stringBody_escaped hbackslash 'r' s
  rw [if_neg hr]
  have hprintable : Text.isPrintable c = true := by
    rcases hc with hc | hc | hc | hc
    · exact hc
    · exact absurd hc hn
    · exact absurd hc ht
    · exact absurd hc hr
  obtain ⟨hmark', hbackslash'⟩ := not_or.1 hself
  rw [if_pos hprintable, List.singleton_append, stringBody_plain hmark' hbackslash']
  rfl

/-- A text is read back from between quote marks if each of its characters is read back from what is
    written for it. -/
theorem stringBody_written {mark : Char} {write : Char → List Char} {content : List Char}
    (hwrite : ∀ c ∈ content, ∀ s, stringBody mark (write c ++ s)
      = (stringBody mark s).map fun body => (c :: body.1, body.2 + (write c).length))
    (s : List Char) : stringBody mark (content.flatMap write ++ mark :: s)
      = some (content, (content.flatMap write).length + 1) := by
  induction content with
  | nil =>
    rw [List.flatMap_nil, List.nil_append, stringBody_mark]
    rfl
  | cons c rest ih =>
    have hrest := ih fun d hd => hwrite d (List.mem_cons_of_mem _ hd)
    rw [List.flatMap_cons, List.append_assoc, hwrite c List.mem_cons_self, hrest]
    simp only [Option.map_some, List.length_append]
    congr 2
    omega

/-- A quote mark starts a quoted text. -/
theorem front_quoted {mark : Char} (hmark : mark = '"' ∨ mark = '\'') {rest content : List Char}
    {width : Nat} (hbody : stringBody mark rest = some (content, width)) :
    front mark rest = .ok (some (.string (String.ofList content)), width) := by
  have hplain : Text.isBlank mark = false ∧ Text.isDecimalDigit mark = false := by
    rcases hmark with rfl | rfl <;> decide
  simp [front, hplain, hmark, hbody]

theorem quoteMark_eq (s : List Char) : Text.quoteMark s = '"' ∨ Text.quoteMark s = '\'' := by
  unfold Text.quoteMark
  split
  · exact .inl rfl
  · exact .inr rfl

theorem Reads.quoted {content : String} (hcontent : ∀ c ∈ content.toList, IsWritable c)
    {s : List Char} {lexemes : List Lexeme} (h : Reads s lexemes) :
    Reads ((Text.quote content).toList ++ s) (.string content :: lexemes) := by
  have hmark := quoteMark_eq content.toList
  have hbody := stringBody_written (fun c hc => stringBody_quoteChar hmark (hcontent c hc)) s
  unfold Text.quote Text.quoteChars
  rw [String.toList_ofList, List.cons_append]
  generalize Text.quoteMark content.toList = mark at hmark hbody ⊢
  apply Reads.word _ h
  rw [List.append_assoc, List.singleton_append, front_quoted hmark hbody]
  simp

end Token

end TextTemplate
