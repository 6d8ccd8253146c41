import TextTemplate.Proofs.Expr.Spelling
import TextTemplate.Proofs.Expr.Wording
import TextTemplate.Proofs.Number.Numeral

/-! # The text of an expression is read back

  An expression's text adds no brackets, so it says the same only because it keeps
  the words in their order: every phrase is printed word by word as it has been
  read, with other spaces, numbers in plain digits and quoted texts in marks of the
  printer's choice (`printed_of_derives`, by induction on the derivation).  So the
  text has the tokens that the expression has been read from, up to places and
  the form of numbers, and reading looks at nothing else (`text_reads_back`).

  Doubles and characters that are written by their code are left out: a double may
  be printed with an exponent, and the language reads neither of the two.
-/

namespace TextTemplate

open TextTemplate.Expr

/-- A word that the text of an expression repeats: any but a number with a fraction and a text
    with characters that are written by their code. -/
def Lexeme.IsPlain : Lexeme → Prop
  | .number digits => '.' ∉ digits.toList
  | .string content => ∀ c ∈ content.toList, Token.IsWritable c
  | _ => True

instance : (lexeme : Lexeme) → Decidable lexeme.IsPlain
  | .number digits => inferInstanceAs (Decidable ('.' ∉ digits.toList))
  | .string content => List.decidableBAll Token.IsWritable content.toList
  | .keyword _ | .name _ | .operator _ | .symbol _ => inferInstanceAs (Decidable True)

namespace Token

/-! ### What the scanner makes of names -/

/-- A name is made up of letters, and is no keyword. -/
def IsName (n : String) : Prop := IsWord n ∧ word n = .name n

theorem eq_of_word {m n : String} (h : word m = .name n) : m = n := by
  unfold word at h
  split at h
  · cases h
  split at h
  · cases h
  split at h
  · cases h
  · exact Lexeme.name.inj h

theorem isName_of_front {c : Char} {rest : List Char} {n : String} {width : Nat}
    (h : front c rest = .ok (some (.name n), width)) : IsName n := by
  -- Only the last class of words gives names.
  unfold front at h
  split at h
  · cases h
  split at h
  · cases h
  split at h
  · split at h <;> cases h
  split at h
  · cases h
  split at h
  · cases h
  split at h
  · cases h
  split at h
  · next hc =>
    simp only [Except.ok.injEq, Prod.mk.injEq, Option.some.injEq] at h
    obtain rfl := eq_of_word h.1
    refine ⟨⟨c, rest.takeWhile continuesName, String.toList_ofList, hc, ?_⟩, h.1⟩
    intro d hd
    exact List.all_eq_true.1 List.all_takeWhile d hd
  · cases h

/-- The names among the tokens of a text are names. -/
theorem isName_of_scanFrom {position : Nat} {s : List Char} {tokens : List Token}
    (h : scanFrom position s = .ok tokens) {t : Token} (ht : t ∈ tokens) {n : String}
    (hn : t.lexeme = .name n) : IsName n := by
  fun_induction scanFrom position s generalizing tokens
  case case1 =>
    cases h
    cases ht
  case case2 => cases h
  case case3 position c rest lexeme? width hfront stop ih =>
    cases hrest : scanFrom stop (rest.drop width) with
    | error fault =>
      rw [hrest] at h
      cases h
    | ok more =>
      rw [hrest] at h
      cases lexeme? with
      | none =>
        cases h
        exact ih hrest ht
      | some lexeme =>
        cases h
        rcases List.mem_cons.1 ht with rfl | ht
        · obtain rfl : lexeme = .name n := hn
          exact isName_of_front hfront
        · exact ih hrest ht

/-! ### Phrases -/

/-- The text writes the words, whatever parts from them behind.  It does not start with a sign that
    would make an inequality of a negation in front. -/
structure Writes (w : String) (lexemes : List Lexeme) : Prop where
  head : ∃ c rest, w.toList = c :: rest ∧ c ≠ '='
  reads : ∀ {s : List Char} {behind : List Lexeme}, Parts s → Reads s behind →
    Reads (w.toList ++ s) (lexemes ++ behind)

namespace Writes

variable {w w' : String} {lexemes lexemes' : List Lexeme}

theorem name {n : String} (hn : IsWord n) : Writes n [word n] where
  head := by
    obtain ⟨c, rest, hchars, hc, -⟩ := hn
    refine ⟨c, rest, hchars, ?_⟩
    rintro rfl
    simp [startsName] at hc
  reads hs hbehind := Reads.name hn hs hbehind

theorem number (n : Nat) : Writes (Nat.repr n) [.number (Nat.repr n)] := by
  have hdigits : ∀ d ∈ (Nat.repr n).toList, Text.isDecimalDigit d = true :=
    fun d => Numeral.isDecimalDigit_of_mem_repr n
  have hne : (Nat.repr n).toList ≠ [] := by
    rw [Nat.toList_repr]
    exact Nat.toDigits_ne_nil
  obtain ⟨c, rest, hchars⟩ := List.exists_cons_of_ne_nil hne
  rw [hchars] at hdigits
  constructor
  · refine ⟨c, rest, hchars, ?_⟩
    rintro rfl
    have := hdigits '=' List.mem_cons_self
    revert this
    decide
  · intro s behind hs hbehind
    have hreads := Reads.number hdigits hs hbehind
    rwa [← hchars, String.ofList_toList] at hreads

theorem quoted {content : String} (h : ∀ c ∈ content.toList, IsWritable c) :
    Writes (Text.quote content) [.string content] where
  head := by
    refine ⟨_, _, String.toList_ofList, ?_⟩
    rcases quoteMark_eq content.toList with hmark | hmark <;> rw [hmark] <;> decide
  reads _ hbehind := Reads.quoted h hbehind

theorem not (h : Writes w lexemes) : Writes ("!" ++ w) (.operator .not :: lexemes) where
  head := ⟨'!', w.toList, by rw [String.toList_append]; rfl, by decide⟩
  reads := by
    intro s behind hs hbehind
    -- The operand's first character decides what the sign is read as.
    have hw := h.reads hs hbehind
    obtain ⟨c, rest, hchars, hc⟩ := h.head
    rw [hchars] at hw
    rw [String.toList_append, hchars]
    exact .not hc hw

theorem neg (h : Writes w lexemes) : Writes ("-" ++ w) (.operator .sub :: lexemes) where
  head := ⟨'-', w.toList, by rw [String.toList_append]; rfl, by decide⟩
  reads := by
    intro s behind hs hbehind
    rw [String.toList_append]
    exact .neg (h.reads hs hbehind)

/-- What stands in brackets. -/
theorem enclosed (h : Writes w lexemes) (opening : Symbol) {closing : Symbol}
    (hclosing : closing = .closeParen ∨ closing = .closeBracket) :
    Writes (opening.text ++ w ++ closing.text)
      (.symbol opening :: (lexemes ++ [.symbol closing])) where
  head := by
    rw [String.toList_append, String.toList_append]
    cases opening <;> exact ⟨_, _, rfl, by decide⟩
  reads := by
    intro s behind hs hbehind
    have hparts : Parts (closing.text.toList ++ s) := by
      rcases hclosing with rfl | rfl
      · exact .mark (by decide) s
      · exact .mark (by decide) s
    have hw := h.reads hparts (hbehind.symbol closing)
    simp only [String.toList_append, List.append_assoc, List.cons_append, List.nil_append]
    exact hw.symbol opening

/-- What goes on from a phrase. -/
theorem goOn (h : Writes w lexemes)
    (hnext : ∀ {s : List Char} {behind : List Lexeme}, Parts s → Reads s behind →
      Parts (w'.toList ++ s) ∧ Reads (w'.toList ++ s) (lexemes' ++ behind)) :
    Writes (w ++ w') (lexemes ++ lexemes') where
  head := by
    obtain ⟨c, rest, hchars, hc⟩ := h.head
    exact ⟨c, rest ++ w'.toList, by rw [String.toList_append, hchars]; rfl, hc⟩
  reads := by
    intro s behind hs hbehind
    obtain ⟨hparts, hreads⟩ := hnext hs hbehind
    rw [String.toList_append, List.append_assoc, List.append_assoc]
    exact h.reads hparts hreads

theorem join (h : Writes w lexemes) (op : Operator) (h' : Writes w' lexemes') :
    Writes (w ++ " " ++ op.text ++ " " ++ w') (lexemes ++ .operator op :: lexemes') := by
  rw [String.append_assoc, String.append_assoc, String.append_assoc]
  apply h.goOn
  intro s behind hs hbehind
  have hreads := (h'.reads hs hbehind).operator op
  simp only [String.toList_append, List.append_assoc]
  exact ⟨.mark (by decide) _, hreads.blank (by decide)⟩

theorem property (h : Writes w lexemes) {n : String} (hn : IsWord n) :
    Writes (w ++ "." ++ n) (lexemes ++ [.symbol .dot, word n]) := by
  rw [String.append_assoc]
  apply h.goOn
  intro s behind hs hbehind
  have hreads := (Reads.name hn hs hbehind).symbol .dot
  rw [String.toList_append, List.append_assoc]
  refine ⟨?_, hreads⟩
  obtain ⟨c, rest, hchars, hc, -⟩ := hn
  rw [hchars]
  exact .dot (startsName_only hc).2.1 _

theorem index (h : Writes w lexemes) (h' : Writes w' lexemes') :
    Writes (w ++ "[" ++ w' ++ "]")
      (lexemes ++ .symbol .openBracket :: (lexemes' ++ [.symbol .closeBracket])) := by
  have hkey : Writes ("[" ++ w' ++ "]") _ := h'.enclosed .openBracket (.inr rfl)
  have hassoc : w ++ "[" ++ w' ++ "]" = w ++ ("[" ++ w' ++ "]") := by
    simp only [String.append_assoc]
  rw [hassoc]
  apply h.goOn
  intro s behind hs hbehind
  refine ⟨?_, hkey.reads hs hbehind⟩
  rw [String.toList_append, String.toList_append]
  exact .mark (by decide) _

theorem noItems : Writes "[]" [.symbol .openBracket, .symbol .closeBracket] where
  head := ⟨'[', [']'], rfl, by decide⟩
  reads := by
    intro s behind hs hbehind
    exact (hbehind.symbol .closeBracket).symbol .openBracket

theorem moreItems (h : Writes w lexemes) (h' : Writes w' lexemes') :
    Writes (w ++ ", " ++ w') (lexemes ++ .symbol .comma :: lexemes') := by
  rw [String.append_assoc]
  apply h.goOn
  intro s behind hs hbehind
  have hreads : Reads (' ' :: (w'.toList ++ s)) _ := (h'.reads hs hbehind).blank (by decide)
  rw [String.toList_append, List.append_assoc]
  exact ⟨.mark (by decide) _, hreads.symbol .comma⟩

end Writes

end Token

/-! ### Printing -/

namespace Expr

open Token

/-- The text of a phrase.  Items have no brackets of their own. -/
def phraseText : Nonterminal → Expr → Except TooManyDigits String
  | .items, .list items => do return ", ".intercalate (← texts items)
  | _, e => text e

/-- The phrase has a text, which writes words that say the same as the tokens. -/
def Printed (n : Nonterminal) (u : List Token) (e : Expr) : Prop :=
  ∃ printed lexemes, phraseText n e = .ok printed ∧ Writes printed lexemes ∧
    List.Forall₂ (fun t lexeme => t.lexeme.SaysSame lexeme) u lexemes

/-- The token is plain, and a name if it says that it is one. -/
def Repeatable (t : Token) : Prop :=
  t.lexeme.IsPlain ∧ ∀ n, t.lexeme = .name n → IsName n

/-- A whole number that has been read is printed in plain digits, which say the same. -/
theorem literalText_number {digits : String} (hpoint : '.' ∉ digits.toList) {v : Value}
    (hv : Reader.numberValue digits = .ok v) :
    ∃ n, literalText v = .ok (Nat.repr n) ∧
      Reader.numberValue digits = Reader.numberValue (Nat.repr n) := by
  have hvalue := Reader.numberValue_whole hpoint
  by_cases hlength : digits.toList.length ≤ Numeral.maxDigits
  · rw [Numeral.read, if_pos hlength] at hvalue
    have hshort := Numeral.not_isLong_numeralValue hlength
    -- The digits may be of any script, but what is printed is not longer than they are.
    generalize hn : Text.numeralValue digits.toList = n at hvalue hshort
    have hprinted : (Nat.repr n).length ≤ Numeral.maxDigits := Nat.le_of_not_lt hshort
    refine ⟨n, ?_, ?_⟩
    · rw [hvalue] at hv
      cases hv
      have hwrite : Numeral.write n = .ok (Nat.repr n) := by
        rw [Numeral.write, Int.natAbs_natCast, if_pos hprinted, if_neg (by omega)]
      exact hwrite
    · have hpoint' : '.' ∉ (Nat.repr n).toList := by
        intro hmem
        have := Numeral.isDecimalDigit_of_mem_repr n hmem
        revert this
        decide
      rw [hvalue, Reader.numberValue_whole hpoint', Numeral.read, String.length_toList,
        if_pos hprinted, Numeral.numeralValue_repr]
  · rw [Numeral.read, if_neg hlength, hv] at hvalue
    cases hvalue

section

variable {e e' : Expr} {w w' : String}

theorem text_literal {v : Value} (h : literalText v = .ok w) : text (.literal v) = .ok w := h

theorem text_unary (op : UnaryOp) (h : text e = .ok w) :
    text (.unary op e) = .ok (op.text ++ w) := by
  show (text e >>= fun w => .ok (op.text ++ w)) = _
  rw [h]
  rfl

theorem text_property (n : String) (h : text e = .ok w) :
    text (.property e n) = .ok (w ++ "." ++ n) := by
  show (text e >>= fun w => .ok (w ++ "." ++ n)) = _
  rw [h]
  rfl

theorem text_index (h : text e = .ok w) (h' : text e' = .ok w') :
    text (.index e e') = .ok (w ++ "[" ++ w' ++ "]") := by
  show (text e >>= fun w => text e' >>= fun w' => .ok (w ++ "[" ++ w' ++ "]")) = _
  rw [h, h']
  rfl

theorem text_binary (op : BinaryOp) (h : text e = .ok w) (h' : text e' = .ok w') :
    text (.binary e op e') = .ok (w ++ " " ++ op.text ++ " " ++ w') := by
  show (text e >>= fun w => text e' >>= fun w' => .ok (w ++ " " ++ op.text ++ " " ++ w')) = _
  rw [h, h']
  rfl

theorem text_logical (op : LogicalOp) (h : text e = .ok w) (h' : text e' = .ok w') :
    text (.logical e op e') = .ok (w ++ " " ++ op.text ++ " " ++ w') := by
  show (text e >>= fun w => text e' >>= fun w' => .ok (w ++ " " ++ op.text ++ " " ++ w')) = _
  rw [h, h']
  rfl

theorem text_group (h : text e = .ok w) : text (.group e) = .ok ("(" ++ w ++ ")") := by
  show (text e >>= fun w => .ok ("(" ++ w ++ ")")) = _
  rw [h]
  rfl

end

/-- A join is printed with its operator between the operands. -/
theorem text_join {level : Level} {op : Operator} {join : Expr → Expr → Expr}
    (hjoin : level.join? op = some join) {left right : Expr} {w w' : String}
    (hleft : text left = .ok w) (hright : text right = .ok w') :
    text (join left right) = .ok (w ++ " " ++ op.text ++ " " ++ w') := by
  cases level with
  | disjunction | conjunction =>
    cases op <;> cases hjoin
    exact text_logical _ hleft hright
  | equality | comparison | sum | product =>
    cases op <;> cases hjoin <;> exact text_binary _ hleft hright

theorem texts_cons (e : Expr) (items : List Expr) : texts (e :: items)
    = text e >>= fun w => texts items >>= fun ws => .ok (w :: ws) := rfl

theorem phraseText_items (items : List Expr) : phraseText .items (.list items)
    = texts items >>= fun ws => .ok (", ".intercalate ws) := rfl

theorem text_list {items : List Expr} {w : String} (h : phraseText .items (.list items) = .ok w) :
    text (.list items) = .ok ("[" ++ w ++ "]") := by
  show (texts items >>= fun ws => .ok ("[" ++ ", ".intercalate ws ++ "]")) = _
  rw [phraseText_items] at h
  cases hitems : texts items with
  | error fault =>
    rw [hitems] at h
    cases h
  | ok ws =>
    rw [hitems] at h
    cases h
    rfl

theorem phraseText_item {e : Expr} {w : String} (h : text e = .ok w) :
    phraseText .items (.list [e]) = .ok w := by
  rw [phraseText_items, texts_cons, h]
  exact congrArg Except.ok String.intercalate_singleton

theorem length_of_texts {items : List Expr} {ws : List String} (h : texts items = .ok ws) :
    ws.length = items.length := by
  induction items generalizing ws with
  | nil =>
    cases h
    rfl
  | cons e rest ih =>
    rw [texts_cons] at h
    cases hfirst : text e with
    | error fault =>
      rw [hfirst] at h
      cases h
    | ok w =>
      rw [hfirst] at h
      cases hrest : texts rest with
      | error fault =>
        rw [hrest] at h
        cases h
      | ok more =>
        rw [hrest] at h
        cases h
        rw [List.length_cons, List.length_cons, ih hrest]

theorem phraseText_moreItems {e : Expr} {items : List Expr} (hitems : items ≠ []) {w w' : String}
    (h : text e = .ok w) (h' : phraseText .items (.list items) = .ok w') :
    phraseText .items (.list (e :: items)) = .ok (w ++ ", " ++ w') := by
  rw [phraseText_items] at h'
  rw [phraseText_items, texts_cons, h]
  cases hws : texts items with
  | error fault =>
    rw [hws] at h'
    cases h'
  | ok ws =>
    rw [hws] at h'
    cases h'
    have hne : ws ≠ [] := by
      rintro rfl
      exact hitems (List.length_eq_zero_iff.1 (length_of_texts hws).symm)
    exact congrArg Except.ok (String.intercalate_cons_of_ne_nil hne)

theorem phraseText_operand (level : Level) (e : Expr) :
    phraseText level.operand e = text e := by
  cases level <;> rfl

/-- The items of a list are at least one. -/
theorem items_ne_nil {u : List Token} {items : List Expr}
    (h : Derives .items u (.list items)) : items ≠ [] := by
  cases h <;> simp

namespace Printed

variable {u v : List Token} {t opening closing : Token} {e : Expr}

theorem saysSame {lexeme : Lexeme} (h : t.lexeme = lexeme) : t.lexeme.SaysSame lexeme := by
  rw [h]
  exact .refl lexeme

/-- A phrase of one token. -/
theorem single {w : String} {lexeme : Lexeme} (htext : text e = .ok w)
    (hwrites : Writes w [lexeme]) (hsame : t.lexeme.SaysSame lexeme) :
    Printed .operand [t] e :=
  ⟨w, [lexeme], htext, hwrites, .cons hsame .nil⟩

/-- A whole number keeps its value, but not its digits. -/
theorem number {digits : String} {value : Value} (ht : t.lexeme = .number digits)
    (hplain : t.lexeme.IsPlain) (hvalue : Reader.numberValue digits = .ok value) :
    Printed .operand [t] (.literal value) := by
  rw [ht] at hplain
  obtain ⟨n, htext, hsame⟩ := literalText_number hplain hvalue
  apply single (text_literal htext) (Writes.number n)
  rw [ht]
  exact .number hsame

theorem string {content : String} (ht : t.lexeme = .string content)
    (hplain : t.lexeme.IsPlain) : Printed .operand [t] (.literal (.string content)) := by
  have htext : literalText (.string content) = .ok (Text.quote content) := rfl
  have hsame := saysSame ht
  rw [ht] at hplain
  exact single (text_literal htext) (Writes.quoted hplain) hsame

theorem keyword {k : Keyword} (ht : t.lexeme = .keyword k) :
    Printed .operand [t] (.literal (Reader.keywordValue k)) := by
  have htext : literalText (Reader.keywordValue k) = .ok k.text := by cases k <;> rfl
  have hwrites := Writes.name (isWord_keyword k)
  rw [word_keyword] at hwrites
  exact single (text_literal htext) hwrites (saysSame ht)

theorem name {n : String} (ht : t.lexeme = .name n) (hn : IsName n) :
    Printed .operand [t] (.name n) := by
  obtain ⟨hword, hlexeme⟩ := hn
  have htext : text (.name n) = .ok n := rfl
  have hwrites := Writes.name hword
  rw [hlexeme] at hwrites
  exact single htext hwrites (saysSame ht)

theorem group (hopening : opening.lexeme = .symbol .openParen)
    (hclosing : closing.lexeme = .symbol .closeParen) (h : Printed .expression u e) :
    Printed .operand (opening :: (u ++ [closing])) (.group e) := by
  obtain ⟨w, lexemes, htext, hwrites, hsame⟩ := h
  refine ⟨_, _, text_group htext, hwrites.enclosed .openParen (.inl rfl), ?_⟩
  exact .cons (saysSame hopening) (List.rel_append hsame (.cons (saysSame hclosing) .nil))

theorem noItems (hopening : opening.lexeme = .symbol .openBracket)
    (hclosing : closing.lexeme = .symbol .closeBracket) :
    Printed .operand [opening, closing] (.list []) := by
  have htext : text (.list []) = .ok "[]" := rfl
  exact ⟨_, _, htext, .noItems, .cons (saysSame hopening) (.cons (saysSame hclosing) .nil)⟩

theorem list {items : List Expr} (hopening : opening.lexeme = .symbol .openBracket)
    (hclosing : closing.lexeme = .symbol .closeBracket) (h : Printed .items u (.list items)) :
    Printed .operand (opening :: (u ++ [closing])) (.list items) := by
  obtain ⟨w, lexemes, htext, hwrites, hsame⟩ := h
  refine ⟨_, _, text_list htext, hwrites.enclosed .openBracket (.inr rfl), ?_⟩
  exact .cons (saysSame hopening) (List.rel_append hsame (.cons (saysSame hclosing) .nil))

theorem item (h : Printed .expression u e) : Printed .items u (.list [e]) := by
  obtain ⟨w, lexemes, htext, hwrites⟩ := h
  exact ⟨w, lexemes, phraseText_item htext, hwrites⟩

theorem moreItems {items : List Expr} (ht : t.lexeme = .symbol .comma) (hitems : items ≠ [])
    (h : Printed .expression u e) (h' : Printed .items v (.list items)) :
    Printed .items (u ++ t :: v) (.list (e :: items)) := by
  obtain ⟨w, lexemes, htext, hwrites, hsame⟩ := h
  obtain ⟨w', lexemes', htext', hwrites', hsame'⟩ := h'
  refine ⟨_, _, phraseText_moreItems hitems htext htext', hwrites.moreItems hwrites', ?_⟩
  exact List.rel_append hsame (.cons (saysSame ht) hsame')

/-- What stands behind a point is a name or the text of a keyword. -/
theorem property {dot key : Token} {n : String} (hdot : dot.lexeme = .symbol .dot)
    (hkey : key.lexeme = .name n ∨ ∃ k : Keyword, key.lexeme = .keyword k ∧ k.text = n)
    (hname : Repeatable key) (h : Printed .accessed u e) :
    Printed .accessed (u ++ [dot, key]) (.property e n) := by
  obtain ⟨w, lexemes, htext, hwrites, hsame⟩ := h
  have hword : IsWord n ∧ key.lexeme = word n := by
    rcases hkey with hkey | ⟨k, hkey, rfl⟩
    · obtain ⟨hword, hlexeme⟩ := hname.2 n hkey
      exact ⟨hword, hkey.trans hlexeme.symm⟩
    · exact ⟨isWord_keyword k, hkey.trans (word_keyword k).symm⟩
  refine ⟨_, _, text_property n htext, hwrites.property hword.1, ?_⟩
  exact List.rel_append hsame (.cons (saysSame hdot) (.cons (saysSame hword.2) .nil))

theorem index {key : Expr} (hopening : opening.lexeme = .symbol .openBracket)
    (hclosing : closing.lexeme = .symbol .closeBracket) (h : Printed .accessed u e)
    (h' : Printed .expression v key) :
    Printed .accessed (u ++ opening :: (v ++ [closing])) (.index e key) := by
  obtain ⟨w, lexemes, htext, hwrites, hsame⟩ := h
  obtain ⟨w', lexemes', htext', hwrites', hsame'⟩ := h'
  refine ⟨_, _, text_index htext htext', hwrites.index hwrites', ?_⟩
  have hbrackets := List.rel_append hsame' (.cons (saysSame hclosing) .nil)
  exact List.rel_append hsame (.cons (saysSame hopening) hbrackets)

theorem not (ht : t.lexeme = .operator .not) (h : Printed .signed u e) :
    Printed .signed (t :: u) (.unary .not e) := by
  obtain ⟨w, lexemes, htext, hwrites, hsame⟩ := h
  exact ⟨_, _, text_unary .not htext, hwrites.not, .cons (saysSame ht) hsame⟩

theorem neg (ht : t.lexeme = .operator .sub) (h : Printed .signed u e) :
    Printed .signed (t :: u) (.unary .neg e) := by
  obtain ⟨w, lexemes, htext, hwrites, hsame⟩ := h
  exact ⟨_, _, text_unary .neg htext, hwrites.neg, .cons (saysSame ht) hsame⟩

theorem alone {level : Level} (h : Printed level.operand u e) : Printed (.joined level) u e := by
  obtain ⟨w, lexemes, htext, hwrites⟩ := h
  rw [phraseText_operand] at htext
  exact ⟨w, lexemes, htext, hwrites⟩

theorem join {level : Level} {op : Operator} {join : Expr → Expr → Expr} {left right : Expr}
    (ht : t.lexeme = .operator op) (hjoin : level.join? op = some join)
    (h : Printed (.joined level) u left) (h' : Printed level.operand v right) :
    Printed (.joined level) (u ++ t :: v) (join left right) := by
  obtain ⟨w, lexemes, htext, hwrites, hsame⟩ := h
  obtain ⟨w', lexemes', htext', hwrites', hsame'⟩ := h'
  rw [phraseText_operand] at htext'
  refine ⟨_, _, text_join hjoin htext htext', hwrites.join op hwrites', ?_⟩
  exact List.rel_append hsame (.cons (saysSame ht) hsame')

end Printed

/-- Whatever derives from tokens that can be repeated is printed. -/
theorem printed_of_derives {n : Nonterminal} {u : List Token} {e : Expr} (h : Derives n u e)
    (hrepeat : ∀ t ∈ u, Repeatable t) : Printed n u e := by
  induction h with
  | alone _ ih => exact (ih hrepeat).alone
  | unsigned _ ih | whole _ ih => exact ih hrepeat
  | join _ ht hop _ ihleft ihright =>
    rw [List.forall_mem_append, List.forall_mem_cons] at hrepeat
    obtain ⟨hu, -, hv⟩ := hrepeat
    exact (ihleft hu).join ht hop (ihright hv)
  | not ht _ ih =>
    rw [List.forall_mem_cons] at hrepeat
    exact (ih hrepeat.2).not ht
  | neg ht _ ih =>
    rw [List.forall_mem_cons] at hrepeat
    exact (ih hrepeat.2).neg ht
  | property _ hdot hkey ih =>
    rw [List.forall_mem_append, List.forall_mem_cons, List.forall_mem_singleton] at hrepeat
    obtain ⟨hu, -, hname⟩ := hrepeat
    exact (ih hu).property hdot hkey hname
  | index _ hopening _ hclosing ih ihkey =>
    simp only [List.forall_mem_append, List.forall_mem_cons] at hrepeat
    obtain ⟨hu, -, hv, -⟩ := hrepeat
    exact (ih hu).index hopening hclosing (ihkey hv)
  | number ht hvalue => exact .number ht (hrepeat _ List.mem_cons_self).1 hvalue
  | string ht => exact .string ht (hrepeat _ List.mem_cons_self).1
  | keyword ht => exact .keyword ht
  | name ht => exact .name ht ((hrepeat _ List.mem_cons_self).2 _ ht)
  | group hopening _ hclosing ih =>
    simp only [List.forall_mem_append, List.forall_mem_cons] at hrepeat
    exact .group hopening hclosing (ih hrepeat.2.1)
  | noItems hopening hclosing => exact .noItems hopening hclosing
  | list hopening _ hclosing ih =>
    simp only [List.forall_mem_append, List.forall_mem_cons] at hrepeat
    exact .list hopening hclosing (ih hrepeat.2.1)
  | item _ ih => exact (ih hrepeat).item
  | moreItems _ ht hitems ih ihitems =>
    rw [List.forall_mem_append, List.forall_mem_cons] at hrepeat
    obtain ⟨hu, -, hv⟩ := hrepeat
    exact .moreItems ht (items_ne_nil hitems) (ih hu) (ihitems hv)

/-- A text of which every number is whole and every quoted text can be written as it is: the text of
    its expression is read as the same expression. -/
theorem text_reads_back {text : String} {e : Expr} (hread : read text = .ok e)
    (hplain : ∀ tokens, Token.scan text = .ok tokens → ∀ t ∈ tokens, t.lexeme.IsPlain) :
    ∃ printed, e.text = .ok printed ∧ read printed = .ok e := by
  obtain ⟨tokens, hscan, hderives⟩ := derives_of_read hread
  have hrepeat : ∀ t ∈ tokens, Repeatable t := by
    intro t ht
    exact ⟨hplain tokens hscan t ht, fun n hn => isName_of_scanFrom hscan ht hn⟩
  obtain ⟨printed, lexemes, htext, hwrites, hsame⟩ := printed_of_derives hderives hrepeat
  refine ⟨printed, htext, ?_⟩
  -- The end of a text parts every word from what follows.
  have hreads := hwrites.reads .nil .nil
  rw [List.append_nil, List.append_nil] at hreads
  obtain ⟨tokens', hscan', rfl⟩ := hreads 0
  have hworded : Worded tokens tokens' := by
    rwa [List.forall₂_map_right_iff] at hsame
  have htokens : ofTokens text.length tokens = .ok e := by
    rw [read, hscan] at hread
    exact hread
  rw [read, Token.scan, hscan']
  exact ofTokens_worded _ _ hworded htokens

/-- A text with spaces, zeros in front of a number and both kinds of quote marks. -/
def untidyText : String := "!  -007 . x[ 'a\"b' ] ||[ \"it's\\n\",(3 )]"

/-- What `untidyText` says. -/
def untidyExpr : Expr :=
  .logical
    (.unary .not (.unary .neg (.index (.property (.literal (.int 7)) "x")
      (.literal (.string "a\"b")))))
    .or
    (.list [.literal (.string "it's\n"), .group (.literal (.int 3))])

theorem untidyText_reads_back : read untidyText = .ok untidyExpr ∧
    (∀ tokens, Token.scan untidyText = .ok tokens → ∀ t ∈ tokens, t.lexeme.IsPlain) ∧
    untidyExpr.text = .ok "!-7.x['a\"b'] || [\"it's\\n\", (3)]" ∧
    ∃ printed, untidyExpr.text = .ok printed ∧ read printed = .ok untidyExpr := by
  have hread : read untidyText = .ok untidyExpr := by cbv
  have hall : (Token.scan untidyText).toOption.all
      (·.all fun t => decide t.lexeme.IsPlain) = true := by decide +kernel
  have hplain : ∀ tokens, Token.scan untidyText = .ok tokens →
      ∀ t ∈ tokens, t.lexeme.IsPlain := by
    intro tokens htokens t ht
    rw [htokens] at hall
    exact of_decide_eq_true (List.all_eq_true.1 hall t ht)
  exact ⟨hread, hplain, by decide +kernel, text_reads_back hread hplain⟩

end Expr

end TextTemplate
