import TextTemplate.Proofs.Markup.Taking

/-! # Stricter rules

  Lenient rules report what stricter rules forbid: an unknown directive that is
  ignored, a block name that is used again.  Under stricter rules a builder goes
  hand in hand with one under the default rules, up to the first remark about
  what they forbid (`Builder.tokens_eq_ok_iff`).

  So rules read a text exactly if the default rules read it without such a
  remark, and then both give the same document and the same remarks.  Two rules
  of which one is stricter are compared by way of the default rules.
-/

namespace TextTemplate.Markup

/-- The rules let pass what the remark is about. -/
def Rules.Allows (rules : Rules) : Remark → Prop
  | .unknownDirective _ _ => rules.strict = false
  | .blockRedefined _ _ => rules.duplicates = .last
  | .parentReplaced _ _ => True

/-! ### Hand in hand -/

namespace Builder

variable {rules : Rules} {b b' : Builder} {remarks : List Remark}

/-- A step without remarks is the same under all rules. -/
theorem silent_eq_ok_iff {ε : Type} {result : Except ε Builder} :
    (([], result) : List Remark × Except ε Builder) = (remarks, .ok b') ↔
      ([], result) = (remarks, .ok b') ∧ ∀ remark ∈ remarks, rules.Allows remark := by
  constructor
  · intro h
    obtain ⟨rfl, -⟩ := Prod.mk.inj h
    exact ⟨h, nofun⟩
  · exact And.left

theorem openBlock_eq_ok_iff {name : String} {location : Location} :
    b.openBlock rules name location = (remarks, .ok b') ↔
      b.openBlock .default name location = (remarks, .ok b') ∧
        ∀ remark ∈ remarks, rules.Allows remark := by
  unfold openBlock
  have hallowed : (Rules.default.duplicates == .error) = false := rfl
  cases hagain : b.numbers.any (·.1 == name) with
  | false => simpa using silent_eq_ok_iff
  | true =>
    cases hduplicates : rules.duplicates with
    | last =>
      -- The block is remarked upon in both cases, and both go on with it.
      have hlast : (Duplicates.last == .error) = false := rfl
      simp only [Bool.true_and, hallowed, hlast, Bool.false_eq_true, ↓reduceIte]
      constructor
      · intro h
        obtain ⟨rfl, -⟩ := Prod.mk.inj h
        refine ⟨h, ?_⟩
        intro remark hremark
        obtain rfl := List.mem_singleton.1 hremark
        exact hduplicates
      · exact And.left
    | error =>
      have herror : (Duplicates.error == .error) = true := rfl
      simp only [Bool.true_and, hallowed, herror, Bool.false_eq_true, ↓reduceIte]
      constructor
      · intro h
        cases (Prod.mk.inj h).2
      · rintro ⟨h, hall⟩
        obtain ⟨rfl, -⟩ := Prod.mk.inj h
        have hlast : rules.duplicates = .last := hall _ List.mem_cons_self
        rw [hduplicates] at hlast
        cases hlast

/-- The rules take a directive exactly if the default rules do with remarks that are allowed. -/
theorem directive_eq_ok_iff {d : Directive} {location : Location} :
    b.directive rules d location = (remarks, .ok b') ↔
      b.directive .default d location = (remarks, .ok b') ∧
        ∀ remark ∈ remarks, rules.Allows remark := by
  cases d with
  | startBlock name => exact openBlock_eq_ok_iff
  | unknown keyword =>
    have hdefault : b.directive .default (.unknown keyword) location
        = ([.unknownDirective keyword location], .ok b) := rfl
    rw [hdefault]
    show (if rules.strict then ([], .error (.unknownDirective keyword))
      else ([Remark.unknownDirective keyword location], .ok b) :
        List Remark × Except Cause Builder) = (remarks, .ok b') ↔ _
    cases hstrict : rules.strict with
    | true =>
      constructor
      · intro h
        cases (Prod.mk.inj h).2
      · rintro ⟨h, hall⟩
        obtain ⟨rfl, -⟩ := Prod.mk.inj h
        have hlenient : rules.strict = false := hall _ List.mem_cons_self
        rw [hstrict] at hlenient
        cases hlenient
    | false =>
      constructor
      · intro h
        obtain ⟨rfl, -⟩ := Prod.mk.inj h
        refine ⟨h, ?_⟩
        intro remark hremark
        obtain rfl := List.mem_singleton.1 hremark
        exact hstrict
      · exact And.left
  | extends_ name =>
    -- A second ancestor is doubtful, but no rules forbid it.
    have hparent : ∀ remark ∈ (b.extend name).1, rules.Allows remark := by
      intro remark hremark
      unfold extend at hremark
      dsimp only at hremark
      split at hremark
      · split at hremark
        · cases hremark
        · obtain rfl := List.mem_singleton.1 hremark
          trivial
      · cases hremark
    constructor
    · intro h
      obtain ⟨rfl, -⟩ := Prod.mk.inj h
      exact ⟨h, hparent⟩
    · exact And.left
  | _ => exact silent_eq_ok_iff

/-- The rules take a token exactly if the default rules do with remarks that are allowed. -/
theorem token_eq_ok_iff {t : Token} :
    b.token rules t = (remarks, .ok b') ↔
      b.token .default t = (remarks, .ok b') ∧ ∀ remark ∈ remarks, rules.Allows remark := by
  cases hitem : t.item with
  | error cause =>
    rw [token_eq, token_eq, hitem]
    exact silent_eq_ok_iff
  | ok item =>
    cases item with
    | text s | output expr =>
      rw [token_eq, token_eq, hitem]
      exact silent_eq_ok_iff
    | directive d =>
      rw [token_eq_ok_iff_directive hitem, token_eq_ok_iff_directive hitem]
      exact directive_eq_ok_iff

/-- What taking tokens one after the other comes to. -/
theorem tokens_cons_eq_ok_iff {t : Token} {rest : List Token} :
    b.tokens rules (t :: rest) = (remarks, .ok b') ↔ ∃ first b₁ more,
      b.token rules t = (first, .ok b₁) ∧ b₁.tokens rules rest = (more, .ok b') ∧
        remarks = first ++ more := by
  rw [tokens]
  rcases b.token rules t with ⟨first, result⟩
  cases result with
  | error fault => simp
  | ok b₁ =>
    constructor
    · intro h
      obtain ⟨rfl, hrest⟩ := Prod.mk.inj h
      exact ⟨first, b₁, _, rfl, by rw [← hrest], rfl⟩
    · rintro ⟨_, _, more, h, hrest, rfl⟩
      cases h
      simp only [hrest]

/-- The rules take tokens exactly if the default rules do with remarks that are allowed. -/
theorem tokens_eq_ok_iff {ts : List Token} :
    b.tokens rules ts = (remarks, .ok b') ↔
      b.tokens .default ts = (remarks, .ok b') ∧ ∀ remark ∈ remarks, rules.Allows remark := by
  induction ts generalizing b remarks with
  | nil => exact silent_eq_ok_iff
  | cons t rest ih =>
    rw [tokens_cons_eq_ok_iff, tokens_cons_eq_ok_iff]
    constructor
    · rintro ⟨first, b₁, more, htoken, hrest, rfl⟩
      obtain ⟨htoken', hfirst⟩ := token_eq_ok_iff.1 htoken
      obtain ⟨hrest', hmore⟩ := ih.1 hrest
      refine ⟨⟨first, b₁, more, htoken', hrest', rfl⟩, ?_⟩
      intro remark hremark
      rcases List.mem_append.1 hremark with hremark | hremark
      · exact hfirst remark hremark
      · exact hmore remark hremark
    · rintro ⟨⟨first, b₁, more, htoken, hrest, rfl⟩, hall⟩
      have hfirst : ∀ remark ∈ first, rules.Allows remark := by
        intro remark hremark
        exact hall remark (List.mem_append_left _ hremark)
      have hmore : ∀ remark ∈ more, rules.Allows remark := by
        intro remark hremark
        exact hall remark (List.mem_append_right _ hremark)
      exact ⟨first, b₁, more, token_eq_ok_iff.2 ⟨htoken, hfirst⟩, ih.2 ⟨hrest, hmore⟩, rfl⟩

end Builder

/-! ### Reading under two rules -/

namespace Document

variable {rules : Rules} {remarks : List Remark} {document : Document}

/-- Tokens make up a document with some remarks. -/
theorem ofTokens_eq_iff {ts : List Token} :
    ofTokens rules ts = ⟨remarks, .ok document⟩ ↔ ∃ b,
      Builder.empty.tokens rules ts = (remarks, .ok b) ∧ b.finish = .ok document := by
  unfold ofTokens
  rcases Builder.empty.tokens rules ts with ⟨made, result⟩
  cases result with
  | error fault => simp [Except.bind]
  | ok b => simp [Except.bind, and_assoc]

/-- The rules read a text exactly if the default rules do with remarks that are allowed. -/
theorem read_eq_iff_default {text : String} :
    read rules text = ⟨remarks, .ok document⟩ ↔
      read .default text = ⟨remarks, .ok document⟩ ∧ ∀ remark ∈ remarks, rules.Allows remark := by
  unfold read
  cases Token.scan text with
  | error fault => simp
  | ok ts =>
    simp only [ofTokens_eq_iff]
    constructor
    · rintro ⟨b, htokens, hfinish⟩
      obtain ⟨hdefault, hall⟩ := Builder.tokens_eq_ok_iff.1 htokens
      exact ⟨⟨b, hdefault, hfinish⟩, hall⟩
    · rintro ⟨⟨b, hdefault, hfinish⟩, hall⟩
      exact ⟨b, Builder.tokens_eq_ok_iff.2 ⟨hdefault, hall⟩, hfinish⟩

end Document

/-- Is an unknown directive ignored? -/
def Remark.isIgnored : Remark → Bool
  | .unknownDirective _ _ => true
  | _ => false

/-- Is the name of a block used again? -/
def Remark.isRedefinition : Remark → Bool
  | .blockRedefined _ _ => true
  | _ => false

/-- A strict reading of a text and a lenient one, which warns of what the strict one forbids. -/
structure Stricter (strict lenient : Reading) (warns : Remark → Bool) : Prop where
  /-- The strict reading accepts a document if the lenient one does and does not warn. -/
  accepts : ∀ document, strict.result = .ok document ↔
    lenient.result = .ok document ∧ ∀ remark ∈ lenient.remarks, warns remark = false
  /-- The strict reading fails if the lenient one fails or warns. -/
  rejects : (∃ fault, strict.result = .error fault) ↔
    (∃ fault, lenient.result = .error fault) ∨ ∃ remark ∈ lenient.remarks, warns remark = true
  /-- What is doubtful about an accepted text is so in both readings. -/
  remarks : ∀ document, strict.result = .ok document → strict.remarks = lenient.remarks

/-- Rules that forbid in addition what the other rules warn of make a stricter reading. -/
theorem stricter_of_allows {strict lenient : Rules} {warns : Remark → Bool} (text : String)
    (hallows : ∀ remark, strict.Allows remark ↔ lenient.Allows remark ∧ warns remark = false) :
    Stricter (Document.read strict text) (Document.read lenient text) warns := by
  -- Both readings are compared with that under the default rules.
  have hboth : ∀ remarks document, Document.read strict text = ⟨remarks, .ok document⟩ ↔
      Document.read lenient text = ⟨remarks, .ok document⟩ ∧
        ∀ remark ∈ remarks, warns remark = false := by
    intro remarks document
    have hstrict := @Document.read_eq_iff_default strict remarks document text
    have hlenient := @Document.read_eq_iff_default lenient remarks document text
    rw [hstrict, hlenient, and_assoc]
    simp only [hallows, imp_and, forall_and]
  have haccepts : ∀ document, (Document.read strict text).result = .ok document ↔
      (Document.read lenient text).result = .ok document ∧
        ∀ remark ∈ (Document.read lenient text).remarks, warns remark = false := by
    intro document
    constructor
    · intro h
      obtain ⟨hlenient, hall⟩ := (hboth _ document).1 (by rw [← h])
      rw [hlenient]
      exact ⟨rfl, hall⟩
    · rintro ⟨h, hall⟩
      rw [(hboth _ document).2 ⟨by rw [← h], hall⟩]
  refine ⟨haccepts, ?_, ?_⟩
  · -- What is not accepted fails.
    have hfails : ∀ reading : Reading, (∃ fault, reading.result = .error fault) ↔
        ¬ ∃ document, reading.result = .ok document := by
      intro reading
      cases reading.result with
      | error fault => simp
      | ok document => simp
    rw [hfails, hfails]
    simp only [haccepts, exists_and_right, Classical.not_and_iff_not_or_not, Classical.not_forall,
      exists_prop, Bool.not_eq_false]
  · intro document h
    obtain ⟨hlenient, -⟩ := (hboth _ document).1 (by rw [← h])
    rw [hlenient]

/-- Rules that make an error of unknown directives, or of block names that are used again, accept
    exactly the texts that are read without a warning of that kind otherwise, and make the same of
    them.  The other setting is the same in both cases. -/
theorem stricter_settings (text : String) :
    (∀ duplicates, Stricter (Document.read ⟨true, duplicates⟩ text)
      (Document.read ⟨false, duplicates⟩ text) Remark.isIgnored) ∧
    (∀ strict, Stricter (Document.read ⟨strict, .error⟩ text)
      (Document.read ⟨strict, .last⟩ text) Remark.isRedefinition) := by
  constructor
  · intro duplicates
    apply stricter_of_allows
    intro remark
    cases remark <;> simp [Rules.Allows, Remark.isIgnored]
  · intro strict
    apply stricter_of_allows
    intro remark
    cases remark <;> simp [Rules.Allows, Remark.isRedefinition]

end TextTemplate.Markup
