import TextTemplate.Proofs.Chain.Depth
import TextTemplate.Proofs.Expr.Names
import TextTemplate.Proofs.Expr.Parsing
import TextTemplate.Proofs.Expr.Spelling
import TextTemplate.Proofs.Markup.Segment

/-! # The variable of a loop

  A loop binds a name, and its body reads the variable by writing the name.  What a
  loop takes for a name is what the scanner of expressions takes for a word, so the
  body can name no variable in another way (`Token.scan_word`).  A word may be a
  keyword, though, which means its own value in every scope.  So the variable of a
  loop is read under its name unless that is a keyword (`evaluate_loop_variable`),
  and `keywordLoop_unread` is a loop whose variable cannot be read at all.

  Every loop in the tree of a text has its tag among the text's directives: the
  items of an inner sequence are items of the outer one (`Node.walkIn_subset`).
-/

namespace TextTemplate

/-! ### Words alone -/

/-- A word is scanned as one token. -/
theorem Token.scan_word {n : String} (hn : Token.IsWord n) :
    ∃ t, Token.scan n = .ok [t] ∧ t.lexeme = Token.word n := by
  obtain ⟨tokens, hscan, hlexemes⟩ := Token.Reads.name hn .nil .nil 0
  obtain ⟨t, rfl, ht⟩ := List.map_eq_singleton_iff.1 hlexemes
  rw [List.append_nil] at hscan
  exact ⟨t, hscan, ht⟩

theorem Token.word_of_ne {n : String} (hn : ∀ k : Keyword, n ≠ k.text) :
    Token.word n = .name n := by
  have hyes : n ≠ "true" := hn .yes
  have hno : n ≠ "false" := hn .no
  have hnull : n ≠ "null" := hn .null
  rw [Token.word, if_neg hyes, if_neg hno, if_neg hnull]

namespace Expr

/-- A word that is an operand is evaluated as the operand. -/
theorem evaluate_word {n : String} (hn : Token.IsWord n) {e : Expr} {v : Value} {scope : Scope}
    (hderives : ∀ t : Token, t.lexeme = Token.word n → Derives .operand [t] e)
    (hvalue : e.eval scope maxDepth = .ok v) : evaluate scope n = .ok (v, none) := by
  obtain ⟨t, hscan, ht⟩ := Token.scan_word hn
  -- A word is no number, so no digit of it can be too many.
  have hshort : ¬ Reader.Overlong t := by
    rintro ⟨digits, hnumber, -⟩
    rw [ht] at hnumber
    unfold Token.word at hnumber
    split_ifs at hnumber
  have hread : read n = .ok e := by
    rw [read, hscan]
    exact ofTokens_single n.length (hderives t ht) hshort
  rw [evaluate, hread]
  simp only [hvalue, settle]

/-- A word that is no keyword means what the scope has under it. -/
theorem evaluate_name {n : String} (hn : Token.IsWord n) (hkeyword : ∀ k : Keyword, n ≠ k.text)
    (scope : Scope) : evaluate scope n = .ok (scope.lookup n, none) := by
  refine evaluate_word hn (e := .name n) (fun t ht => ?_) rfl
  exact .name (ht.trans (Token.word_of_ne hkeyword))

/-- A keyword means its own value, whatever the scope has under it. -/
theorem evaluate_keyword (k : Keyword) (scope : Scope) :
    evaluate scope k.text = .ok (Reader.keywordValue k, none) := by
  refine evaluate_word (Token.isWord_keyword k) (e := .literal (Reader.keywordValue k))
    (fun t ht => ?_) rfl
  exact .keyword (ht.trans (Token.word_keyword k))

end Expr

namespace Markup

/-! ### The names of loops -/

theorem Directive.isWord_of_isName {s : List Char} (h : Directive.isName s = true) :
    TextTemplate.Token.IsWord (String.ofList s) := by
  cases s with
  | nil => cases h
  | cons c rest =>
    obtain ⟨hc, hrest⟩ := Bool.and_eq_true_iff.1 h
    exact ⟨c, rest, String.toList_ofList, hc, List.all_eq_true.1 hrest⟩

theorem Directive.isWord_of_readFor {rest : List Char} {name source : String}
    (h : Directive.readFor rest = .ok (.startFor name source)) :
    TextTemplate.Token.IsWord name := by
  unfold Directive.readFor at h
  split at h
  · cases h
  · simp only at h
    split at h
    · next hname =>
      cases h
      exact isWord_of_isName hname
    · cases h

/-- Only a `for` makes a loop, and the name of its variable is a word. -/
theorem Directive.isWord_of_read {content name source : String}
    (h : Directive.read content = .ok (.startFor name source)) :
    TextTemplate.Token.IsWord name := by
  unfold Directive.read at h
  dsimp only at h
  split at h
  case h_4 => exact isWord_of_readFor h
  case h_2 =>
    unfold Directive.readElse at h
    split_ifs at h
    · cases h
    · dsimp only at h
      split_ifs at h
      cases h
  case h_1 | h_6 | h_8 => split_ifs at h; cases h
  case h_3 | h_5 | h_7 | h_9 => cases h

namespace Node

mutual

theorem walkIn_subset_walk : ∀ {node : Node} {o : Opening} (rest : List Node),
    o ∈ openings node → walkIn o.2 ⊆ walk rest node
  | .text _, o, _, h | .output _, o, _, h | .bare, o, _, h => by simp [openings] at h
  | .branch _ _ body, o, _, h | .loop _ _ body, o, _, h | .block _ body, o, _, h => by
    rw [openings] at h
    rw [walk]
    refine List.Subset.trans ?_ (List.subset_cons_of_subset _ (List.subset_append_left _ _))
    rcases List.mem_cons.1 h with rfl | h
    · exact List.Subset.refl _
    · exact walkIn_subset h

/-- The items of a sequence that is opened inside another one are items of that one. -/
theorem walkIn_subset : ∀ {s : List Node} {o : Opening}, o ∈ openingsIn s →
    walkIn o.2 ⊆ walkIn s
  | [], o, h => by simp [openingsIn] at h
  | node :: rest, o, h => by
    rw [openingsIn] at h
    rw [walkIn]
    rcases List.mem_append.1 h with h | h
    · exact List.subset_append_of_subset_left _ (walkIn_subset_walk rest h)
    · exact List.subset_append_of_subset_right _ (walkIn_subset h)

end

/-- The tag of a loop is among the items of its sequence. -/
theorem startFor_mem_walkIn {name source : String} {body s : List Node}
    (h : .loop name source body ∈ s) : .directive (.startFor name source) ∈ walkIn s := by
  induction s with
  | nil => cases h
  | cons node rest ih =>
    rw [walkIn]
    rcases List.mem_cons.1 h with rfl | h
    · rw [walk]
      exact List.mem_append_left _ List.mem_cons_self
    · exact List.mem_append_right _ (ih h)

end Node

/-- The name of a loop in a document that was read is a word. -/
theorem Document.isWord_of_loop {rules : Rules} {text : String} {document : Document}
    (h : (Document.read rules text).result = .ok document) {s : List Node}
    (hs : s ∈ document.sequences) {name source : String} {body : List Node}
    (hloop : .loop name source body ∈ s) : TextTemplate.Token.IsWord name := by
  obtain ⟨-, tokens, items, -, hitems, hderives⟩ := Document.derives_of_read h
  obtain ⟨-, hwalk⟩ := hderives.walked
  have hitem : Item.directive (.startFor name source) ∈ Node.walkIn document.root := by
    have hin := Node.startFor_mem_walkIn hloop
    rcases List.mem_cons.1 hs with rfl | hs
    · exact hin
    · obtain ⟨o, ho, rfl⟩ := List.mem_map.1 hs
      exact Node.walkIn_subset ho hin
  -- The tree gives back what the tokens say, so one of them is the loop's tag.
  rw [hwalk] at hitem
  obtain ⟨item, hmem, hkept⟩ := List.mem_filterMap.1 hitem
  have hsame : item = .directive (.startFor name source) := by
    unfold Item.kept? at hkept
    split at hkept <;> cases hkept
    rfl
  subst hsame
  obtain ⟨t, -, ht⟩ := Token.exists_item_of_mem hitems hmem
  unfold Token.item at ht
  split at ht
  · cases ht
  · cases ht
  · cases hread : Directive.read t.value with
    | error cause =>
      rw [hread] at ht
      cases ht
    | ok d =>
      rw [hread] at ht
      cases ht
      exact Directive.isWord_of_read hread

end Markup

open Markup

/-- In the scope that a loop makes for an item, the loop's name is read as the item if it is no
    keyword, and as the keyword if it is one. -/
theorem evaluate_loop_variable {rules : Rules} {text : String} {document : Document}
    (h : (Document.read rules text).result = .ok document) {s : List Node}
    (hs : s ∈ document.sequences) {name source : String} {body : List Node}
    (hloop : .loop name source body ∈ s) (scope : Scope) (item : Value) :
    ((∀ k : Keyword, name ≠ k.text) →
      Expr.evaluate (scope.extend [(name, item)]) name = .ok (item, none)) ∧
    ∀ k : Keyword, name = k.text →
      Expr.evaluate (scope.extend [(name, item)]) name = .ok (Reader.keywordValue k, none) := by
  have hword := Document.isWord_of_loop h hs hloop
  constructor
  · intro hkeyword
    rw [Expr.evaluate_name hword hkeyword, Scope.lookup_extend_one, if_pos rfl]
  · rintro k rfl
    exact Expr.evaluate_keyword k _

/-- A loop inside a branch. -/
def innerLoop : String := "{% if a %}{% for x_1 in xs %}{{ x_1 }}{% endfor %}{% endif %}"

theorem innerLoop_read : ∃ s ∈ (Render.documentOf innerLoop).sequences,
    .loop "x_1" "xs" [.output "x_1"] ∈ s ∧ ∀ (scope : Scope) (item : Value),
      Expr.evaluate (scope.extend [("x_1", item)]) "x_1" = .ok (item, none) := by
  have hread : (Document.read .default innerLoop).result = .ok (Render.documentOf innerLoop) :=
    Render.read_documentOf (by decide +kernel)
  have hroot : (Render.documentOf innerLoop).root
      = [.branch .first (some "a") [.loop "x_1" "xs" [.output "x_1"]]] := by cbv
  have hs : [.loop "x_1" "xs" [.output "x_1"]] ∈ (Render.documentOf innerLoop).sequences := by
    rw [Document.sequences, hroot]
    simp [Node.openingsIn, Node.openings]
  refine ⟨_, hs, List.mem_cons_self, fun scope item => ?_⟩
  obtain ⟨hvariable, -⟩ := evaluate_loop_variable hread hs List.mem_cons_self scope item
  apply hvariable
  intro k
  cases k <;> decide

/-- A loop whose variable is called like a keyword. -/
def keywordLoop : String := "{% for true in names %}{{ true }}{% endfor %}"

/-- The variable of a loop cannot always be read under its name. -/
theorem keywordLoop_unread :
    (∃ document, (Document.read .default keywordLoop).result = .ok document ∧
      .loop "true" "names" [.output "true"] ∈ document.root) ∧
    (∀ scope item, Expr.evaluate (Scope.extend scope [("true", item)]) "true"
      = .ok (.bool true, none)) ∧
    ¬ ∀ (text : String) (document : Document),
      (Document.read .default text).result = .ok document → ∀ s ∈ document.sequences,
      ∀ name source body, .loop name source body ∈ s → ∀ (scope : Scope) (item : Value),
        Expr.evaluate (scope.extend [(name, item)]) name = .ok (item, none) := by
  have hread : (Document.read .default keywordLoop).result = .ok (Render.documentOf keywordLoop) :=
    Render.read_documentOf (by decide +kernel)
  have hroot : (Render.documentOf keywordLoop).root
      = [.loop "true" "names" [.output "true"]] := by cbv
  have hloop : .loop "true" "names" [.output "true"] ∈ (Render.documentOf keywordLoop).root := by
    rw [hroot]
    exact List.mem_cons_self
  have hvalue : ∀ scope item, Expr.evaluate (Scope.extend scope [("true", item)]) "true"
      = .ok (.bool true, none) := fun scope item => Expr.evaluate_keyword .yes _
  refine ⟨⟨_, hread, hloop⟩, hvalue, fun h => ?_⟩
  have hitem := h keywordLoop _ hread _ List.mem_cons_self _ _ _ hloop (.ofPairs []) (.string "a")
  rw [hvalue] at hitem
  cases hitem

end TextTemplate
