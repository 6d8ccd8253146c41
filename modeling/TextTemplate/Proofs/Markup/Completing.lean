import TextTemplate.Proofs.Markup.Scanning
import TextTemplate.Proofs.Markup.Taking

/-! # Completing a text

  Whatever is open in a text can be closed, and then the text is read: the closing
  directives need no names, they nest no deeper, and no rules forbid them.  So
  every text whose tokens are taken is the start of one that is read
  (`Document.completable`), also where a plain text at its end could form a mark
  with what follows.  A blank keeps them apart.
-/

namespace TextTemplate.Markup

/-! ### Tags first -/

/-- Whatever follows the characters, they say the items first. -/
def SaysFirst (s : List Char) (items : List Item) : Prop :=
  ∀ rest more, Says rest more → Says (s ++ rest) (items ++ more)

namespace SaysFirst

theorem nil : SaysFirst [] [] := by
  intro rest more h
  exact h

theorem append {s s' : List Char} {items items' : List Item} (h : SaysFirst s items)
    (h' : SaysFirst s' items') : SaysFirst (s ++ s') (items ++ items') := by
  intro rest more hrest
  rw [List.append_assoc, List.append_assoc]
  exact h _ _ (h' rest more hrest)

/-- A tag says its item, if no closing mark comes before its own. -/
theorem tag {kind : TagKind} {content : List Char} {item : Item}
    (hclosing : ∀ rest, Token.cutAtClosing kind (content ++ Token.closing kind ++ rest)
      = some (content, rest)) (hitem : tagItem kind content = .ok item) :
    SaysFirst (Token.tagChars kind content) [item] := by
  intro rest more hrest
  have htag : Token.tagChars kind content ++ rest
      = Token.opening kind ++ (content ++ Token.closing kind ++ rest) := by
    simp [Token.tagChars]
  have hopening : Token.cutAtOpening (Token.tagChars kind content ++ rest)
      = some ([], kind, content ++ Token.closing kind ++ rest) := by
    rw [htag]
    cases kind <;> rfl
  exact .tag hopening (hclosing rest) hitem hrest

/-- Where nothing follows, the items are all. -/
theorem alone {s : List Char} {items : List Item} (h : SaysFirst s items) : Says s items := by
  have hall : Says (s ++ []) (items ++ plainItems []) := h _ _ (.plain rfl)
  have hitems : items ++ plainItems [] = items := List.append_nil items
  rwa [List.append_nil, hitems] at hall

end SaysFirst

/-! ### Closing directives -/

namespace Header

/-- The directive that closes a frame with the header, under whatever name. -/
def closer : Header → Directive
  | .branch _ _ => .endIf
  | .loop _ _ => .endFor
  | .block _ => .endBlock none

/-- How the closing directive is written. -/
def closerText : Header → List Char
  | .branch _ _ => ['e', 'n', 'd', 'i', 'f']
  | .loop _ _ => ['e', 'n', 'd', 'f', 'o', 'r']
  | .block _ => ['e', 'n', 'd', 'b', 'l', 'o', 'c', 'k']

theorem closes_closer (header : Header) : (Item.directive header.closer).Closes header := by
  cases header with
  | branch | loop => trivial
  | block => exact .inl rfl

theorem tagItem_closerText (header : Header) :
    tagItem .directive header.closerText = .ok (.directive header.closer) := by
  have hbranch : tagItem .directive ['e', 'n', 'd', 'i', 'f'] = .ok (.directive .endIf) := by rfl
  have hloop : tagItem .directive ['e', 'n', 'd', 'f', 'o', 'r'] = .ok (.directive .endFor) := by
    rfl
  have hblock : tagItem .directive ['e', 'n', 'd', 'b', 'l', 'o', 'c', 'k']
      = .ok (.directive (.endBlock none)) := by
    rfl
  cases header with
  | branch => exact hbranch
  | loop => exact hloop
  | block => exact hblock

theorem cutAtClosing_closerText (header : Header) (rest : List Char) :
    Token.cutAtClosing .directive (header.closerText ++ Token.closing .directive ++ rest)
      = some (header.closerText, rest) := by
  cases header <;> rfl

end Header

/-- The tags that close all frames, the first one first. -/
def closers (frames : List Frame) : List Char :=
  frames.flatMap fun f => Token.tagChars .directive f.header.closerText

/-- The items of the closing tags. -/
def closerItems (frames : List Frame) : List Item :=
  frames.map fun f => .directive f.header.closer

theorem saysFirst_closers (frames : List Frame) :
    SaysFirst (closers frames) (closerItems frames) := by
  induction frames with
  | nil => exact .nil
  | cons f outer ih =>
    have htag := SaysFirst.tag f.header.cutAtClosing_closerText f.header.tagItem_closerText
    exact htag.append ih

/-- Behind a plain text and a blank, the closing tags say what they say on their own. -/
theorem says_before_closers {plain : List Char} (hplain : Token.cutAtOpening plain = none)
    (frames : List Frame) : Says (plain ++ [' '] ++ closers frames)
      (plainItems (plain ++ [' ']) ++ closerItems frames) := by
  have hblank : Token.cutAtOpening (plain ++ [' ']) = none := by
    have hapart : Apart plain [' '] := by simp [Apart]
    rw [cutAtOpening_append_of_none hplain hapart]
    rfl
  have hapart : Apart (plain ++ [' ']) (closers frames) := by simp [Apart]
  obtain ⟨whole, hsaid, hfused⟩ :=
    Says.append (.plain hblank) (saysFirst_closers frames).alone hapart
  -- No closing tag is a plain text, so the texts stay apart.
  have hwhole : ∀ {items}, Fused Item.text items (closerItems frames) whole →
      whole = items ++ closerItems frames := by
    intro items hfused
    generalize hitems : closerItems frames = items' at hfused
    cases hfused with
    | beside => rfl
    | across =>
      cases frames with
      | nil => cases hitems
      | cons f outer => cases hitems
  rwa [← hwhole hfused]

namespace Builder

variable {rules : Rules} {b : Builder}

/-- A directive is taken under any rules if it closes the innermost frame. -/
theorem token_closes {t : Token} {d : Directive} {f : Frame} {outer : List Frame}
    (hframes : b.frames = f :: outer) (hitem : t.item = .ok (.directive d))
    (hcloses : (Item.directive d).Closes f.header) :
    ∃ b', (b.token rules t).2 = .ok b' ∧ b'.frames = outer := by
  refine ⟨b.leave f outer, ?_, rfl⟩
  rw [token_eq, hitem]
  dsimp only
  rw [(end_ok_iff ⟨_, hcloses⟩).2 ⟨f, outer, hframes, hcloses, rfl⟩]
  rfl

/-- The closing directives of all frames leave none open. -/
theorem tokens_closerItems {ts : List Token} {frames : List Frame} (hframes : b.frames = frames)
    (hitems : ts.mapM Token.item = .ok (closerItems frames)) :
    ∃ b', (b.tokens rules ts).2 = .ok b' ∧ b'.frames = [] := by
  induction frames generalizing b ts with
  | nil =>
    cases ts with
    | nil => exact ⟨b, rfl, hframes⟩
    | cons t rest =>
      obtain ⟨item, more, -, -, hnone⟩ := Token.mapM_item_cons_iff.1 hitems
      cases hnone
  | cons f outer ih =>
    cases ts with
    | nil => cases hitems
    | cons t rest =>
      obtain ⟨item, more, hitem, hrest, hcons⟩ := Token.mapM_item_cons_iff.1 hitems
      obtain ⟨rfl, rfl⟩ := List.cons.inj hcons
      obtain ⟨b₁, htoken, houter⟩ := token_closes hframes hitem f.header.closes_closer
      obtain ⟨b', hclosed, hnone⟩ := ih houter hrest
      exact ⟨b', by rw [tokens_cons_ok htoken, hclosed], hnone⟩

/-- A plain text before them changes nothing about that. -/
theorem tokens_before_closers {ts : List Token} {plain : List Char}
    (hitems : ts.mapM Token.item = .ok (plainItems plain ++ closerItems b.frames)) :
    ∃ b', (b.tokens rules ts).2 = .ok b' ∧ b'.frames = [] := by
  unfold plainItems at hitems
  by_cases hplain : plain.isEmpty = true
  · rw [if_pos hplain] at hitems
    exact tokens_closerItems rfl hitems
  · rw [if_neg hplain] at hitems
    cases ts with
    | nil => cases hitems
    | cons t rest =>
      obtain ⟨item, more, hitem, hrest, hcons⟩ := Token.mapM_item_cons_iff.1 hitems
      obtain ⟨rfl, rfl⟩ := List.cons.inj hcons
      have htoken : (b.token rules t).2 = .ok (b.add (.text (String.ofList plain))) := by
        rw [token_eq, hitem]
      rw [tokens_cons_ok htoken]
      exact tokens_closerItems rfl hrest

end Builder

/-- A text can be completed if its tokens are taken up to a plain text at its end. -/
theorem Document.completable {rules : Rules} {head plain : List Char} {front : List Token}
    {b : Builder} (hthrough : Token.GoesThrough 0 .start head front)
    (hplain : Token.cutAtOpening plain = none)
    (hbuilt : (Builder.empty.tokens rules front).2 = .ok b) :
    ∃ more document, (Document.read rules (String.ofList (head ++ plain) ++ more)).result
      = .ok document := by
  obtain ⟨tokens, hscan, hitems⟩ := (says_before_closers hplain b.frames).scanFrom
    (0 + head.length) (Location.start.after head)
  obtain ⟨b', hclosed, hnone⟩ := @Builder.tokens_before_closers rules b _ _ hitems
  have htokens : (Builder.empty.tokens rules (front ++ tokens)).2 = .ok b' := by
    rw [Builder.tokens_behind hbuilt, hclosed]
  have hdocument := Document.ofTokens_ok_iff.2 ⟨b', htokens, Builder.finish_ok_iff.2 ⟨hnone, rfl⟩⟩
  have htext : (String.ofList (head ++ plain) ++ String.ofList (' ' :: closers b.frames)).toList
      = head ++ (plain ++ [' '] ++ closers b.frames) := by
    simp
  have hscanned : Token.scan
      (String.ofList (head ++ plain) ++ String.ofList (' ' :: closers b.frames))
        = .ok (front ++ tokens) := by
    rw [Token.scan_eq, htext, hthrough.ok hscan]
  refine ⟨String.ofList (' ' :: closers b.frames), ?_⟩
  unfold Document.read
  rw [hscanned]
  exact ⟨_, hdocument⟩

end TextTemplate.Markup
