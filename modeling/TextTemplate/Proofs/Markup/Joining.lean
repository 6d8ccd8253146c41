import TextTemplate.Proofs.Markup.Counting
import TextTemplate.Proofs.Markup.Marks
import TextTemplate.Proofs.Markup.Segment

/-! # Reading two texts as one

  Two texts that were read make up one that is read too, unless the end of the
  first one and the start of the second one form a mark together.  The items of
  the whole are those of its parts.  Only where plain text meets plain text, two
  items have become one (`Fused`), and so have two nodes.

  What stands where in the text does not count for this, so items are read off
  the characters alone (`Says`).  The induction is on the tags of the first text:
  the nearest mark behind one of its places stays the nearest one when more text
  follows.
-/

namespace TextTemplate.Markup

/-! ### Fused sequences -/

/-- One sequence after another one, where a text at the end of the first and one at the start of the
    second may have become one. -/
inductive Fused {α : Type} (text : String → α) : List α → List α → List α → Prop where
  | beside (a b : List α) : Fused text a b (a ++ b)
  | across (front back : List α) (s t : String) :
      Fused text (front ++ [text s]) (text t :: back) (front ++ text (s ++ t) :: back)

theorem Fused.prepend {α : Type} {text : String → α} {a b whole : List α} (x : List α)
    (h : Fused text a b whole) : Fused text (x ++ a) b (x ++ whole) := by
  cases h with
  | beside =>
    rw [← List.append_assoc]
    exact .beside (x ++ a) b
  | across front back s t =>
    rw [← List.append_assoc, ← List.append_assoc]
    exact .across (x ++ front) back s t

/-! ### What a text says -/

/-- The item of a plain text, if it is not empty. -/
def plainItems (s : List Char) : List Item := if s.isEmpty then [] else [.text (String.ofList s)]

/-- The item of a tag with the content, or what is wrong with the form of its directive. -/
def tagItem (kind : TagKind) (content : List Char) : Except Cause Item :=
  Token.item ⟨.tag kind, String.ofList (Text.trimChars content), 0, .start⟩

/-- The characters say the items. -/
inductive Says : List Char → List Item → Prop where
  | plain {s : List Char} : Token.cutAtOpening s = none → Says s (plainItems s)
  | tag {s before inside content rest : List Char} {kind : TagKind} {item : Item}
      {items : List Item} :
      Token.cutAtOpening s = some (before, kind, inside) →
      Token.cutAtClosing kind inside = some (content, rest) →
      tagItem kind content = .ok item → Says rest items →
      Says s (plainItems before ++ item :: items)

/-- The item of a token does not depend on its place. -/
theorem mapM_item_plain (s : List Char) (position : Nat) (location : Location) :
    (Token.plain s position location).mapM Token.item = .ok (plainItems s) := by
  unfold Token.plain plainItems
  by_cases hs : s.isEmpty = true
  · rw [if_pos hs, if_pos hs]
    rfl
  · rw [if_neg hs, if_neg hs]
    rfl

/-- The items of a plain text, a tag and what follows. -/
theorem mapM_item_tag {before content : List Char} {kind : TagKind} {ts : List Token}
    {items : List Item} (position position' : Nat) (location location' : Location) :
    (Token.plain before position location ++
      ⟨.tag kind, String.ofList (Text.trimChars content), position', location'⟩ :: ts).mapM
        Token.item = .ok items ↔
      ∃ item more, tagItem kind content = .ok item ∧ ts.mapM Token.item = .ok more ∧
        items = plainItems before ++ item :: more := by
  have hsame : Token.item ⟨.tag kind, String.ofList (Text.trimChars content), position', location'⟩
      = tagItem kind content := rfl
  rw [List.mapM_append, mapM_item_plain, List.mapM_cons, hsame]
  cases tagItem kind content with
  | error cause => simp [bind, Except.bind]
  | ok item =>
    cases ts.mapM Token.item with
    | error cause => simp [bind, Except.bind]
    | ok more => simp [bind, Except.bind, pure, Except.pure, eq_comm]

/-- What characters say, their tokens do, wherever they stand. -/
theorem Says.scanFrom {s : List Char} {items : List Item} (h : Says s items) (position : Nat)
    (location : Location) : ∃ tokens, Token.scanFrom position location s = .ok tokens ∧
      tokens.mapM Token.item = .ok items := by
  induction h generalizing position location with
  | @plain s hopening =>
    exact ⟨Token.plain s position location, Token.scanFrom_of_plain hopening position location,
      mapM_item_plain s position location⟩
  | @tag s before inside content rest kind item items hopening hclosing hitem _ ih =>
    obtain ⟨tokens, hrest, htokens⟩ :=
      ih (position + (before ++ Token.tagChars kind content).length)
        (location.after (before ++ Token.tagChars kind content))
    rw [Token.scanFrom_tag hopening hclosing, hrest]
    exact ⟨_, rfl, (mapM_item_tag _ _ _ _).2 ⟨item, items, hitem, htokens, rfl⟩⟩

/-- What tokens say, their characters do. -/
theorem says_of_scanFrom {s : List Char} {position : Nat} {location : Location}
    {tokens : List Token} {items : List Item}
    (hscan : Token.scanFrom position location s = .ok tokens)
    (hitems : tokens.mapM Token.item = .ok items) : Says s items := by
  fun_induction Token.scanFrom position location s generalizing tokens items with
  | case1 position location s hopening =>
    obtain rfl := Except.ok.inj hscan
    rw [mapM_item_plain] at hitems
    obtain rfl := Except.ok.inj hitems
    exact .plain hopening
  | case2 => cases hscan
  | case3 position location s before kind inside hopening tagAt content rest hclosing =>
    rename_i tagPosition tag ih
    cases hmore : Token.scanFrom (tagPosition + content.length + 4)
      (tagAt.after (Token.opening kind ++ content ++ Token.closing kind)) rest with
    | error fault =>
      rw [hmore] at hscan
      cases hscan
    | ok more =>
      rw [hmore] at hscan
      obtain rfl := Except.ok.inj hscan
      obtain ⟨item, items', hitem, hrest, rfl⟩ := (mapM_item_tag _ _ _ _).1 hitems
      exact .tag hopening hclosing hitem (ih hmore hrest)

theorem says_of_scan {text : String} {tokens : List Token} {items : List Item}
    (hscan : Token.scan text = .ok tokens) (hitems : tokens.mapM Token.item = .ok items) :
    Says text.toList items := by
  rw [Token.scan_eq] at hscan
  exact says_of_scanFrom hscan hitems

/-! ### Texts side by side -/

theorem Apart.of_suffix {before s s' : List Char} (h : Apart (before ++ s) s') : Apart s s' := by
  rintro ⟨hlast, hhead⟩
  apply h
  refine ⟨?_, hhead⟩
  rw [List.getLast?_append, hlast]
  rfl

/-- A text without an opening mark is plain text before the next opening mark. -/
theorem cutAtOpening_append_of_none {s s' : List Char} (h : Token.cutAtOpening s = none)
    (hapart : Apart s s') : Token.cutAtOpening (s ++ s')
      = (Token.cutAtOpening s').map fun cut => (s ++ cut.1, cut.2) := by
  induction s with
  | nil =>
    rw [List.nil_append]
    cases Token.cutAtOpening s' <;> rfl
  | cons c rest ih =>
    have hfirst := apart_of_cutAtOpening_none h
    rw [cutAtOpening_cons hfirst, Option.map_eq_none_iff] at h
    have hrest := ih h (Apart.of_suffix (show Apart ([c] ++ rest) s' from hapart))
    -- Behind the last character comes the start of the other text.
    have hwhole : Apart [c] (rest ++ s') := by
      cases rest with
      | nil => exact hapart
      | cons d rest => exact hfirst
    rw [List.cons_append, cutAtOpening_cons hwhole, hrest]
    cases Token.cutAtOpening s' <;> rfl

/-- The first opening mark stays the first one when more text follows. -/
theorem cutAtOpening_append_of_some {s s' before inside : List Char} {kind : TagKind}
    (h : Token.cutAtOpening s = some (before, kind, inside)) :
    Token.cutAtOpening (s ++ s') = some (before, kind, inside ++ s') := by
  obtain ⟨rfl, hfirst⟩ := Token.cutAtOpening_eq_some_iff.1 h
  rw [Token.cutAtOpening_eq_some_iff]
  refine ⟨by simp, fun kind' i hi hstart => hfirst kind' i hi (hstart.of_append ?_)⟩
  rw [List.length_append, List.length_append, Token.length_opening, Token.length_opening]
  omega

/-- A mark that is the first one stays so when more text follows. -/
theorem cutAt_append_of_some {a b : Char} {s s' before after : List Char}
    (h : Text.cutAt a b s = some (before, after)) :
    Text.cutAt a b (s ++ s') = some (before, after ++ s') := by
  obtain ⟨rfl, hfirst⟩ := Text.cutAt_eq_some_iff.1 h
  rw [Text.cutAt_eq_some_iff]
  refine ⟨by simp, fun i hi hstart => hfirst i hi (hstart.of_append ?_)⟩
  rw [List.length_append, List.length_append]
  omega

/-- The first closing mark stays the first one when more text follows. -/
theorem cutAtClosing_append_of_some {s s' content rest : List Char} {kind : TagKind}
    (h : Token.cutAtClosing kind s = some (content, rest)) :
    Token.cutAtClosing kind (s ++ s') = some (content, rest ++ s') := by
  cases kind <;> exact cutAt_append_of_some h

/-- Plain text before plain text. -/
theorem fused_plainItems (s s' : List Char) (items : List Item) :
    Fused Item.text (plainItems s) (plainItems s' ++ items) (plainItems (s ++ s') ++ items) := by
  cases s with
  | nil => exact .beside [] (plainItems s' ++ items)
  | cons c s =>
    cases s' with
    | nil =>
      rw [List.append_nil]
      exact .beside (plainItems (c :: s)) items
    | cons c' s' =>
      have hboth : plainItems (c :: s ++ c' :: s')
          = [.text (String.ofList (c :: s) ++ String.ofList (c' :: s'))] := by
        rw [← String.ofList_append]
        rfl
      rw [hboth]
      exact .across [] items _ _

/-- Two texts side by side say what both of them do. -/
theorem Says.append {s s' : List Char} {items items' : List Item} (h : Says s items)
    (h' : Says s' items') (hapart : Apart s s') :
    ∃ whole, Says (s ++ s') whole ∧ Fused Item.text items items' whole := by
  induction h with
  | @plain s hopening =>
    -- The first tag of the whole is that of the second text, if it has any.
    have hcut := cutAtOpening_append_of_none hopening hapart
    cases h' with
    | plain hopening' =>
      rw [hopening'] at hcut
      have hfused := fused_plainItems s s' []
      rw [List.append_nil, List.append_nil] at hfused
      exact ⟨_, .plain hcut, hfused⟩
    | tag hopening' hclosing hitem hrest =>
      rw [hopening'] at hcut
      exact ⟨_, .tag hcut hclosing hitem hrest, fused_plainItems s _ _⟩
  | @tag s before inside content rest kind item items hopening hclosing hitem _ ih =>
    have hsplit : s = before ++ Token.opening kind ++ content ++ Token.closing kind ++ rest := by
      have hinside := Token.append_of_cutAtOpening hopening
      cases kind <;> rw [hinside, Text.append_of_cutAt hclosing] <;> simp [Token.closing]
    -- The first tag stays as it is, and the induction joins what is behind it.
    obtain ⟨whole, hwhole, hfused⟩ := ih (Apart.of_suffix (hsplit ▸ hapart))
    have hsays := Says.tag (cutAtOpening_append_of_some hopening)
      (cutAtClosing_append_of_some hclosing) hitem hwhole
    have hprepend := hfused.prepend (plainItems before ++ [item])
    rw [List.append_assoc, List.append_assoc] at hprepend
    exact ⟨_, hsays, hprepend⟩

/-! ### Trees side by side -/

/-- Moves through items lead through every place between them. -/
theorem Moves.split {o o' : Outline} {items items' : List Item} (h : Moves o (items ++ items') o') :
    ∃ middle, Moves o items middle ∧ Moves middle items' o' := by
  induction items generalizing o with
  | nil => exact ⟨o, .nil, h⟩
  | cons item rest ih =>
    cases h with
    | cons hmove hmore =>
      obtain ⟨middle, hfirst, hlast⟩ := ih hmore
      exact ⟨middle, .cons hmove hfirst, hlast⟩

/-- A derivation guides moves behind all nodes that have been made at the outermost level. -/
theorem Derives.moves {items : List Item} {nodes before : List Node}
    (h : Derives .sequence maxNesting items nodes) :
    Moves ⟨[], before⟩ items ⟨[], nodes.reverse ++ before⟩ :=
  h.guided [] before (Nat.le_of_eq (Nat.zero_add _))

/-- Items side by side make up the nodes of both parts. -/
theorem Derives.fused {items items' whole : List Item} {nodes nodes' : List Node}
    (h : Derives .sequence maxNesting items nodes)
    (h' : Derives .sequence maxNesting items' nodes')
    (hfused : Fused Item.text items items' whole) :
    ∃ root, Derives .sequence maxNesting whole root ∧ Fused Node.text nodes nodes' root := by
  have hmoves : Moves ⟨[], []⟩ items ⟨[], nodes.reverse ++ []⟩ := h.moves
  rw [List.append_nil] at hmoves
  cases hfused with
  | beside =>
    refine ⟨nodes ++ nodes', ?_, .beside nodes nodes'⟩
    apply Moves.derives
    rw [List.reverse_append]
    exact hmoves.append h'.moves
  | across front back s t =>
    -- The first part ends with the move that adds its last text.
    obtain ⟨⟨frames, made⟩, hfront, hlast⟩ := hmoves.split
    have hmove : Move ⟨frames, made⟩ (.text s) ⟨[], nodes.reverse⟩ := by
      cases hlast with
      | cons hmove hnil =>
        cases hnil
        exact hmove
    obtain ⟨rfl, hnodes⟩ := Outline.mk.inj ((move_iff_of_node? rfl).1 hmove)
    obtain rfl : nodes = made.reverse ++ [.text s] := by
      rw [← List.reverse_cons, ← hnodes, List.reverse_reverse]
    -- The second part starts with a text, which is taken along with the last one.
    cases h' with
    | @text _ _ _ behind hback =>
      refine ⟨made.reverse ++ .text (s ++ t) :: behind, ?_, .across made.reverse behind s t⟩
      have hjoined : Moves ⟨[], made⟩ (.text (s ++ t) :: back)
          ⟨[], behind.reverse ++ .text (s ++ t) :: made⟩ := .cons (.add rfl) hback.moves
      apply Moves.derives
      simpa using hfront.append hjoined

/-! ### Documents side by side -/

/-- A text is read if the grammar derives a tree from what it says. -/
theorem Says.read {text : String} {items : List Item} {root : List Node}
    (hsaid : Says text.toList items) (hderives : Derives .sequence maxNesting items root) :
    ∃ document, (Document.read .default text).result = .ok document ∧ document.root = root := by
  obtain ⟨tokens, hscan, hitems⟩ := hsaid.scanFrom 0 .start
  unfold Document.read
  rw [Token.scan_eq, hscan]
  exact (Document.ofTokens_ok_iff_derives hitems).2 hderives

/-- Two texts that are read, and form no mark where they meet, are read as one, whose tree is both
    trees side by side. -/
theorem Document.read_append {text text' : String} {document document' : Document}
    (h : (Document.read .default text).result = .ok document)
    (h' : (Document.read .default text').result = .ok document')
    (hapart : Apart text.toList text'.toList) :
    ∃ whole, (Document.read .default (text ++ text')).result = .ok whole ∧
      Fused Node.text document.root document'.root whole.root := by
  obtain ⟨-, tokens, items, hscan, hitems, hderives⟩ := Document.derives_of_read h
  obtain ⟨-, tokens', items', hscan', hitems', hderives'⟩ := Document.derives_of_read h'
  obtain ⟨all, hsays, hfused⟩ :=
    (says_of_scan hscan hitems).append (says_of_scan hscan' hitems') hapart
  obtain ⟨root, hroot, hnodes⟩ := hderives.fused hderives' hfused
  rw [← String.toList_append] at hsays
  obtain ⟨whole, hread, rfl⟩ := hsays.read hroot
  exact ⟨whole, hread, hnodes⟩

end TextTemplate.Markup
