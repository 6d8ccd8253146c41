import TextTemplate.Proofs.Markup.Completing

/-! # What a text is blamed for

  A text whose tags have their form is rejected for one of two reasons.  At its
  end a directive is still open: then the text can still be completed, and the
  fault stands at the tag that opened the innermost one.  Or a directive is not
  taken: then the text before it can be completed, but nothing that starts with
  the text up to the end of the directive is read, and the fault stands at it.

  The invariant of a run is that every open frame has its tag (`Founded`): what
  was taken behind the tag has opened the frames inside and nothing else.
-/

namespace TextTemplate.Markup

/-! ### The tags of open frames -/

/-- The outline of some frames and the nodes of the innermost sequence. -/
def Outline.of (frames : List Frame) (nodes : List Node) : Outline :=
  ⟨frames.map fun f => (f.header, f.before), nodes⟩

/-- The token has opened the frame.  What was taken behind it has opened the frames inside and has
    made the nodes of the innermost sequence. -/
def OpenedAt (f : Frame) (inner : List Frame) (nodes : List Node) (t : Token) (back : List Token) :
    Prop :=
  ∃ item items, t.item = .ok item ∧ (item.opens? = some f.header ∨ item.goesOn? = some f.header) ∧
    f.location = t.location ∧ back.mapM Token.item = .ok items ∧
    Moves ⟨[], []⟩ items (.of inner nodes)

/-- The token that has just opened a frame. -/
theorem openedAt_now {f : Frame} {t : Token} {item : Item} (hitem : t.item = .ok item)
    (hopens : item.opens? = some f.header ∨ item.goesOn? = some f.header)
    (hlocation : f.location = t.location) : OpenedAt f [] [] t [] :=
  ⟨item, [], hitem, hopens, hlocation, rfl, .nil⟩

theorem OpenedAt.step {f : Frame} {inner inner' : List Frame} {nodes nodes' : List Node}
    {t t' : Token} {back : List Token} {item : Item} (h : OpenedAt f inner nodes t back)
    (hitem : t'.item = .ok item) (hmove : Move (.of inner nodes) item (.of inner' nodes')) :
    OpenedAt f inner' nodes' t (back ++ [t']) := by
  obtain ⟨first, items, hfirst, hopens, hlocation, hitems, hmoves⟩ := h
  have hboth : (back ++ [t']).mapM Token.item = .ok (items ++ [item]) := by
    rw [List.mapM_append, hitems, List.mapM_cons, hitem]
    rfl
  exact ⟨first, items ++ [item], hfirst, hopens, hlocation, hboth, hmoves.append (.single hmove)⟩

/-- Every open frame has its tag among the tokens. -/
def Founded (ts : List Token) (b : Builder) : Prop :=
  ∀ inner f outer, b.frames = inner ++ f :: outer →
    ∃ front t back, ts = front ++ t :: back ∧ OpenedAt f inner b.nodes t back

variable {rules : Rules}

theorem founded_empty : Founded [] .empty := by
  intro inner f outer h
  cases inner <;> cases h

/-- A token that is taken keeps what is known about the frames that it leaves open. -/
theorem Founded.step {ts : List Token} {b b' : Builder} {t : Token} (h : Founded ts b)
    (htoken : (b.token rules t).2 = .ok b') : Founded (ts ++ [t]) b' := by
  intro inner f outer hframes
  obtain ⟨item, hitem, htakes⟩ := Builder.takes_of_token htoken
  -- A frame that was open before keeps its tag, if the token moves on inside.
  have hkept : ∀ before, b.frames = before ++ f :: outer →
      Move (.of before b.nodes) item (.of inner b'.nodes) →
      ∃ front t' back, ts ++ [t] = front ++ t' :: back ∧ OpenedAt f inner b'.nodes t' back := by
    intro before hbefore hmove
    obtain ⟨front, t', back, rfl, hopened⟩ := h before f outer hbefore
    exact ⟨front, t', back ++ [t], by simp, hopened.step hitem hmove⟩
  have hroom : ∀ before rest, before ++ f :: outer = rest → rest.length ≤ maxNesting →
      before.length < maxNesting := by
    intro before rest heq hle
    rw [← heq, List.length_append, List.length_cons] at hle
    omega
  -- A frame that the token has opened has it for its tag.
  have hnew : ∀ {header before number rest},
      (item.opens? = some header ∨ item.goesOn? = some header) →
      b'.frames = ⟨header, t.location, before, number⟩ :: rest → b'.nodes = [] → inner = [] →
      ∃ front t' back, ts ++ [t] = front ++ t' :: back ∧ OpenedAt f inner b'.nodes t' back := by
    intro header before number rest hopens hopened hnodes hinner
    subst hinner
    obtain ⟨rfl, -⟩ := List.cons.inj (hopened.symm.trans hframes)
    rw [hnodes]
    exact ⟨ts, t, [], rfl, openedAt_now hitem hopens rfl⟩
  cases htakes with
  | add hnode => exact hkept inner hframes (.add hnode)
  | skip hsilent => exact hkept inner hframes (.skip hsilent)
  | @open_ header hopens hlength =>
    have hopened := b.enter_frames header t.location
    have hnodes := b.enter_nodes header t.location
    cases inner with
    | nil => exact hnew (.inl hopens) hopened hnodes rfl
    | cons g inner =>
      obtain ⟨rfl, hrest⟩ := List.cons.inj (hopened.symm.trans hframes)
      apply hkept inner hrest
      rw [hnodes]
      exact .open_ hopens (by simpa using hroom inner _ hrest.symm (Nat.le_of_lt hlength))
  | @close g rest hbefore hcloses =>
    have hall : b.frames = (g :: inner) ++ f :: outer := by
      rw [hbefore, ← b.leave_frames g rest, hframes]
      rfl
    exact hkept (g :: inner) hall (.close hcloses)
  | @goOn g rest next hbefore hnext hkind hlength =>
    have hopened := (b.leave g rest).enter_frames next t.location
    have hnodes := (b.leave g rest).enter_nodes next t.location
    cases inner with
    | nil => exact hnew (.inr hnext) hopened hnodes rfl
    | cons g' inner =>
      obtain ⟨rfl, hrest⟩ := List.cons.inj (hopened.symm.trans hframes)
      have hall : b.frames = (g :: inner) ++ f :: outer := by
        rw [hbefore, ← b.leave_frames g rest, hrest]
        rfl
      apply hkept (g :: inner) hall
      rw [hnodes]
      exact .goOn hnext hkind (by simpa using hroom inner _ hrest.symm (Nat.le_of_lt hlength))

theorem Founded.run {ts ts' : List Token} {b b' : Builder} (h : Founded ts b)
    (htokens : (b.tokens rules ts').2 = .ok b') : Founded (ts ++ ts') b' := by
  induction ts' generalizing ts b with
  | nil =>
    obtain rfl := Except.ok.inj htokens
    rwa [List.append_nil]
  | cons t rest ih =>
    cases htoken : (b.token rules t).2 with
    | error fault =>
      rw [Builder.tokens_cons_error htoken] at htokens
      cases htokens
    | ok b₁ =>
      rw [Builder.tokens_cons_ok htoken] at htokens
      have hrest := ih (h.step htoken) htokens
      rwa [List.append_assoc] at hrest

/-! ### Faults -/

/-- Some text that starts with this one is read. -/
def Completable (rules : Rules) (text : String) : Prop :=
  ∃ more document, (Document.read rules (text ++ more)).result = .ok document

/-- The token opens a frame of the kind or goes on with one, and what stands behind it is complete:
    it leaves nothing else open. -/
def StaysOpen (t : Token) (back : List Token) (kind : FrameKind) : Prop :=
  ∃ item header items nodes, t.item = .ok item ∧
    (item.opens? = some header ∨ item.goesOn? = some header) ∧ header.kind = kind ∧
    back.mapM Token.item = .ok items ∧ Derives .sequence maxNesting items nodes

/-- Every text that starts with this one and is cut into tokens is rejected with the fault. -/
def Rejects (rules : Rules) (text : String) (fault : Fault) : Prop :=
  ∀ more tokens, Token.scan (text ++ more) = .ok tokens →
    (Document.read rules (text ++ more)).result = .error fault

/-- The innermost open frame stands at the tag that opened it. -/
theorem Founded.staysOpen {ts : List Token} {b : Builder} {f : Frame} {outer : List Frame}
    (h : Founded ts b) (hframes : b.frames = f :: outer) : ∃ front t back,
      ts = front ++ t :: back ∧ f.location = t.location ∧ StaysOpen t back f.header.kind := by
  obtain ⟨front, t, back, hsplit, item, items, hitem, hopens, hlocation, hitems, hmoves⟩ :=
    h [] f outer hframes
  refine ⟨front, t, back, hsplit, hlocation, item, f.header, items, b.nodes.reverse, hitem, hopens,
    rfl, hitems, ?_⟩
  apply Moves.derives
  rw [List.reverse_reverse]
  exact hmoves

/-- Only a directive opens a frame or goes on with one. -/
theorem StaysOpen.kind_eq {t : Token} {back : List Token} {kind : FrameKind}
    (h : StaysOpen t back kind) : t.kind = .tag .directive := by
  obtain ⟨item, header, -, -, hitem, hopens, -⟩ := h
  unfold Token.item at hitem
  cases hkind : t.kind with
  | text =>
    rw [hkind] at hitem
    obtain rfl := Except.ok.inj hitem
    rcases hopens with hopens | hopens <;> cases hopens
  | tag tagKind =>
    cases tagKind with
    | directive => rfl
    | output =>
      rw [hkind] at hitem
      obtain rfl := Except.ok.inj hitem
      rcases hopens with hopens | hopens <;> cases hopens

/-- A tag among the tokens of a text has its characters in the text.  The scan of every text that
    starts with these goes through it, and the text before it can be completed if the tokens before
    it are taken. -/
theorem tag_in_text {text : String} {tokens front back : List Token} {t : Token} {kind : TagKind}
    (hscan : Token.scan text = .ok tokens) (hsplit : tokens = front ++ t :: back)
    (hkind : t.kind = .tag kind) : ∃ before content after,
      text.toList = before ++ Token.tagChars kind content ++ after ∧
      t = ⟨.tag kind, String.ofList (Text.trimChars content), before.length,
        Location.start.after before⟩ ∧
      Token.GoesThrough 0 .start (before ++ Token.tagChars kind content) (front ++ [t]) ∧
      ∀ rules b, (Builder.empty.tokens rules front).2 = .ok b →
        Completable rules (String.ofList before) := by
  obtain ⟨head, plain, content, after, passed, htext, htag⟩ :=
    (Token.scans_of_scan hscan).at_tag hsplit hkind
  refine ⟨head ++ plain, content, after, ?_, ?_, ?_, ?_⟩
  · rw [htext]
    simp only [List.append_assoc]
  · rw [htag.tag_eq]
    simp [Token.behind, Location.after_append]
  · rw [List.append_assoc]
    exact htag.through_tag
  · intro rules b hfront
    rw [htag.front_eq] at hfront
    obtain ⟨b', hpassed⟩ := Builder.tokens_front hfront
    exact Document.completable htag.through_head htag.unopened hpassed

/-- A text can be completed if its tokens are taken. -/
theorem completable_of_tokens {rules : Rules} {text : String} {tokens : List Token} {b : Builder}
    (hscan : Token.scan text = .ok tokens)
    (htokens : (Builder.empty.tokens rules tokens).2 = .ok b) : Completable rules text := by
  obtain ⟨head, plain, front, htext, hplain, hthrough, rfl⟩ :=
    (Token.scans_of_scan hscan).at_end
  obtain ⟨b', hfront⟩ := Builder.tokens_front htokens
  have hcompletable := Document.completable hthrough hplain hfront
  rwa [← htext, String.ofList_toList] at hcompletable

/-- What starts with tokens of which the last one is not taken is rejected. -/
theorem rejects_of_token {rules : Rules} {head : List Char} {front : List Token} {t : Token}
    {b : Builder} {fault : Fault} (hthrough : Token.GoesThrough 0 .start head (front ++ [t]))
    (hfront : (Builder.empty.tokens rules front).2 = .ok b)
    (htoken : (b.token rules t).2 = .error fault) : Rejects rules (String.ofList head) fault := by
  intro more tokens hscan
  have htext : (String.ofList head ++ more).toList = head ++ more.toList := by simp
  have hscanned : Token.scanFrom 0 .start (head ++ more.toList) = .ok tokens := by
    rw [← htext, ← Token.scan_eq]
    exact hscan
  rw [hthrough] at hscanned
  cases hmore : Token.scanFrom (0 + head.length) (Location.start.after head) more.toList with
  | error fault' =>
    rw [hmore] at hscanned
    cases hscanned
  | ok rest =>
    rw [hmore] at hscanned
    obtain rfl : front ++ [t] ++ rest = tokens := Except.ok.inj hscanned
    unfold Document.read Document.ofTokens
    rw [hscan, List.append_assoc, List.singleton_append]
    dsimp only
    rw [Builder.tokens_error hfront htoken]
    rfl

/-- A text that is rejected although it is cut into tokens is blamed for a directive.  Either that
    is still open at the end, the innermost one that is, and the text can be completed.  Or the text
    before the directive can be completed, but with the directive it cannot: what starts so is
    rejected for the same reason at the same place. -/
theorem blamed_directive {rules : Rules} {text : String} {tokens : List Token} {fault : Fault}
    (hscan : Token.scan text = .ok tokens)
    (hfault : (Document.read rules text).result = .error fault) :
    ∃ front t back before content after, tokens = front ++ t :: back ∧
      text.toList = before ++ Token.tagChars .directive content ++ after ∧
      t = ⟨.tag .directive, String.ofList (Text.trimChars content), before.length,
        Location.start.after before⟩ ∧
      fault.location = t.location ∧
      ((∃ kind, fault.cause = .unclosed kind ∧ StaysOpen t back kind ∧ Completable rules text) ∨
        ((∀ kind, fault.cause ≠ .unclosed kind) ∧ Completable rules (String.ofList before) ∧
          Rejects rules (String.ofList (before ++ Token.tagChars .directive content)) fault)) := by
  -- The fault is that of the tokens, or that of the end of the text.
  unfold Document.read Document.ofTokens at hfault
  rw [hscan] at hfault
  dsimp only at hfault
  cases hbuilt : (Builder.empty.tokens rules tokens).2 with
  | ok b =>
    -- All tokens are taken, so a directive is open at the end.
    rw [hbuilt] at hfault
    have hfinish : b.finish = .error fault := hfault
    unfold Builder.finish at hfinish
    cases hframes : b.frames with
    | nil =>
      rw [hframes] at hfinish
      cases hfinish
    | cons f outer =>
      rw [hframes] at hfinish
      obtain rfl := Except.error.inj hfinish
      have hfounded : Founded tokens b := founded_empty.run hbuilt
      obtain ⟨front, t, back, hsplit, hlocation, hopen⟩ := hfounded.staysOpen hframes
      obtain ⟨before, content, after, htext, ht, -, -⟩ := tag_in_text hscan hsplit hopen.kind_eq
      exact ⟨front, t, back, before, content, after, hsplit, htext, ht, hlocation,
        .inl ⟨_, rfl, hopen, completable_of_tokens hscan hbuilt⟩⟩
  | error fault' =>
    rw [hbuilt] at hfault
    obtain rfl := Except.error.inj hfault
    obtain ⟨front, t, back, b, hsplit, hfront, htoken⟩ := Builder.error_of_tokens hbuilt
    obtain ⟨hkind, hlocation, hcause⟩ := Builder.error_of_token htoken
    obtain ⟨before, content, after, htext, ht, hthrough, hcompletable⟩ :=
      tag_in_text hscan hsplit hkind
    exact ⟨front, t, back, before, content, after, hsplit, htext, ht, hlocation,
      .inr ⟨hcause, hcompletable rules b hfront, rejects_of_token hthrough hfront htoken⟩⟩

/-- A text that closes a loop before the branch in it. -/
def misclosedText : String := "{% for x in xs %}\n{{ x }}{% if x %}y{% endfor %}z"

/-- `misclosedText` is blamed for what closes the loop, whatever follows. -/
theorem misclosedText_blamed : ∃ before content after,
    misclosedText.toList = before ++ Token.tagChars .directive content ++ after ∧
      Location.start.after before = ⟨2, 19⟩ ∧ Completable .default (String.ofList before) ∧
      Rejects .default (String.ofList (before ++ Token.tagChars .directive content))
        ⟨.cannotClose .endFor .branch, ⟨2, 19⟩⟩ := by
  have hscan : (Token.scan misclosedText).isOk = true := by decide +kernel
  have hread : Except.rec (motive := fun _ => Option Fault) some (fun _ => none)
      (Document.read .default misclosedText).result
        = some ⟨.cannotClose .endFor .branch, ⟨2, 19⟩⟩ := by
    decide +kernel
  cases htokens : Token.scan misclosedText with
  | error fault =>
    rw [htokens] at hscan
    cases hscan
  | ok tokens =>
    cases hfault : (Document.read .default misclosedText).result with
    | ok document =>
      rw [hfault] at hread
      cases hread
    | error fault =>
      rw [hfault] at hread
      obtain rfl := Option.some.inj hread
      obtain ⟨front, t, back, before, content, after, -, htext, rfl, hlocation, hcases⟩ :=
        blamed_directive htokens hfault
      rcases hcases with ⟨kind, hcause, -⟩ | ⟨-, hcompletable, hrejects⟩
      · cases hcause
      · exact ⟨before, content, after, htext, hlocation.symm, hcompletable, hrejects⟩

end TextTemplate.Markup
