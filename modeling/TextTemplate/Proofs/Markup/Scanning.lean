import TextTemplate.Proofs.Markup.Joining

/-! # Scanning a text that goes on differently

  A tag ends with its own closing mark, so what stands behind a tag has no part in
  it, nor in any token before it.  A text that is cut into tokens may therefore be
  cut off behind any of its tags and go on with something else: the tokens so far
  stay, with their places, and the scan goes on from the place where it was
  (`Token.scanFrom_at_tag`, `Token.scanFrom_at_end`).

  The induction is on the scan, which goes through the text tag by tag.
-/

namespace TextTemplate.Markup

/-! ### Marks -/

namespace Token

/-- The first opening mark is found whatever follows it, and there is none before it. -/
theorem cutAtOpening_front {before inside : List Char} {kind : TagKind}
    (h : cutAtOpening (before ++ (opening kind ++ inside)) = some (before, kind, inside)) :
    cutAtOpening before = none ∧
      ∀ x, cutAtOpening (before ++ (opening kind ++ x)) = some (before, kind, x) := by
  obtain ⟨-, hfirst⟩ := cutAtOpening_eq_some_iff.1 h
  constructor
  · rw [cutAtOpening_eq_none_iff]
    intro kind' hmark
    obtain ⟨i, hends, hstart⟩ := Text.startsAt_of_isInfix hmark
    rw [length_opening] at hends
    exact hfirst kind' i (by omega) (hstart.append _)
  · intro x
    rw [cutAtOpening_eq_some_iff]
    refine ⟨rfl, fun kind' i hi hstart => hfirst kind' i hi ?_⟩
    -- A mark that starts before the first one ends with it at the latest.
    rw [← List.append_assoc] at hstart ⊢
    refine hstart.swap ?_ inside
    rw [List.length_append, length_opening, length_opening]
    omega

end Token

/-- The first mark is found whatever follows it. -/
theorem cutAt_front {a b : Char} {content rest : List Char}
    (h : Text.cutAt a b (content ++ a :: b :: rest) = some (content, rest)) (x : List Char) :
    Text.cutAt a b (content ++ a :: b :: x) = some (content, x) := by
  obtain ⟨-, hfirst⟩ := Text.cutAt_eq_some_iff.1 h
  rw [Text.cutAt_eq_some_iff]
  refine ⟨rfl, fun i hi hstart => hfirst i hi ?_⟩
  have hwhole : ∀ y, content ++ a :: b :: y = content ++ [a, b] ++ y := by simp
  rw [hwhole] at hstart ⊢
  refine hstart.swap ?_ rest
  rw [List.length_append]
  omega

namespace Token

/-- The first closing mark is found whatever follows it. -/
theorem cutAtClosing_front {kind : TagKind} {content rest : List Char}
    (h : cutAtClosing kind (content ++ closing kind ++ rest) = some (content, rest))
    (x : List Char) : cutAtClosing kind (content ++ closing kind ++ x) = some (content, x) := by
  rw [List.append_assoc] at h ⊢
  cases kind <;> exact cutAt_front h x

/-- A text with a tag in it, and what follows the tag. -/
theorem eq_of_cuts {s before inside content rest : List Char} {kind : TagKind}
    (hopening : cutAtOpening s = some (before, kind, inside))
    (hclosing : cutAtClosing kind inside = some (content, rest)) :
    s = before ++ tagChars kind content ++ rest ∧ inside = content ++ closing kind ++ rest := by
  have hinside := append_of_cutAtClosing hclosing
  refine ⟨?_, hinside⟩
  rw [append_of_cutAtOpening hopening, hinside]
  simp [tagChars]

/-- A text with a tag in it is cut in the same way up to the end of the tag, whatever follows. -/
theorem cuts_front {s before inside content rest : List Char} {kind : TagKind}
    (hopening : cutAtOpening s = some (before, kind, inside))
    (hclosing : cutAtClosing kind inside = some (content, rest)) (x : List Char) :
    cutAtOpening (before ++ tagChars kind content ++ x)
        = some (before, kind, content ++ closing kind ++ x) ∧
      cutAtClosing kind (content ++ closing kind ++ x) = some (content, x) := by
  obtain ⟨hs, hinside⟩ := eq_of_cuts hopening hclosing
  have hwhole : s = before ++ (opening kind ++ inside) := by
    rw [append_of_cutAtOpening hopening, List.append_assoc]
  rw [hwhole] at hopening
  obtain ⟨-, hfront⟩ := cutAtOpening_front hopening
  rw [hinside] at hclosing
  refine ⟨?_, cutAtClosing_front hclosing x⟩
  have hx := hfront (content ++ closing kind ++ x)
  simpa [tagChars] using hx

/-! ### Tags among the tokens -/

/-- The tag with the content, behind a plain text. -/
def behind (before : List Char) (kind : TagKind) (content : List Char) (position : Nat)
    (location : Location) : Token :=
  ⟨.tag kind, String.ofList (Text.trimChars content), position + before.length,
    location.after before⟩

/-- The text is cut into the tokens, tag by tag. -/
inductive Scans : Nat → Location → List Char → List Token → Prop where
  | plain {position : Nat} {location : Location} {s : List Char} : cutAtOpening s = none →
      Scans position location s (plain s position location)
  | tag {position : Nat} {location : Location} {s before inside content rest : List Char}
      {kind : TagKind} {tokens : List Token} :
      cutAtOpening s = some (before, kind, inside) →
      cutAtClosing kind inside = some (content, rest) →
      Scans (position + (before ++ tagChars kind content).length)
        (location.after (before ++ tagChars kind content)) rest tokens →
      Scans position location s
        (Token.plain before position location ++ behind before kind content position location ::
          tokens)

theorem scans_of_scanFrom {position : Nat} {location : Location} {s : List Char}
    {tokens : List Token} (h : scanFrom position location s = .ok tokens) :
    Scans position location s tokens := by
  fun_induction scanFrom position location s generalizing tokens with
  | case1 position location s hopening =>
    obtain rfl := Except.ok.inj h
    exact .plain hopening
  | case2 => cases h
  | case3 position location s before kind inside hopening tagAt content rest hclosing =>
    rename_i tagPosition tag ih
    have hposition : tagPosition + content.length + 4
        = position + (before ++ tagChars kind content).length :=
      position_behind position before content kind
    have hlocation : tagAt.after (opening kind ++ content ++ closing kind)
        = location.after (before ++ tagChars kind content) := (Location.after_append ..).symm
    rw [hposition, hlocation] at h ih
    cases hrest : scanFrom (position + (before ++ tagChars kind content).length)
        (location.after (before ++ tagChars kind content)) rest with
    | error fault =>
      rw [hrest] at h
      cases h
    | ok more =>
      rw [hrest] at h
      obtain rfl := Except.ok.inj h
      exact .tag hopening hclosing (ih hrest)

theorem scans_of_scan {text : String} {tokens : List Token} (h : scan text = .ok tokens) :
    Scans 0 .start text.toList tokens := by
  rw [scan_eq] at h
  exact scans_of_scanFrom h

/-- The scan of a text goes through its front part, tag by tag, and goes on behind it. -/
def GoesThrough (position : Nat) (location : Location) (head : List Char) (front : List Token) :
    Prop :=
  ∀ x, scanFrom position location (head ++ x)
    = (scanFrom (position + head.length) (location.after head) x).map (front ++ ·)

namespace GoesThrough

variable {position : Nat} {location : Location} {head head' : List Char} {front front' : List Token}

theorem nil : GoesThrough position location [] [] := by
  intro x
  show scanFrom position location x = (scanFrom position location x).map ([] ++ ·)
  cases scanFrom position location x <;> rfl

theorem append (h : GoesThrough position location head front)
    (h' : GoesThrough (position + head.length) (location.after head) head' front') :
    GoesThrough position location (head ++ head') (front ++ front') := by
  intro x
  rw [List.append_assoc, h, h', List.length_append, ← Nat.add_assoc, Location.after_append]
  cases scanFrom (position + head.length + head'.length) ((location.after head).after head') x with
  | error fault => rfl
  | ok tokens =>
    show Except.ok (front ++ (front' ++ tokens)) = Except.ok (front ++ front' ++ tokens)
    rw [List.append_assoc]

/-- The scan goes through a tag with the plain text before it. -/
theorem tag {s before inside content rest : List Char} {kind : TagKind}
    (hopening : cutAtOpening s = some (before, kind, inside))
    (hclosing : cutAtClosing kind inside = some (content, rest)) :
    GoesThrough position location (before ++ tagChars kind content)
      (plain before position location ++ [behind before kind content position location]) := by
  intro x
  obtain ⟨hopening', hclosing'⟩ := cuts_front hopening hclosing x
  rw [scanFrom_tag hopening' hclosing']
  simp [behind]

/-- Behind the front part, a text is scanned as it would be on its own. -/
theorem ok (h : GoesThrough position location head front) {x : List Char} {tokens : List Token}
    (hx : scanFrom (position + head.length) (location.after head) x = .ok tokens) :
    scanFrom position location (head ++ x) = .ok (front ++ tokens) := by
  rw [h, hx]
  rfl

end GoesThrough

/-- A text that is cut into tokens ends with a plain text, perhaps an empty one, which stands behind
    its last tag. -/
theorem Scans.at_end {position : Nat} {location : Location} {s : List Char} {tokens : List Token}
    (h : Scans position location s tokens) : ∃ head last front, s = head ++ last ∧
      cutAtOpening last = none ∧ GoesThrough position location head front ∧
      tokens = front ++ Token.plain last (position + head.length) (location.after head) := by
  induction h with
  | @plain position location s hopening => exact ⟨[], s, [], rfl, hopening, .nil, rfl⟩
  | @tag position location s before inside content rest kind tokens hopening hclosing _ ih =>
    obtain ⟨hs, -⟩ := eq_of_cuts hopening hclosing
    obtain ⟨head, last, front, rfl, hlast, hthrough, rfl⟩ := ih
    refine ⟨before ++ tagChars kind content ++ head, last, _, ?_, hlast,
      (GoesThrough.tag hopening hclosing).append hthrough, ?_⟩
    · rw [hs, ← List.append_assoc]
    · simp only [List.length_append, ← Nat.add_assoc, Location.after_append, List.append_assoc,
        List.cons_append, List.nil_append]

theorem kind_of_mem_plain {s : List Char} {position : Nat} {location : Location} {t : Token}
    (h : t ∈ plain s position location) : t.kind = .text := by
  unfold plain at h
  split at h
  · cases h
  · rw [List.mem_singleton.1 h]

/-- What stands behind some elements of a list is the next one or stands behind that one. -/
theorem append_cons_eq_append_cons {α : Type} {s rest front back : List α} {a t : α}
    (hnot : t ∉ s) (h : s ++ a :: rest = front ++ t :: back) :
    (front = s ∧ t = a) ∨ ∃ inner, front = s ++ a :: inner ∧ rest = inner ++ t :: back := by
  rcases List.append_eq_append_iff.1 h with ⟨inner, rfl, hback⟩ | ⟨inner, rfl, hback⟩
  · cases inner with
    | nil =>
      obtain ⟨rfl, -⟩ := List.cons.inj hback
      exact .inl ⟨List.append_nil s, rfl⟩
    | cons first inner =>
      obtain ⟨rfl, rfl⟩ := List.cons.inj hback
      exact .inr ⟨inner, rfl, rfl⟩
  · cases inner with
    | nil =>
      obtain ⟨rfl, -⟩ := List.cons.inj hback
      exact .inl ⟨(List.append_nil front).symm, rfl⟩
    | cons first inner =>
      obtain ⟨rfl, -⟩ := List.cons.inj hback
      exact (hnot (List.mem_append_right _ List.mem_cons_self)).elim

/-- The tag with the content stands in the text behind the head, which ends with a tag, and a plain
    text.  It is what it is whatever follows it. -/
structure TagIn (position : Nat) (location : Location) (front : List Token) (t : Token)
    (head last : List Char) (kind : TagKind) (content : List Char) (passed : List Token) :
    Prop where
  unopened : cutAtOpening last = none
  through_head : GoesThrough position location head passed
  front_eq : front = passed ++ Token.plain last (position + head.length) (location.after head)
  tag_eq : t = behind last kind content (position + head.length) (location.after head)
  through_tag : GoesThrough position location (head ++ (last ++ tagChars kind content))
    (front ++ [t])

/-- The first tag of a text stands behind its start. -/
theorem TagIn.first {position : Nat} {location : Location}
    {s before inside content rest : List Char} {kind : TagKind}
    (hopening : cutAtOpening s = some (before, kind, inside))
    (hclosing : cutAtClosing kind inside = some (content, rest)) :
    TagIn position location (Token.plain before position location)
      (behind before kind content position location) [] before kind content [] where
  unopened := by
    have hwhole : s = before ++ (opening kind ++ inside) := by
      rw [append_of_cutAtOpening hopening, List.append_assoc]
    rw [hwhole] at hopening
    exact (cutAtOpening_front hopening).1
  through_head := .nil
  front_eq := rfl
  tag_eq := rfl
  through_tag := .tag hopening hclosing

/-- A tag in a text stands in every text that has it behind a front part. -/
theorem TagIn.prepend {position : Nat} {location : Location} {before : List Char}
    {more front passed : List Token} {t : Token} {head last content : List Char} {kind : TagKind}
    (hbefore : GoesThrough position location before more)
    (h : TagIn (position + before.length) (location.after before) front t head last kind content
      passed) :
    TagIn position location (more ++ front) t (before ++ head) last kind content
      (more ++ passed) where
  unopened := h.unopened
  through_head := hbefore.append h.through_head
  front_eq := by
    rw [h.front_eq, List.length_append, ← Nat.add_assoc, Location.after_append, List.append_assoc]
  tag_eq := by rw [h.tag_eq, List.length_append, ← Nat.add_assoc, Location.after_append]
  through_tag := by
    rw [List.append_assoc, List.append_assoc]
    exact hbefore.append h.through_tag

/-- Every tag among the tokens of a text stands in it. -/
theorem Scans.at_tag {position : Nat} {location : Location} {s : List Char} {tokens : List Token}
    (h : Scans position location s tokens) {front back : List Token} {t : Token} {kind : TagKind}
    (hsplit : tokens = front ++ t :: back) (hkind : t.kind = .tag kind) :
    ∃ head last content rest passed, s = head ++ (last ++ tagChars kind content) ++ rest ∧
      TagIn position location front t head last kind content passed := by
  -- A plain text is no tag.
  have hplain : ∀ {s position location}, t ∉ Token.plain s position location := by
    intro s position location hmem
    rw [kind_of_mem_plain hmem] at hkind
    cases hkind
  induction h generalizing front with
  | plain _ =>
    exfalso
    apply hplain
    rw [hsplit]
    exact List.mem_append_right _ List.mem_cons_self
  | @tag position location s before inside content rest kind' tokens hopening hclosing _ ih =>
    obtain ⟨hs, -⟩ := eq_of_cuts hopening hclosing
    rcases append_cons_eq_append_cons hplain hsplit with ⟨rfl, rfl⟩ | ⟨inner, rfl, hmore⟩
    · obtain rfl : kind' = kind := by simpa [behind] using hkind
      exact ⟨[], before, content, rest, [], hs, .first hopening hclosing⟩
    · obtain ⟨head, last, content', rest', passed, rfl, htag⟩ := ih hmore
      have hwhole := htag.prepend (.tag hopening hclosing)
      rw [List.append_assoc, List.singleton_append] at hwhole
      refine ⟨before ++ tagChars kind' content ++ head, last, content', rest', _, ?_, hwhole⟩
      rw [hs]
      simp only [List.append_assoc]

end Token

end TextTemplate.Markup
