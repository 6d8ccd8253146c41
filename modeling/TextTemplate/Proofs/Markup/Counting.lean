import Mathlib.Data.List.Induction
import TextTemplate.Markup.Token

/-! # Counting lines and columns

  A position in a text has a line and a column: the line feeds before it count the
  lines, and the characters behind the last of them count the columns
  (`Location.ofPosition`).  Going through the text character by character leads to
  the same place (`Location.start_after`), and so does a counter that has come to the
  position (`Counter.place_passed`).

  A counter never goes back, so what it says is right only as long as it is asked
  for positions in ascending order.  A scan asks so: from each piece of a text it
  goes on to the next one.  Hence the scan with a counter is the scan that hands on
  the place itself (`Token.tokenizeFrom_eq`, by induction on the scan).  What carries
  the induction is that the counter is known by the number of characters that it
  has passed, which is no more than the position.
-/

namespace TextTemplate

/-! ### The place of a position -/

namespace Location

/-- Where a text starts. -/
def start : Location := ⟨1, 1⟩

/-- The place after one more character. -/
def next (l : Location) (c : Char) : Location :=
  if c = '\n' then ⟨l.line + 1, 1⟩ else ⟨l.line, l.column + 1⟩

/-- The place after a stretch of text. -/
def after (l : Location) (s : List Char) : Location := s.foldl next l

/-- Behind two stretches of text the place is the one behind the second, from where the first one
    ends. -/
theorem after_append (l : Location) (a b : List Char) : l.after (a ++ b) = (l.after a).after b :=
  List.foldl_append

/-- The line and the column of a position: how many line feeds stand before it, and how many
    characters between the last of them, or the start of the text, and the position.  Both are
    counted from one. -/
def ofPosition (s : List Char) (position : Nat) : Location :=
  let before := s.take position
  ⟨1 + before.count '\n', 1 + (before.reverse.takeWhile (· != '\n')).length⟩

/-- Going through a text leads to the place of its last position. -/
theorem start_after (before : List Char) :
    Location.start.after before = .ofPosition before before.length := by
  unfold ofPosition
  rw [List.take_length]
  induction before using List.reverseRecOn with
  | nil => rfl
  | append_singleton before c ih =>
    rw [after_append, ih]
    show next _ c = _
    by_cases hc : c = '\n'
    · simp [next, hc, Nat.add_assoc]
    · simp [next, hc, Nat.add_assoc]

/-- Only what stands before a position counts for its place. -/
theorem ofPosition_append (before rest : List Char) :
    ofPosition (before ++ rest) before.length = Location.start.after before := by
  rw [start_after, ofPosition, ofPosition, List.take_left, List.take_length]

end Location

namespace Markup

/-! ### A counter that never goes back -/

namespace Counter

variable {s : List Char} {n position : Nat}

/-- The counter that has passed so many characters of a text. -/
def passed (s : List Char) (n : Nat) : Counter := (start s).advance n

theorem advance_advance (k : Counter) (m n : Nat) :
    (k.advance m).advance n = k.advance (m + n) := by
  induction m generalizing k with
  | zero => rw [Nat.zero_add, advance]
  | succ m ih => rw [Nat.succ_add, advance, advance, ih]

/-- One step of a counter goes past the next character. -/
theorem passed_succ (s : List Char) (n : Nat) : passed s (n + 1) = (passed s n).pass :=
  (advance_advance (start s) n 1).symm

/-- As long as there is text, a counter has come as far as it has passed characters. -/
theorem passed_at (h : n ≤ s.length) :
    (passed s n).countedTo = n ∧ (passed s n).ahead = s.drop n := by
  induction n with
  | zero => exact ⟨rfl, rfl⟩
  | succ n ih =>
    obtain ⟨hcounted, hahead⟩ := ih (Nat.le_of_succ_le h)
    rw [List.drop_eq_getElem_cons h] at hahead
    rw [passed_succ, pass, hahead, hcounted]
    dsimp only
    split <;> exact ⟨rfl, rfl⟩

/-- The line of a counter starts in what it has passed. -/
theorem lineStart_passed_le (h : n ≤ s.length) : (passed s n).lineStart ≤ n := by
  induction n with
  | zero => exact Nat.le_refl 0
  | succ n ih =>
    obtain ⟨hcounted, hahead⟩ := passed_at (Nat.le_of_succ_le h)
    rw [List.drop_eq_getElem_cons h] at hahead
    rw [passed_succ, pass, hahead, hcounted]
    dsimp only
    split
    · exact Nat.le_refl _
    · exact Nat.le_succ_of_le (ih (Nat.le_of_succ_le h))

/-- Where it has come to, a counter gives the place that the characters before it lead to. -/
theorem place_passed (h : n ≤ s.length) :
    (passed s n).place n = Location.start.after (s.take n) := by
  induction n with
  | zero => rfl
  | succ n ih =>
    obtain ⟨hcounted, hahead⟩ := passed_at (Nat.le_of_succ_le h)
    have hstart := lineStart_passed_le (Nat.le_of_succ_le h)
    rw [List.drop_eq_getElem_cons h] at hahead
    rw [List.take_succ_eq_append_getElem h, Location.after_append, ← ih (Nat.le_of_succ_le h),
      passed_succ, pass, hahead, hcounted]
    show _ = Location.next _ s[n]
    dsimp only
    by_cases hc : s[n] = '\n'
    · simp [place, Location.next, hc]
    · simp [place, Location.next, hc, Nat.sub_add_comm hstart]

/-- A counter goes on to a position that is not behind it. -/
theorem goOn_passed (h : n ≤ position) (hend : n ≤ s.length) :
    (passed s n).goOn position = passed s position := by
  have hsum : n + (position - n) = position := Nat.add_sub_cancel' h
  rw [goOn, (passed_at hend).1, passed, advance_advance, hsum]
  rfl

end Counter

/-! ### Scanning with places -/

namespace Token

/-- The token of a plain text, if it is not empty. -/
def plain (s : List Char) (position : Nat) (location : Location) : List Token :=
  if s.isEmpty then [] else [⟨.text, String.ofList s, position, location⟩]

/-- The tokens of a text that starts at a place. -/
def scanFrom (position : Nat) (location : Location) (s : List Char) : Except Fault (List Token) :=
  match _hOpen : cutAtOpening s with
  | none => .ok (plain s position location)
  | some (before, kind, inside) =>
    let tagAt := location.after before
    match _hClose : cutAtClosing kind inside with
    | none => .error ⟨.unterminated kind, tagAt⟩
    | some (content, rest) => do
      let tagPosition := position + before.length
      let tag : Token := ⟨.tag kind, String.ofList (Text.trimChars content), tagPosition, tagAt⟩
      let tokens ← scanFrom (tagPosition + content.length + 4)
        (tagAt.after (opening kind ++ content ++ closing kind)) rest
      return plain before position location ++ tag :: tokens
termination_by s.length
decreasing_by
  have := length_after_cutAtOpening _hOpen
  have := length_after_cutAtClosing _hClose
  omega

/-- The end of a text. -/
def endOf (text : String) : EndToken := ⟨text.length, Location.start.after text.toList⟩

/-- The characters of a tag with the content. -/
def tagChars (kind : TagKind) (content : List Char) : List Char :=
  opening kind ++ content ++ closing kind

@[simp] theorem length_tagChars (kind : TagKind) (content : List Char) :
    (tagChars kind content).length = content.length + 4 := by
  cases kind <;> simp [tagChars, opening, closing]

/-- The scan goes on where the characters of a tag end. -/
theorem position_behind (position : Nat) (before content : List Char) (kind : TagKind) :
    position + before.length + content.length + 4
      = position + (before ++ tagChars kind content).length := by
  rw [List.length_append, length_tagChars]
  omega

variable {s before inside content rest : List Char} {kind : TagKind}

/-- A text without a tag is one stretch of plain text. -/
theorem scanFrom_of_plain (hopening : cutAtOpening s = none) (position : Nat)
    (location : Location) : scanFrom position location s = .ok (plain s position location) := by
  rw [scanFrom]
  split
  · rfl
  · next hcut => cases hopening.symm.trans hcut

/-- A tag that is not closed breaks a scan off where it starts. -/
theorem scanFrom_of_unclosed (hopening : cutAtOpening s = some (before, kind, inside))
    (hclosing : cutAtClosing kind inside = none) (position : Nat) (location : Location) :
    scanFrom position location s = .error ⟨.unterminated kind, location.after before⟩ := by
  rw [scanFrom]
  split
  · next hcut => cases hopening.symm.trans hcut
  next before' kind' inside' hcut =>
  obtain ⟨rfl, rfl, rfl⟩ : before = before' ∧ kind = kind' ∧ inside = inside' := by
    simpa using hopening.symm.trans hcut
  split
  · rfl
  · next hcut' => cases hclosing.symm.trans hcut'

/-- The tokens of a text whose first tag is closed.  The scan goes on behind the tag. -/
theorem scanFrom_tag (hopening : cutAtOpening s = some (before, kind, inside))
    (hclosing : cutAtClosing kind inside = some (content, rest)) (position : Nat)
    (location : Location) : scanFrom position location s
      = (scanFrom (position + (before ++ tagChars kind content).length)
          (location.after (before ++ tagChars kind content)) rest).map fun tokens =>
        plain before position location ++ ⟨.tag kind, String.ofList (Text.trimChars content),
          position + before.length, location.after before⟩ :: tokens := by
  rw [scanFrom]
  -- The scan cuts twice, and both cuts are the ones that are given.
  split
  · next hcut => cases hopening.symm.trans hcut
  next before' kind' inside' hcut =>
  obtain ⟨rfl, rfl, rfl⟩ : before = before' ∧ kind = kind' ∧ inside = inside' := by
    simpa using hopening.symm.trans hcut
  split
  · next hcut' => cases hclosing.symm.trans hcut'
  next content' rest' hcut' =>
  obtain ⟨rfl, rfl⟩ : content = content' ∧ rest = rest' := by
    simpa using hclosing.symm.trans hcut'
  have hlocation : (location.after before).after (opening kind ++ content ++ closing kind)
      = location.after (before ++ tagChars kind content) :=
    (Location.after_append ..).symm
  dsimp only
  rw [position_behind position before content kind, hlocation]
  cases scanFrom (position + (before ++ tagChars kind content).length)
    (location.after (before ++ tagChars kind content)) rest <;> rfl

/-- A cut at a closing marker loses nothing but the marker. -/
theorem append_of_cutAtClosing (h : cutAtClosing kind inside = some (content, rest)) :
    inside = content ++ closing kind ++ rest := by
  cases kind <;> simpa [closing] using Text.append_of_cutAt h

/-! ### Scanning with a counter -/

variable {whole passed : List Char} {n : Nat}

/-- A counter that is not past a place in a text goes on to it, and gives it. -/
theorem goOn_behind (hwhole : whole = passed ++ s) (hn : n ≤ passed.length) :
    (Counter.passed whole n).goOn passed.length = .passed whole passed.length ∧
      (Counter.passed whole passed.length).place passed.length = Location.start.after passed := by
  have hlength : passed.length ≤ whole.length := by
    rw [hwhole, List.length_append]
    exact Nat.le_add_right ..
  refine ⟨Counter.goOn_passed hn (Nat.le_trans hn hlength), ?_⟩
  rw [Counter.place_passed hlength, hwhole, List.take_left]

/-- A counter that is not past a stretch of plain text gives its token, and is not past its start
    then. -/
theorem stretch_eq (hwhole : whole = passed ++ s) (hn : n ≤ passed.length) (front : List Char) :
    ∃ m ≤ passed.length, stretch (.passed whole n) passed.length front
      = (plain front passed.length (Location.start.after passed), .passed whole m) := by
  unfold stretch plain
  split
  · exact ⟨n, hn, rfl⟩
  · obtain ⟨hgone, hplace⟩ := goOn_behind hwhole hn
    refine ⟨passed.length, Nat.le_refl _, ?_⟩
    dsimp only
    rw [hgone, hplace]

/-- A counter that is not past a stretch of plain text goes on to the tag behind it, and gives its
    place. -/
theorem goOn_tag (hwhole : whole = passed ++ s)
    (hopening : cutAtOpening s = some (before, kind, inside)) (hn : n ≤ passed.length) :
    (Counter.passed whole n).goOn (passed.length + before.length)
        = .passed whole (passed ++ before).length ∧
      (Counter.passed whole (passed ++ before).length).place (passed.length + before.length)
        = (Location.start.after passed).after before := by
  have htag : whole = (passed ++ before) ++ (opening kind ++ inside) := by
    rw [hwhole, append_of_cutAtOpening hopening]
    simp only [List.append_assoc]
  rw [← List.length_append, ← Location.after_append]
  refine goOn_behind htag ?_
  rw [List.length_append]
  exact Nat.le_trans hn (Nat.le_add_right ..)

/-- Behind the first part of a text, a counter that is not past it scans the rest as it is scanned
    from its place on, and comes to the end of the text. -/
theorem tokenizeFrom_eq (hwhole : whole = passed ++ s) (hn : n ≤ passed.length) :
    tokenizeFrom (.passed whole n) passed.length s
      = (scanFrom passed.length (Location.start.after passed) s).map fun tokens =>
        (tokens, ⟨whole.length, Location.start.after whole⟩) := by
  generalize hk : Counter.passed whole n = k
  generalize hp : passed.length = position
  fun_induction tokenizeFrom k position s generalizing passed n with
  | case1 k position s hopening front k' hfront =>
    subst hk hp
    obtain ⟨m, hm, hstretch⟩ := stretch_eq hwhole hn s
    obtain ⟨rfl, rfl⟩ := Prod.mk.inj (hfront.symm.trans hstretch)
    have hstop : passed.length + s.length = whole.length := by
      rw [hwhole, List.length_append]
    have hmend : m ≤ whole.length := by
      rw [← hstop]
      exact Nat.le_trans hm (Nat.le_add_right ..)
    obtain ⟨hgone, hplace⟩ := goOn_behind (List.append_nil whole).symm hmend
    rw [scanFrom_of_plain hopening, ← hplace, ← hgone, ← hstop]
    rfl
  | case2 k position s before kind inside hopening front k' hfront =>
    rename_i hclosing
    subst hk hp
    obtain ⟨m, hm, hstretch⟩ := stretch_eq hwhole hn before
    obtain ⟨-, rfl⟩ := Prod.mk.inj (hfront.symm.trans hstretch)
    obtain ⟨hgone, hplace⟩ := goOn_tag hwhole hopening hm
    rw [scanFrom_of_unclosed hopening hclosing, ← hplace, ← hgone]
    rfl
  | case3 k position s before kind inside hopening front k' hfront tagPosition k'' content rest =>
    rename_i hclosing tag ih
    subst hk hp
    obtain ⟨m, hm, hstretch⟩ := stretch_eq hwhole hn before
    obtain ⟨rfl, rfl⟩ := Prod.mk.inj (hfront.symm.trans hstretch)
    obtain ⟨hgone, hplace⟩ := goOn_tag hwhole hopening hm
    have hbehind : whole = (passed ++ (before ++ tagChars kind content)) ++ rest := by
      rw [hwhole, append_of_cutAtOpening hopening, append_of_cutAtClosing hclosing]
      simp only [tagChars, List.append_assoc]
    have hfar : (passed ++ before).length
        ≤ (passed ++ (before ++ tagChars kind content)).length := by
      rw [← List.append_assoc]
      exact (List.prefix_append ..).length_le
    have hposition : tagPosition + content.length + 4
        = (passed ++ (before ++ tagChars kind content)).length := by
      rw [List.length_append]
      exact position_behind passed.length before content kind
    have hrest := ih hbehind hfar hgone.symm hposition.symm
    rw [hrest, scanFrom_tag hopening hclosing, hposition, Location.after_append,
      List.length_append]
    cases scanFrom (passed.length + (before ++ tagChars kind content).length)
      ((Location.start.after passed).after (before ++ tagChars kind content)) rest with
    | error fault => rfl
    | ok tokens =>
      rw [← hplace, ← hgone]
      rfl

/-- The tokens of a text are those of its scan from its start on, and its end is behind all of
    it. -/
theorem tokenize_eq (text : String) :
    tokenize text = (scanFrom 0 .start text.toList).map fun tokens => (tokens, endOf text) := by
  have hstart : text.toList = [] ++ text.toList := rfl
  have htokens := tokenizeFrom_eq hstart (Nat.le_refl 0)
  rw [String.length_toList] at htokens
  exact htokens

theorem scan_eq (text : String) : scan text = scanFrom 0 .start text.toList := by
  rw [scan, tokenize_eq]
  cases scanFrom 0 .start text.toList <;> rfl

end Token

end Markup

end TextTemplate
