import TextTemplate.Proofs.Markup.Segment
import TextTemplate.Proofs.Chain.Depth

/-! # Which branch is rendered

  A sequence is rendered node by node, and what the branches before a node have
  come to is a flag that is passed on from node to node.  A structured renderer
  has no flag: it renders a sequence segment by segment, and of a conditional
  the body of the first branch whose condition is true (`firstTrue`).  On every
  sequence that is made of segments the two agree, in the text, in what is
  reported on the way, and in the ways in which they fail.

  So nothing passes from one conditional to the next, and a condition behind the
  branch that is taken is not evaluated.
-/

namespace TextTemplate.Render

open Markup

/-! ### Outputs one after the other -/

namespace Output

@[simp] theorem empty_append (a : Output) : .empty ++ a = a := by
  show (⟨"" ++ a.text, [] ++ a.remarks⟩ : Output) = a
  rw [String.empty_append, List.nil_append]

@[simp] theorem append_empty (a : Output) : a ++ .empty = a := by
  show (⟨a.text ++ "", a.remarks ++ []⟩ : Output) = a
  rw [String.append_empty, List.append_nil]

theorem append_assoc (a b c : Output) : a ++ b ++ c = a ++ (b ++ c) := by
  show (⟨a.text ++ b.text ++ c.text, a.remarks ++ b.remarks ++ c.remarks⟩ : Output)
    = ⟨a.text ++ (b.text ++ c.text), a.remarks ++ (b.remarks ++ c.remarks)⟩
  rw [String.append_assoc, List.append_assoc]

end Output

/-- One output and then another one, unless one of the two fails. -/
def andThen (first second : Except Fault Output) : Except Fault Output := do
  let a ← first
  return a ++ (← second)

@[simp] theorem ok_empty_andThen (second : Except Fault Output) :
    andThen (.ok .empty) second = second := by
  cases second with
  | error fault => rfl
  | ok b =>
    show Except.ok (Output.empty ++ b) = _
    rw [Output.empty_append]

theorem andThen_assoc (a b c : Except Fault Output) :
    andThen (andThen a b) c = andThen a (andThen b c) := by
  cases a with
  | error fault => rfl
  | ok a =>
    cases b with
    | error fault => rfl
    | ok b =>
      cases c with
      | error fault => rfl
      | ok c =>
        show Except.ok (a ++ b ++ c) = Except.ok (a ++ (b ++ c))
        rw [Output.append_assoc]

/-! ### Segment by segment -/

/-- Evaluating an expression writes nothing. -/
theorem text_of_evaluate {scope : Scope} {expr : String} {v : Value} {noted : Output}
    (h : evaluate scope expr = .ok (v, noted)) : noted.text = "" := by
  unfold evaluate at h
  split at h
  · cases h
  · cases h
  · cases h
    rfl

/-- The body of the first branch whose condition is true, or of the one that is taken if there is
    none, after what is noted about the conditions up to there. -/
def firstTrue (inner : Renderer) (scope : Scope) (otherwise? : Option (List Node)) :
    List (String × List Node) → Except Fault Output
  | [] => otherwise?.elim (.ok .empty) (inner scope)
  | (condition, body) :: rest => do
    let (holds, noted) ← test scope condition
    andThen (.ok noted) (if holds then inner scope body else firstTrue inner scope otherwise? rest)

/-- Renders a segment by itself. -/
def segment (chain : Chain) (inner : Renderer) (scope : Scope) : Segment → Except Fault Output
  | .plain n _ => (node chain inner scope false n).map (·.1)
  | .conditional c => firstTrue inner scope c.otherwise? c.tests

/-- Renders segments one after the other. -/
def segments (chain : Chain) (inner : Renderer) (scope : Scope) :
    List Segment → Except Fault Output
  | [] => .ok .empty
  | first :: rest => andThen (segment chain inner scope first) (segments chain inner scope rest)

variable {chain : Chain} {inner : Renderer} {scope : Scope}

/-! ### What a conditional comes to -/

/-- The condition is false, or gives no value. -/
def IsFalse (scope : Scope) (condition : String) : Prop :=
  ∃ v noted, evaluate scope condition = .ok (v, noted) ∧ v.truth = .ok false

/-- The condition is true. -/
def IsTrue (scope : Scope) (condition : String) : Prop :=
  ∃ v noted, evaluate scope condition = .ok (v, noted) ∧ v.truth = .ok true

/-- Branches with false conditions write nothing. -/
theorem firstTrue_text_append {otherwise? : Option (List Node)}
    {before rest : List (String × List Node)} (hbefore : ∀ test ∈ before, IsFalse scope test.1) :
    (firstTrue inner scope otherwise? (before ++ rest)).map (·.text)
      = (firstTrue inner scope otherwise? rest).map (·.text) := by
  induction before with
  | nil => rfl
  | cons test before ih =>
    obtain ⟨v, noted, heval, hfalse⟩ := hbefore test List.mem_cons_self
    have hrest := ih fun test htest => hbefore test (List.mem_cons_of_mem _ htest)
    have htext := text_of_evaluate heval
    rw [List.cons_append, firstTrue, test_of_evaluate heval hfalse, ← hrest]
    show (andThen (.ok noted) (firstTrue inner scope otherwise? (before ++ rest))).map (·.text) = _
    -- What is noted about the condition has no text.
    cases firstTrue inner scope otherwise? (before ++ rest) with
    | error fault => rfl
    | ok made =>
      show Except.ok (noted.text ++ made.text) = Except.ok made.text
      rw [htext, String.empty_append]

/-- A conditional writes what the body of its first branch with a true condition does. -/
theorem firstTrue_text_of_isTrue {otherwise? : Option (List Node)}
    {before after : List (String × List Node)} {condition : String} {body : List Node}
    (hbefore : ∀ test ∈ before, IsFalse scope test.1) (htrue : IsTrue scope condition) :
    (firstTrue inner scope otherwise? (before ++ (condition, body) :: after)).map (·.text)
      = (inner scope body).map (·.text) := by
  obtain ⟨v, noted, heval, hv⟩ := htrue
  have htext := text_of_evaluate heval
  rw [firstTrue_text_append hbefore, firstTrue, test_of_evaluate heval hv]
  show (andThen (.ok noted) (inner scope body)).map (·.text) = _
  cases inner scope body with
  | error fault => rfl
  | ok made =>
    show Except.ok (noted.text ++ made.text) = Except.ok made.text
    rw [htext, String.empty_append]

/-- A conditional without a true condition writes what the body for this case does, if it has
    one. -/
theorem firstTrue_text_of_isFalse {otherwise? : Option (List Node)}
    {tests : List (String × List Node)} (htests : ∀ test ∈ tests, IsFalse scope test.1) :
    (firstTrue inner scope otherwise? tests).map (·.text)
      = (otherwise?.elim (.ok .empty) (inner scope)).map (·.text) := by
  have h : (firstTrue inner scope otherwise? (tests ++ [])).map (·.text)
      = (firstTrue inner scope otherwise? []).map (·.text) := firstTrue_text_append htests
  rwa [List.append_nil] at h

/-- What stands behind a branch with a true condition makes no difference, so no condition there is
    evaluated. -/
theorem firstTrue_eq_of_isTrue {otherwise? otherwise?' : Option (List Node)}
    {before after after' : List (String × List Node)} {condition : String} {body : List Node}
    (htrue : IsTrue scope condition) :
    firstTrue inner scope otherwise? (before ++ (condition, body) :: after)
      = firstTrue inner scope otherwise?' (before ++ (condition, body) :: after') := by
  induction before with
  | nil =>
    obtain ⟨v, noted, heval, hv⟩ := htrue
    rw [List.nil_append, List.nil_append, firstTrue, firstTrue, test_of_evaluate heval hv]
    rfl
  | cons test before ih => rw [List.cons_append, List.cons_append, firstTrue, firstTrue, ih]

/-- A condition that cannot be tested, behind false ones, is where a conditional fails. -/
theorem firstTrue_eq_error {otherwise? : Option (List Node)}
    {before after : List (String × List Node)} {condition : String} {body : List Node}
    {fault : Fault} (hbefore : ∀ test ∈ before, IsFalse scope test.1)
    (hfault : test scope condition = .error fault) :
    firstTrue inner scope otherwise? (before ++ (condition, body) :: after) = .error fault := by
  induction before with
  | nil =>
    rw [List.nil_append, firstTrue, hfault]
    rfl
  | cons test before ih =>
    obtain ⟨v, noted, heval, hfalse⟩ := hbefore test List.mem_cons_self
    have hrest := ih fun test htest => hbefore test (List.mem_cons_of_mem _ htest)
    rw [List.cons_append, firstTrue, test_of_evaluate heval hfalse, hrest]
    rfl

/-- What is made of a conditional is what its first branch with a true condition makes. -/
structure IsFirstTrue (inner : Renderer) (scope : Scope) (c : Conditional)
    (made : Except Fault Output) : Prop where
  /-- The text is that of the body behind the first true condition. -/
  taken : ∀ before condition body after, c.tests = before ++ (condition, body) :: after →
    (∀ test ∈ before, IsFalse scope test.1) → IsTrue scope condition →
    made.map (·.text) = (inner scope body).map (·.text)
  /-- If no condition is true, it is that of the body for this case, if there is one. -/
  otherwise : (∀ test ∈ c.tests, IsFalse scope test.1) →
    made.map (·.text) = (c.otherwise?.elim (.ok .empty) (inner scope)).map (·.text)
  /-- Text, remarks and faults are the same whatever conditions stand behind a true one. -/
  unread : ∀ before condition body after, c.tests = before ++ (condition, body) :: after →
    IsTrue scope condition → ∀ after' otherwise?',
    made = firstTrue inner scope otherwise?' (before ++ (condition, body) :: after')
  /-- A condition that cannot be tested counts only if all before it are false. -/
  failed : ∀ before condition body after fault, c.tests = before ++ (condition, body) :: after →
    (∀ test ∈ before, IsFalse scope test.1) → test scope condition = .error fault →
    made = .error fault

/-- A conditional that is rendered by itself gives what its first true branch does. -/
theorem isFirstTrue_segment (c : Conditional) :
    IsFirstTrue inner scope c (segment chain inner scope (.conditional c)) where
  taken := by
    intro before condition body after hsplit hbefore htrue
    rw [segment, hsplit]
    exact firstTrue_text_of_isTrue hbefore htrue
  otherwise := firstTrue_text_of_isFalse
  unread := by
    intro before condition body after hsplit htrue after' otherwise?'
    rw [segment, hsplit]
    exact firstTrue_eq_of_isTrue htrue
  failed := by
    intro before condition body after fault hsplit hbefore hfault
    rw [segment, hsplit]
    exact firstTrue_eq_error hbefore hfault

/-! ### Node by node -/

/-- A node that is no branch leaves the flag as it is, and does not look at it. -/
theorem node_of_not_isBranch {n : Node} (hn : n.isBranch = false) (taken : Bool) :
    node chain inner scope taken n
      = (node chain inner scope false n).map fun made => (made.1, taken) := by
  cases n with
  | text | bare => rfl
  | output expr =>
    simp only [node]
    cases outputTag scope expr <;> rfl
  | branch place condition? body => cases hn
  | loop name source body =>
    simp only [node]
    cases loop inner scope name source body <;> rfl
  | block name own =>
    simp only [node]
    cases chain.findBlock? name with
    | none => rfl
    | some body =>
      dsimp only
      cases inner scope body <;> rfl

/-- Such a node is rendered by itself. -/
theorem nodes_plain {n : Node} (hn : n.isBranch = false) (taken : Bool) (rest : List Node) :
    nodes chain inner scope taken (n :: rest)
      = andThen (segment chain inner scope (.plain n hn))
          (nodes chain inner scope taken rest) := by
  rw [nodes, segment, node_of_not_isBranch hn taken]
  cases node chain inner scope false n <;> rfl

/-- Once a branch has been taken, nothing is rendered of those that go on with the conditional. -/
theorem nodes_further_of_taken (more : List (String × List Node)) (otherwise? : Option (List Node))
    (rest : List Node) :
    nodes chain inner scope true (Conditional.further more otherwise? ++ rest)
      = nodes chain inner scope true rest := by
  -- A branch that is passed over writes nothing and leaves the flag set.
  have hskip : ∀ (n : Node) (rest : List Node),
      node chain inner scope true n = .ok (.empty, true) →
      nodes chain inner scope true (n :: rest) = nodes chain inner scope true rest := by
    intro n rest hn
    have hnodes : nodes chain inner scope true (n :: rest)
        = andThen (.ok .empty) (nodes chain inner scope true rest) := by
      rw [nodes, hn]
      rfl
    rw [hnodes, ok_empty_andThen]
  induction more with
  | nil =>
    cases otherwise? with
    | none => rfl
    | some body => exact hskip (.branch .otherwise none body) rest rfl
  | cons test more ih =>
    show nodes chain inner scope true (.branch .next (some test.1) test.2 ::
      (Conditional.further more otherwise? ++ rest)) = _
    rw [hskip _ _ rfl, ih]

/-- A branch with a condition, while no branch before it has been taken, comes before a sequence
    whose rendering depends on whether it is taken. -/
theorem nodes_tested {n : Node} {expr : String} {body rest : List Node} {taken : Bool}
    (hn : node chain inner scope taken n = condition scope expr (inner scope body)) :
    nodes chain inner scope taken (n :: rest) = (do
      let (holds, noted) ← test scope expr
      andThen (.ok noted)
        (if holds then andThen (inner scope body) (nodes chain inner scope true rest)
          else nodes chain inner scope false rest)) := by
  rw [nodes, hn, condition]
  cases test scope expr with
  | error fault => rfl
  | ok found =>
    obtain ⟨holds, noted⟩ := found
    simp only [bind, Except.bind, andThen, pure, Except.pure]
    by_cases hv : holds = true
    · rw [if_pos hv, if_pos hv]
      cases inner scope body with
      | error fault => rfl
      | ok made =>
        dsimp only
        cases nodes chain inner scope true rest with
        | error fault => rfl
        | ok behind =>
          show Except.ok (noted ++ made ++ behind) = Except.ok (noted ++ (made ++ behind))
          rw [Output.append_assoc]
    · rw [if_neg hv, if_neg hv]

section

variable {rest : List Node} (hrest : ∀ taken,
  nodes chain inner scope taken rest = nodes chain inner scope false rest)
include hrest

/-- A test and the branches behind it, before a sequence that does not look at the flag. -/
theorem nodes_tested_further {n : Node} {expr : String} {body : List Node} {taken : Bool}
    {more : List (String × List Node)} {otherwise? : Option (List Node)}
    (hn : node chain inner scope taken n = condition scope expr (inner scope body))
    (hmore : nodes chain inner scope false (Conditional.further more otherwise? ++ rest)
      = andThen (firstTrue inner scope otherwise? more) (nodes chain inner scope false rest)) :
    nodes chain inner scope taken (n :: (Conditional.further more otherwise? ++ rest))
      = andThen (firstTrue inner scope otherwise? ((expr, body) :: more))
          (nodes chain inner scope false rest) := by
  rw [nodes_tested hn, nodes_further_of_taken, hrest true, hmore, firstTrue]
  cases test scope expr with
  | error fault => rfl
  | ok tested =>
    obtain ⟨holds, noted⟩ := tested
    show andThen (.ok noted) _ = andThen (andThen (.ok noted) _) _
    rw [andThen_assoc]
    congr 1
    split <;> rfl

/-- While no branch has been taken, those that go on with a conditional are tried in turn. -/
theorem nodes_further (more : List (String × List Node)) (otherwise? : Option (List Node)) :
    nodes chain inner scope false (Conditional.further more otherwise? ++ rest)
      = andThen (firstTrue inner scope otherwise? more) (nodes chain inner scope false rest) := by
  induction more with
  | nil =>
    cases otherwise? with
    | none =>
      show _ = andThen (.ok .empty) _
      rw [ok_empty_andThen]
      rfl
    | some body =>
      show nodes chain inner scope false (.branch .otherwise none body :: rest)
        = andThen (inner scope body) (nodes chain inner scope false rest)
      rw [← hrest true, nodes, node]
      cases inner scope body <;> rfl
  | cons test more ih => exact nodes_tested_further hrest rfl ih

/-- A conditional is rendered by itself, whatever came before it. -/
theorem nodes_conditional (c : Conditional) (taken : Bool) :
    nodes chain inner scope taken (c.nodes ++ rest)
      = andThen (segment chain inner scope (.conditional c))
          (nodes chain inner scope false rest) :=
  nodes_tested_further hrest rfl (nodes_further hrest c.more c.otherwise?)

end

/-- A sequence is rendered segment by segment, whatever came before it. -/
theorem nodes_eq_segments {s : List Node} {parts : List Segment} (h : MadeOf s parts)
    (taken : Bool) : nodes chain inner scope taken s = segments chain inner scope parts := by
  induction parts generalizing s taken with
  | nil =>
    subst h
    rfl
  | cons first rest ih =>
    have hrest : ∀ taken, nodes chain inner scope taken (rest.flatMap Segment.nodes)
        = segments chain inner scope rest := ih rfl
    subst h
    rw [List.flatMap_cons, segments]
    cases first with
    | plain n hn =>
      rw [← hrest taken]
      exact nodes_plain hn taken _
    | conditional c =>
      rw [← hrest false]
      refine nodes_conditional (fun taken => ?_) c taken
      rw [hrest taken, hrest false]

/-! ### Texts that were read -/

/-- In a document that was read, the branches of each conditional of the text directly follow each
    other, and every sequence, rendered in any chain and any scope, is its segments one after the
    other.  What stands in the place of a conditional is what its first branch with a true condition
    makes. -/
theorem branches_of_read {rules : Rules} {text : String} {document : Document}
    (h : (Document.read rules text).result = .ok document) :
    (∃ tokens items, Markup.Token.scan text = .ok tokens ∧ tokens.mapM Token.item = .ok items ∧
      Node.walkIn document.root = items.filterMap Item.kept?) ∧
    ∀ s ∈ document.sequences, Adjacent s ∧ ∃ parts, MadeOf s parts ∧
      Node.walkIn s = parts.flatMap Segment.walk ∧
      ∀ (chain : Chain) (limit : Nat) (scope : Scope),
        sequence chain (limit + 1) scope s = segments chain (sequence chain limit) scope parts ∧
        ∀ c, .conditional c ∈ parts → IsFirstTrue (sequence chain limit) scope c
          (segment chain (sequence chain limit) scope (.conditional c)) := by
  obtain ⟨-, tokens, items, hscan, hitems, hderives⟩ := Document.derives_of_read h
  obtain ⟨-, hwalk⟩ := hderives.walked
  refine ⟨⟨tokens, items, hscan, hitems, hwalk⟩, fun s hs => ?_⟩
  obtain ⟨parts, hparts⟩ := Document.madeOf_of_read h hs
  refine ⟨hparts.adjacent, parts, hparts, hparts.walkIn, fun chain limit scope => ⟨?_, ?_⟩⟩
  · exact nodes_eq_segments hparts false
  · intro c _
    exact isFirstTrue_segment c

/-- A conditional, and another one inside a loop. -/
def siblingText : String :=
  "{% if x %}{% endif %}{% for i in l %}{% if i %}b{% else if j %}{% else %}{% endif %}{% endfor %}"

/-- Each of the six sequences of `siblingText` is rendered segment by segment. -/
theorem siblingText_read : (documentOf siblingText).sequences.length = 6 ∧
    ∀ s ∈ (documentOf siblingText).sequences, ∃ parts, MadeOf s parts ∧
      ∀ (chain : Chain) (scope : Scope),
        sequence chain 2 scope s = segments chain (sequence chain 1) scope parts := by
  have hread : (Document.read .default siblingText).result = .ok (documentOf siblingText) :=
    read_documentOf (by decide +kernel)
  refine ⟨by decide +kernel, fun s hs => ?_⟩
  obtain ⟨-, hsequences⟩ := branches_of_read hread
  obtain ⟨-, parts, hparts, -, hrender⟩ := hsequences s hs
  exact ⟨parts, hparts, fun chain scope => (hrender chain 1 scope).1⟩

end TextTemplate.Render
