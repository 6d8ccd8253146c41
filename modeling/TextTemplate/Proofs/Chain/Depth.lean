import Mathlib.Algebra.GroupWithZero.Nat
import TextTemplate.Proofs.Markup.Registering
import TextTemplate.Render

/-! # How deep rendering goes

  A block is rendered with a body from elsewhere in the chain, which may hold
  further blocks.  That this ends rests on what reading a text leaves behind:
  every block of a template is registered under its name, so the body that is
  found stands in a more derived template, or is the last one of its name in the
  same template, opened behind the sequence that the block stands in.

  Each step inside thus makes the rank of a sequence smaller: the openings of all
  more derived templates, and those behind it in its own.  The rank of the root
  is the number of all tags of the chain that open a sequence, whatever the
  variables are.
-/

namespace TextTemplate

open Markup

/-! ### Steps inside -/

namespace Chain

/-- Rendering the first sequence may render the second one directly inside it. -/
inductive Inside (chain : Chain) (s : List Node) : List Node → Prop where
  | branch {place : Branch} {condition? : Option String} {body : List Node} :
      .branch place condition? body ∈ s → Inside chain s body
  | loop {name source : String} {body : List Node} :
      .loop name source body ∈ s → Inside chain s body
  | block {name : String} {own body : List Node} :
      .block name own ∈ s → chain.findBlock? name = some body → Inside chain s body

theorem Inside.mono {chain : Chain} {s s' body : List Node} (h : chain.Inside s body)
    (hsub : s ⊆ s') : chain.Inside s' body := by
  cases h with
  | branch hmem => exact .branch (hsub hmem)
  | loop hmem => exact .loop (hsub hmem)
  | block hmem hfound => exact .block (hsub hmem) hfound

/-! ### Ranks -/

/-- How many tags of some templates open a sequence. -/
def openingCount (layers : List Layer) : Nat :=
  (layers.map fun layer => (Node.openingsIn layer.document.root).length).sum

/-- The sequence stands in a template of the chain, and its rank is the number of the openings in
    the templates before it and of those behind it in its own. -/
def Ranked (chain : Chain) (rank : Nat) (s : List Node) : Prop :=
  ∃ before layer rest after, chain.layers = before ++ layer :: rest ∧
    Below layer.document.root s after ∧ rank = openingCount before + after.length

theorem openingCount_append (a b : List Layer) :
    openingCount (a ++ b) = openingCount a + openingCount b := by
  simp [openingCount]

theorem openingCount_cons (layer : Layer) (rest : List Layer) : openingCount (layer :: rest)
    = (Node.openingsIn layer.document.root).length + openingCount rest := by
  simp [openingCount]

/-- The root of the chain has all openings behind it. -/
theorem ranked_root (chain : Chain) : chain.Ranked (openingCount chain.layers) chain.root := by
  have htop : chain.layers.getLast? = some chain.top := by
    unfold layers top
    rw [List.getLast?_cons]
  obtain ⟨before, hlayers⟩ := List.getLast?_eq_some_iff.1 htop
  refine ⟨before, chain.top, [], _, hlayers, .root, ?_⟩
  rw [hlayers, openingCount_append, openingCount_cons]
  rfl

section

variable {chain : Chain} (hregistered : ∀ layer ∈ chain.layers, layer.document.Registered)
include hregistered

/-- A body that some templates give to a block has a smaller rank than what stands behind them. -/
theorem ranked_of_findSome? {before rest : List Layer} (hlayers : chain.layers = before ++ rest)
    {name : String} {body : List Node}
    (hfound : before.findSome? (fun layer => layer.document.blocks.find? name) = some body) :
    ∃ rank < openingCount before, chain.Ranked rank body := by
  obtain ⟨front, layer, back, rfl, hbody, -⟩ := List.findSome?_eq_some_iff.1 hfound
  have hlayer : layer ∈ chain.layers := by
    rw [hlayers]
    simp
  have hroot : Below layer.document.root layer.document.root _ := .root
  rw [hregistered layer hlayer, Blocks.find?_lastOfEach_blocksIn] at hbody
  obtain ⟨o, ho, rfl⟩ := Option.map_eq_some_iff.1 hbody
  obtain ⟨-, first, last, hsplit, -⟩ := List.find?_eq_some_iff_append.1 ho
  have hopenings : Node.openingsIn layer.document.root = last.reverse ++ o :: first.reverse := by
    rw [← List.reverse_reverse (Node.openingsIn layer.document.root), hsplit]
    simp
  obtain ⟨hbelow, hlt⟩ := hroot.later hopenings
  refine ⟨openingCount front + first.reverse.length, ?_, front, layer, back ++ rest,
    first.reverse, ?_, hbelow, rfl⟩
  · rw [openingCount_append, openingCount_cons]
    omega
  · rw [hlayers, List.append_assoc]
    rfl

/-- What is rendered inside a sequence has a smaller rank. -/
theorem Ranked.inside {rank : Nat} {s body : List Node} (h : chain.Ranked rank s)
    (hinside : chain.Inside s body) : ∃ rank' < rank, chain.Ranked rank' body := by
  obtain ⟨before, layer, rest, after, hlayers, hbelow, rfl⟩ := h
  -- What is opened behind the sequence in its own template has the same templates before it.
  have hlater : ∀ {front back : List Opening} {o : Opening}, after = front ++ o :: back →
      ∃ rank' < openingCount before + after.length, chain.Ranked rank' o.2 := by
    intro front back o heq
    obtain ⟨hback, hlt⟩ := hbelow.later heq
    exact ⟨openingCount before + back.length, Nat.add_lt_add_left hlt _, before, layer, rest, back,
      hlayers, hback, rfl⟩
  cases hinside with
  | branch hmem =>
    obtain ⟨front, back, heq⟩ := hbelow.of_mem hmem rfl
    exact hlater heq
  | loop hmem =>
    obtain ⟨front, back, heq⟩ := hbelow.of_mem hmem rfl
    exact hlater heq
  | @block name own _ hmem hfound =>
    obtain ⟨front, back, heq⟩ := hbelow.of_mem hmem rfl
    have hopened : ∃ o ∈ after, o.1 = some name := ⟨(some name, own), by rw [heq]; simp, rfl⟩
    obtain ⟨o, front', back', hsplit, hlast⟩ := hbelow.of_lastOfEach hopened
    have hlayer : layer ∈ chain.layers := by
      rw [hlayers]
      simp
    unfold findBlock? at hfound
    rw [hlayers, List.findSome?_append] at hfound
    cases hbefore : before.findSome? (fun layer => layer.document.blocks.find? name) with
    | some derived =>
      -- A more derived template gives the body.
      rw [hbefore] at hfound
      obtain rfl := Option.some.inj hfound
      obtain ⟨rank', hlt, hranked⟩ := ranked_of_findSome? hregistered hlayers hbefore
      exact ⟨rank', Nat.lt_add_right _ hlt, hranked⟩
    | none =>
      -- The template itself gives it, with a block that is opened later.
      rw [hbefore, Option.none_or, List.findSome?_cons, hregistered layer hlayer, hlast] at hfound
      obtain rfl := Option.some.inj hfound
      exact hlater hsplit

end

end Chain

/-! ### Rendering -/

namespace Render

variable {chain : Chain}

/-- A loop depends on the rendering of its body only. -/
theorem loop_congr {inner inner' : Renderer} {scope : Scope} {name source : String}
    {body : List Node} (h : ∀ scope, inner scope body = inner' scope body) :
    loop inner scope name source body = loop inner' scope name source body := by
  have hbody : ∀ items, loopBody inner scope name body items
      = loopBody inner' scope name body items := by
    intro items
    induction items with
    | nil => rfl
    | cons item rest ih => rw [loopBody, loopBody, h, ih]
  unfold loop loopOver
  simp only [hbody]

/-- A node depends on the rendering of what is directly inside it only. -/
theorem node_congr {inner inner' : Renderer} {n : Node}
    (h : ∀ body, chain.Inside [n] body → ∀ scope, inner scope body = inner' scope body)
    (scope : Scope) (taken : Bool) :
    node chain inner scope taken n = node chain inner' scope taken n := by
  cases n with
  | text | output | bare => rfl
  | branch place condition? body =>
    have hbody := h body (.branch List.mem_cons_self)
    cases place <;> simp only [node, hbody]
  | loop name source body =>
    simp only [node, loop_congr (h body (.loop List.mem_cons_self))]
  | block name own =>
    simp only [node]
    cases hfound : chain.findBlock? name with
    | none => rfl
    | some body => simp only [h body (.block List.mem_cons_self hfound)]

/-- A sequence depends on the rendering of what is directly inside it only. -/
theorem nodes_congr {inner inner' : Renderer} {s : List Node}
    (h : ∀ body, chain.Inside s body → ∀ scope, inner scope body = inner' scope body)
    (scope : Scope) (taken : Bool) :
    nodes chain inner scope taken s = nodes chain inner' scope taken s := by
  induction s generalizing taken with
  | nil => rfl
  | cons n rest ih =>
    have hfirst := node_congr (n := n) fun body hbody =>
      h body (hbody.mono (List.cons_subset_cons _ (List.nil_subset _)))
    have hrest := ih fun body hbody => h body (hbody.mono (List.subset_cons_self ..))
    unfold nodes
    simp only [hfirst, hrest]

/-- One step after the other fails in no way in which neither of them does. -/
theorem bind_ne_error {α β : Type} {x : Except Fault α} {f : α → Except Fault β} {fault : Fault}
    (hx : x ≠ .error fault) (hf : ∀ a, f a ≠ .error fault) : (x >>= f) ≠ .error fault := by
  cases x with
  | error other => exact fun h => hx (congrArg Except.error (Except.error.inj h))
  | ok a => exact hf a

/-- What succeeds does not fail. -/
theorem ok_ne_error {α : Type} (a : α) (fault : Fault) : (.ok a : Except Fault α) ≠ .error fault :=
  nofun

/-- A condition gives its value's truth, and what is noted about it. -/
theorem test_of_evaluate {scope : Scope} {expr : String} {v : Value} {noted : Output} {holds : Bool}
    (h : evaluate scope expr = .ok (v, noted)) (htruth : v.truth = .ok holds) :
    test scope expr = .ok (holds, noted) := by
  simp only [test, h, bind, Except.bind, htruth]
  rfl

theorem evaluate_ne_tooDeep (scope : Scope) (expr : String) :
    evaluate scope expr ≠ .error .tooDeep := by
  unfold evaluate
  split <;> nofun

theorem outputTag_ne_tooDeep (scope : Scope) (expr : String) :
    outputTag scope expr ≠ .error .tooDeep := by
  unfold outputTag
  refine bind_ne_error (evaluate_ne_tooDeep scope expr) fun ⟨v, noted⟩ => ?_
  simp only
  split <;> nofun

theorem loopBody_ne_tooDeep {inner : Renderer} {body : List Node}
    (h : ∀ scope, inner scope body ≠ .error .tooDeep) (scope : Scope) (name : String)
    (items : List Value) : loopBody inner scope name body items ≠ .error .tooDeep := by
  induction items with
  | nil => nofun
  | cons item rest ih =>
    unfold loopBody
    exact bind_ne_error (h _) fun first => bind_ne_error ih fun _ => nofun

theorem loop_ne_tooDeep {inner : Renderer} {body : List Node}
    (h : ∀ scope, inner scope body ≠ .error .tooDeep) (scope : Scope) (name source : String) :
    loop inner scope name source body ≠ .error .tooDeep := by
  unfold loop
  refine bind_ne_error (evaluate_ne_tooDeep scope source) fun ⟨v, noted⟩ => ?_
  simp only [loopOver]
  split
  · nofun
  · nofun
  · split
    · nofun
    · exact bind_ne_error (loopBody_ne_tooDeep h scope name _) fun _ => nofun

/-- A branch with a condition is not nested too deep if its body is not. -/
theorem condition_ne_tooDeep {inner : Renderer} {body : List Node}
    (h : ∀ scope, inner scope body ≠ .error .tooDeep) (scope : Scope) (expr : String) :
    condition scope expr (inner scope body) ≠ .error .tooDeep := by
  have htest : test scope expr ≠ .error .tooDeep := by
    refine bind_ne_error (evaluate_ne_tooDeep scope expr) fun ⟨v, noted⟩ => ?_
    simp only
    split <;> nofun
  refine bind_ne_error htest fun ⟨holds, noted⟩ => ?_
  simp only
  split
  · exact bind_ne_error (h scope) fun _ => nofun
  · nofun

/-- A node is not nested too deep if nothing directly inside it is. -/
theorem node_ne_tooDeep {inner : Renderer} {n : Node}
    (h : ∀ body, chain.Inside [n] body → ∀ scope, inner scope body ≠ .error .tooDeep)
    (scope : Scope) (taken : Bool) : node chain inner scope taken n ≠ .error .tooDeep := by
  cases n with
  | text | bare => exact ok_ne_error _ _
  | output expr => exact bind_ne_error (outputTag_ne_tooDeep scope expr) fun _ => ok_ne_error _ _
  | branch place condition? body =>
    have hbody := h body (.branch List.mem_cons_self)
    have htried := condition_ne_tooDeep hbody scope (condition?.getD "")
    cases place with
    | first => exact htried
    | next =>
      cases taken with
      | true => exact ok_ne_error _ _
      | false => exact htried
    | otherwise =>
      cases taken with
      | true => exact ok_ne_error _ _
      | false => exact bind_ne_error (hbody scope) fun _ => ok_ne_error _ _
  | loop name source body =>
    exact bind_ne_error (loop_ne_tooDeep (h body (.loop List.mem_cons_self)) scope name source)
      fun _ => ok_ne_error _ _
  | block name own =>
    simp only [node]
    cases hfound : chain.findBlock? name with
    | none => exact ok_ne_error _ _
    | some body =>
      exact bind_ne_error (h body (.block List.mem_cons_self hfound) scope)
        fun _ => ok_ne_error _ _

/-- A sequence is not nested too deep if nothing directly inside it is. -/
theorem nodes_ne_tooDeep {inner : Renderer} {s : List Node}
    (h : ∀ body, chain.Inside s body → ∀ scope, inner scope body ≠ .error .tooDeep)
    (scope : Scope) (taken : Bool) : nodes chain inner scope taken s ≠ .error .tooDeep := by
  induction s generalizing taken with
  | nil => nofun
  | cons n rest ih =>
    have hfirst := node_ne_tooDeep (n := n) fun body hbody =>
      h body (hbody.mono (List.cons_subset_cons _ (List.nil_subset _)))
    have hrest := ih fun body hbody => h body (hbody.mono (List.subset_cons_self ..))
    unfold nodes
    exact bind_ne_error (hfirst scope taken) fun ⟨first, taken⟩ =>
      bind_ne_error (hrest taken) fun _ => nofun

/-- Where ranks go down inside, a limit beyond a sequence's rank is not reached. -/
theorem ne_tooDeep_of_inside {ranked : Nat → List Node → Prop}
    (hinside : ∀ {rank s body}, ranked rank s → chain.Inside s body →
      ∃ rank' < rank, ranked rank' body)
    {rank limit : Nat} {s : List Node} (h : ranked rank s) (hlimit : rank < limit)
    (scope : Scope) : sequence chain limit scope s ≠ .error .tooDeep := by
  induction limit generalizing rank s scope with
  | zero => exact absurd hlimit (Nat.not_lt_zero _)
  | succ limit ih =>
    unfold sequence
    refine nodes_ne_tooDeep (fun body hbody scope => ?_) scope false
    obtain ⟨rank', hlt, hranked⟩ := hinside h hbody
    exact ih hranked (by omega) scope

section

variable (hregistered : ∀ layer ∈ chain.layers, layer.document.Registered)
include hregistered

/-- A limit beyond a sequence's rank is not reached. -/
theorem sequence_ne_tooDeep {rank limit : Nat} {s : List Node} (h : chain.Ranked rank s)
    (hlimit : rank < limit) (scope : Scope) : sequence chain limit scope s ≠ .error .tooDeep :=
  ne_tooDeep_of_inside (fun hranked hbody => hranked.inside hregistered hbody) h hlimit scope

/-- Limits beyond a sequence's rank make no difference. -/
theorem sequence_stable {rank limit : Nat} {s : List Node} (h : chain.Ranked rank s)
    (hlimit : rank < limit) (scope : Scope) :
    sequence chain (limit + 1) scope s = sequence chain limit scope s := by
  induction limit generalizing rank s scope with
  | zero => exact absurd hlimit (Nat.not_lt_zero _)
  | succ limit ih =>
    rw [sequence, sequence]
    refine nodes_congr (fun body hbody scope => ?_) scope false
    obtain ⟨rank', hlt, hranked⟩ := h.inside hregistered hbody
    exact ih hranked (by omega) scope

end

/-- Nothing with a rank can be followed inside for ever. -/
theorem acc_of_ranked (hregistered : ∀ layer ∈ chain.layers, layer.document.Registered) {rank : Nat}
    {s : List Node} (h : chain.Ranked rank s) : Acc (fun body s => chain.Inside s body) s := by
  induction rank using Nat.strongRecOn generalizing s with
  | ind rank ih =>
    refine Acc.intro s fun body hbody => ?_
    obtain ⟨rank', hlt, hranked⟩ := h.inside hregistered hbody
    exact ih rank' hlt hranked

/-- Rendering a chain of templates that were read from texts ends.  Blocks cannot be followed inside
    each other for ever, and with all variables the sequences that are rendered inside each other
    are at most the root and the tags of the chain that open one: no limit beyond that is reached,
    or makes a difference. -/
theorem depth_le_openingCount (chain : Chain)
    (hread : ∀ layer ∈ chain.layers, ∃ rules text,
      (Document.read rules text).result = .ok layer.document) :
    Acc (fun body s => chain.Inside s body) chain.root ∧
    ∀ limit scope, Chain.openingCount chain.layers < limit →
      sequence chain limit scope chain.root ≠ .error .tooDeep ∧
      sequence chain limit scope chain.root
        = sequence chain (Chain.openingCount chain.layers + 1) scope chain.root := by
  have hregistered : ∀ layer ∈ chain.layers, layer.document.Registered := by
    intro layer hlayer
    obtain ⟨rules, text, htext⟩ := hread layer hlayer
    exact Document.registered_of_read htext
  have hroot := chain.ranked_root
  refine ⟨acc_of_ranked hregistered hroot, fun limit scope hlimit => ?_⟩
  have hmore : ∀ more, sequence chain (Chain.openingCount chain.layers + 1 + more) scope chain.root
      = sequence chain (Chain.openingCount chain.layers + 1) scope chain.root := by
    intro more
    induction more with
    | zero => rfl
    | succ more ih =>
      rw [← Nat.add_assoc, sequence_stable hregistered hroot (by omega) scope]
      exact ih
  obtain ⟨more, rfl⟩ := Nat.exists_eq_add_of_le hlimit
  exact ⟨sequence_ne_tooDeep hregistered hroot hlimit scope, hmore more⟩

/-- What a text writes, or nothing if it cannot be read. -/
def documentOf (text : String) : Document :=
  (Document.read .default text).result.toOption.getD ⟨[], [], none⟩

theorem read_documentOf {text : String} (h : (Document.read .default text).result.isOk = true) :
    (Document.read .default text).result = .ok (documentOf text) := by
  unfold documentOf
  cases hresult : (Document.read .default text).result with
  | ok document => rfl
  | error fault =>
    rw [hresult] at h
    cases h

/-- Two templates whose blocks stand inside each other, the one way round and the other. -/
def crossedChain : Chain where
  template :=
    ⟨"below", documentOf "{% block a %}{% block b %}x{% endblock %}{% endblock %}"⟩
  ancestors :=
    [⟨"above", documentOf "{% block b %}{% block a %}y{% endblock %}{% endblock %}"⟩]

/-- No more than five sequences of `crossedChain` are rendered inside each other. -/
theorem crossedChain_depth : Chain.openingCount crossedChain.layers = 4 ∧
    ∀ limit scope, 4 < limit →
      sequence crossedChain limit scope crossedChain.root ≠ .error .tooDeep := by
  have hread : ∀ text, (Document.read .default text).result.isOk = true →
      ∃ rules text', (Document.read rules text').result = .ok (documentOf text) := by
    intro text hok
    refine ⟨.default, text, ?_⟩
    unfold documentOf
    cases hresult : (Document.read .default text).result with
    | ok document => rfl
    | error fault =>
      rw [hresult] at hok
      cases hok
  have hlayers : ∀ layer ∈ crossedChain.layers, ∃ rules text,
      (Document.read rules text).result = .ok layer.document := by
    intro layer hlayer
    rcases List.mem_cons.1 hlayer with rfl | hlayer
    · exact hread _ (by decide +kernel)
    · obtain rfl := List.mem_singleton.1 hlayer
      exact hread _ (by decide +kernel)
  have hcount : Chain.openingCount crossedChain.layers = 4 := by decide +kernel
  obtain ⟨-, hdepth⟩ := depth_le_openingCount crossedChain hlayers
  rw [hcount] at hdepth
  exact ⟨hcount, fun limit scope hlimit => (hdepth limit scope hlimit).1⟩

end Render

end TextTemplate
