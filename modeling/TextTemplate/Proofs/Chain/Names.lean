import TextTemplate.Proofs.Chain.Branches
import TextTemplate.Proofs.Chain.Failing
import TextTemplate.Proofs.Expr.Names

/-! # Which variables rendering depends on

  Rendering asks a scope for the values of texts only, and these ask it for the
  names that occur in them.  A loop gives both of two scopes the same binding, so
  scopes that agree on a set of names still agree on it inside.  Two runs of a
  chain can thus be followed side by side, sequence by sequence: what carries the
  argument is that every sequence which is rendered mentions names of the set only
  (`sequence_eq_of_agreeOn`, by induction on the limit).

  For a chain of templates that were read, a block's body stands in one of the
  templates, so the names that the tags of the chain mention are such a set.  For
  every chain the set of all names is one, and then only lookups count and not how
  a scope came about: `nodes_loop` says so of the scopes in a loop.
-/

namespace TextTemplate

open Markup

/-! ### The names that a chain mentions -/

namespace Markup.Document

/-- The expressions of the tags, conditions and loops of a document. -/
def expressions (document : Document) : List String :=
  document.sequences.flatMap fun s => s.filterMap Render.expression?

/-- The sequences of a document are those that have openings behind them. -/
theorem mem_sequences_iff {document : Document} {s : List Node} :
    s ∈ document.sequences ↔ ∃ after, Below document.root s after := by
  constructor
  · intro hs
    rcases List.mem_cons.1 hs with rfl | hs
    · exact ⟨_, .root⟩
    · obtain ⟨o, ho, rfl⟩ := List.mem_map.1 hs
      obtain ⟨before, after, hsplit⟩ := List.append_of_mem ho
      exact ⟨after, .opened hsplit⟩
  · rintro ⟨after, hbelow⟩
    cases hbelow with
    | root => exact List.mem_cons_self
    | @opened before _ o hsplit =>
      have ho : o ∈ Node.openingsIn document.root := by
        rw [hsplit]
        simp
      exact List.mem_cons_of_mem _ (List.mem_map_of_mem ho)

/-- What a node of a sequence opens is a sequence of the document too. -/
theorem mem_sequences_of_opening {document : Document} {s : List Node}
    (hs : s ∈ document.sequences) {node : Node} {o : Opening} (hmem : node ∈ s)
    (hopens : node.opening? = some o) : o.2 ∈ document.sequences := by
  obtain ⟨after, hbelow⟩ := mem_sequences_iff.1 hs
  obtain ⟨before, rest, hsplit⟩ := hbelow.of_mem hmem hopens
  obtain ⟨hopened, -⟩ := hbelow.later hsplit
  exact mem_sequences_iff.2 ⟨rest, hopened⟩

/-- The body that is registered for a name is a sequence of the document. -/
theorem mem_sequences_of_find? {document : Document} (hregistered : document.Registered)
    {name : String} {body : List Node} (hfound : document.blocks.find? name = some body) :
    body ∈ document.sequences := by
  rw [hregistered, Blocks.find?_lastOfEach_blocksIn] at hfound
  obtain ⟨o, ho, rfl⟩ := Option.map_eq_some_iff.1 hfound
  have hopening : o ∈ Node.openingsIn document.root :=
    List.mem_reverse.1 (List.mem_of_find?_eq_some ho)
  exact List.mem_cons_of_mem _ (List.mem_map_of_mem hopening)

end Markup.Document

namespace Chain

/-- The names that stand for variables in the expressions of a chain's templates. -/
def mentioned (chain : Chain) : List String :=
  chain.layers.flatMap fun layer => layer.document.expressions.flatMap Expr.namesIn

/-- The sequence stands in a template of the chain. -/
def Holds (chain : Chain) (s : List Node) : Prop :=
  ∃ layer ∈ chain.layers, s ∈ layer.document.sequences

theorem holds_root (chain : Chain) : chain.Holds chain.root := by
  have htop : chain.layers.getLast? = some chain.top := by
    unfold layers top
    rw [List.getLast?_cons]
  exact ⟨chain.top, List.mem_of_getLast? htop, List.mem_cons_self⟩

/-- What is rendered inside a sequence of the chain stands in the chain too. -/
theorem Holds.inside {chain : Chain}
    (hregistered : ∀ layer ∈ chain.layers, layer.document.Registered) {s body : List Node}
    (h : chain.Holds s) (hinside : chain.Inside s body) : chain.Holds body := by
  obtain ⟨layer, hlayer, hs⟩ := h
  cases hinside with
  | branch hmem => exact ⟨layer, hlayer, Document.mem_sequences_of_opening hs hmem rfl⟩
  | loop hmem => exact ⟨layer, hlayer, Document.mem_sequences_of_opening hs hmem rfl⟩
  | block hmem hfound =>
    -- The body may come from any template of the chain.
    obtain ⟨source, hsource, hbody⟩ := List.exists_of_findSome?_eq_some hfound
    exact ⟨source, hsource, Document.mem_sequences_of_find? (hregistered source hsource) hbody⟩

/-- A node of the chain mentions names of the chain. -/
theorem mem_mentioned {chain : Chain} {s : List Node} (h : chain.Holds s) {n : Node} (hn : n ∈ s)
    {expr : String} (hexpr : Render.expression? n = some expr) {name : String}
    (hname : name ∈ Expr.namesIn expr) : name ∈ chain.mentioned := by
  obtain ⟨layer, hlayer, hs⟩ := h
  have hexpressions : expr ∈ layer.document.expressions :=
    List.mem_flatMap.2 ⟨s, hs, List.mem_filterMap.2 ⟨n, hn, hexpr⟩⟩
  exact List.mem_flatMap.2 ⟨layer, hlayer, List.mem_flatMap.2 ⟨expr, hexpressions, hname⟩⟩

end Chain

namespace Render

variable {chain : Chain} {inner : Renderer} {p : String → Prop} {scope scope' : Scope}

/-! ### Scopes that agree -/

/-- The expression mentions only names with the property. -/
def MentionsOnly (p : String → Prop) (expr : String) : Prop :=
  ∀ name ∈ Expr.namesIn expr, p name

/-- A body is rendered the same way in scopes that agree on the names with the property. -/
def ReadsOnly (p : String → Prop) (inner : Renderer) (body : List Node) : Prop :=
  ∀ scope scope', Scope.AgreeOn p scope scope' → inner scope body = inner scope' body

/-- The condition of a branch without one is the empty text, which mentions nothing. -/
theorem mentionsOnly_condition {place : Branch} {condition? : Option String} {body : List Node}
    (h : ∀ expr, expression? (.branch place condition? body) = some expr → MentionsOnly p expr) :
    MentionsOnly p (condition?.getD "") := by
  cases condition? with
  | some condition => exact h condition rfl
  | none =>
    have hempty : Expr.namesIn "" = [] := by decide +kernel
    intro name hname
    rw [Option.getD_none, hempty] at hname
    exact absurd hname List.not_mem_nil

theorem evaluate_eq_of_agreeOn (hscope : Scope.AgreeOn p scope scope') {expr : String}
    (hexpr : MentionsOnly p expr) : evaluate scope expr = evaluate scope' expr := by
  unfold evaluate
  rw [Expr.evaluate_eq_of_agreeOn (hscope.mono hexpr)]

theorem outputTag_eq_of_agreeOn (hscope : Scope.AgreeOn p scope scope') {expr : String}
    (hexpr : MentionsOnly p expr) : outputTag scope expr = outputTag scope' expr := by
  unfold outputTag
  rw [evaluate_eq_of_agreeOn hscope hexpr]

/-- The loop's variable has the same value on both sides, so the scopes of an item agree. -/
theorem loopBody_eq_of_agreeOn (hscope : Scope.AgreeOn p scope scope') {body : List Node}
    (hbody : ReadsOnly p inner body) (name : String) (items : List Value) :
    loopBody inner scope name body items = loopBody inner scope' name body items := by
  induction items with
  | nil => rfl
  | cons item rest ih => rw [loopBody, loopBody, ih, hbody _ _ (hscope.extend name item)]

theorem loop_eq_of_agreeOn (hscope : Scope.AgreeOn p scope scope') {source : String}
    (hsource : MentionsOnly p source) {body : List Node} (hbody : ReadsOnly p inner body)
    (name : String) : loop inner scope name source body = loop inner scope' name source body := by
  unfold loop loopOver
  simp only [evaluate_eq_of_agreeOn hscope hsource, loopBody_eq_of_agreeOn hscope hbody]

/-- A node is rendered the same way if its expression and what is directly inside it is. -/
theorem node_eq_of_agreeOn (hscope : Scope.AgreeOn p scope scope') {n : Node}
    (hexpr : ∀ expr, expression? n = some expr → MentionsOnly p expr)
    (hinner : ∀ body, chain.Inside [n] body → ReadsOnly p inner body) (taken : Bool) :
    node chain inner scope taken n = node chain inner scope' taken n := by
  cases n with
  | text s => rfl
  | bare => rfl
  | output expr => simp only [node, outputTag_eq_of_agreeOn hscope (hexpr expr rfl)]
  | loop name source body =>
    have hbody := hinner body (.loop List.mem_cons_self)
    simp only [node, loop_eq_of_agreeOn hscope (hexpr source rfl) hbody]
  | branch place condition? body =>
    have hcondition := evaluate_eq_of_agreeOn hscope (mentionsOnly_condition hexpr)
    have hbody := hinner body (.branch List.mem_cons_self) scope scope' hscope
    cases place <;> simp only [node, condition, test, hcondition, hbody]
  | block name own =>
    simp only [node]
    cases hfound : chain.findBlock? name with
    | none => rfl
    | some body =>
      simp only [hinner body (.block List.mem_cons_self hfound) scope scope' hscope]

theorem nodes_eq_of_agreeOn (hscope : Scope.AgreeOn p scope scope') {s : List Node}
    (hexpr : ∀ n ∈ s, ∀ expr, expression? n = some expr → MentionsOnly p expr)
    (hinner : ∀ body, chain.Inside s body → ReadsOnly p inner body) (taken : Bool) :
    nodes chain inner scope taken s = nodes chain inner scope' taken s := by
  induction s generalizing taken with
  | nil => rfl
  | cons n rest ih =>
    have hfirst := node_eq_of_agreeOn hscope (hexpr n List.mem_cons_self) fun body hbody =>
      hinner body (hbody.mono (List.cons_subset_cons _ (List.nil_subset _)))
    have hrest := ih (fun n hn => hexpr n (List.mem_cons_of_mem _ hn)) fun body hbody =>
      hinner body (hbody.mono (List.subset_cons_self ..))
    unfold nodes
    simp only [hfirst, hrest]

/-- If rendering stays among sequences that mention names with a property only, scopes that agree
    on these names make no difference. -/
theorem sequence_eq_of_agreeOn (held : List Node → Prop)
    (hinside : ∀ s body, held s → chain.Inside s body → held body)
    (hexpr : ∀ s, held s → ∀ n ∈ s, ∀ expr, expression? n = some expr → MentionsOnly p expr)
    (limit : Nat) {s : List Node} (hs : held s) : ReadsOnly p (sequence chain limit) s := by
  induction limit generalizing s with
  | zero =>
    intro scope scope' hscope
    rfl
  | succ limit ih =>
    intro scope scope' hscope
    exact nodes_eq_of_agreeOn hscope (hexpr s hs) (fun body hbody => ih (hinside s body hs hbody))
      false

/-- Rendering takes a scope for its lookups. -/
theorem sequence_eq_of_lookup (chain : Chain) (limit : Nat) (s : List Node)
    (h : ∀ n, scope.lookup n = scope'.lookup n) :
    sequence chain limit scope s = sequence chain limit scope' s := by
  have hreads : ReadsOnly (fun _ => True) (sequence chain limit) s :=
    sequence_eq_of_agreeOn (fun _ => True) (fun _ _ _ _ => trivial)
      (fun _ _ _ _ _ _ _ _ => trivial) limit trivial
  exact hreads scope scope' fun n _ => h n

/-! ### Inside a loop -/

/-- The body once for each item may be rendered in any scopes in which the variable has the item as
    its value and every other name has the value that it has around the loop. -/
theorem loopBody_eq_foldr (limit : Nat) (name : String) (body : List Node) {inside : Value → Scope}
    (hinside : ∀ item n, (inside item).lookup n = if n = name then item else scope.lookup n)
    (items : List Value) :
    loopBody (sequence chain limit) scope name body items
      = items.foldr (fun item => andThen (sequence chain limit (inside item) body))
          (.ok .empty) := by
  induction items with
  | nil => rfl
  | cons item rest ih =>
    have hitem : sequence chain limit (scope.extend [(name, item)]) body
        = sequence chain limit (inside item) body := by
      apply sequence_eq_of_lookup
      intro n
      rw [Scope.lookup_extend_one, hinside]
    rw [loopBody, ih, hitem]
    rfl

/-- A source that has items is neither `undefined` nor `null`. -/
theorem loop_of_items {name source : String} {body : List Node} {v : Value} {noted : Output}
    {items : List Value} (hvalue : evaluate scope source = .ok (v, noted))
    (hitems : v.items? = some items) :
    loop inner scope name source body
      = andThen (.ok noted) (loopBody inner scope name body items) := by
  rw [loop, hvalue]
  cases v with
  | undefined => cases hitems
  | null => cases hitems
  | _ =>
    simp only [bind, Except.bind, loopOver, hitems]
    rfl

/-- A loop leaves the scope and the conditional around it as they were. -/
theorem nodes_loop (taken : Bool) (name source : String) (body rest : List Node) :
    nodes chain inner scope taken (.loop name source body :: rest)
      = andThen (loop inner scope name source body) (nodes chain inner scope taken rest) := by
  rw [nodes, node]
  cases loop inner scope name source body <;> rfl

/-- The value of a text, and the outcome of rendering templates that were read, depend on nothing
    but the values of the names that are mentioned, however the scopes are made.  In a loop's body
    only the loop's variable has another value than around the loop, for one item at a time; what
    stands behind the loop is rendered in the scope around it. -/
theorem depends_on_mentioned :
    (∀ (text : String) (scope scope' : Scope),
      (∀ n ∈ Expr.namesIn text, scope.lookup n = scope'.lookup n) →
      Expr.evaluate scope text = Expr.evaluate scope' text) ∧
    (∀ chain : Chain, (∀ layer ∈ chain.layers, ∃ rules text,
        (Document.read rules text).result = .ok layer.document) →
      (∀ scope scope' : Scope, (∀ n ∈ chain.mentioned, scope.lookup n = scope'.lookup n) →
        ∀ limit, sequence chain limit scope chain.root = sequence chain limit scope' chain.root) ∧
      ∀ bindings bindings', (∀ n ∈ chain.mentioned,
          (Scope.ofPairs bindings).lookup n = (Scope.ofPairs bindings').lookup n) →
        chain.render bindings = chain.render bindings') ∧
    (∀ (chain : Chain) (limit : Nat) (scope : Scope) (taken : Bool) (name source : String)
        (body rest : List Node) (v : Value) (noted : Output) (items : List Value),
      evaluate scope source = .ok (v, noted) → v.items? = some items →
      ∀ inside : Value → Scope,
        (∀ item n, (inside item).lookup n = if n = name then item else scope.lookup n) →
        nodes chain (sequence chain limit) scope taken (.loop name source body :: rest)
          = andThen
              (andThen (.ok noted)
                (items.foldr (fun item => andThen (sequence chain limit (inside item) body))
                  (.ok .empty)))
              (nodes chain (sequence chain limit) scope taken rest)) := by
  refine ⟨fun text scope scope' h => Expr.evaluate_eq_of_agreeOn h, ?_, ?_⟩
  · intro chain hread
    have hregistered : ∀ layer ∈ chain.layers, layer.document.Registered := by
      intro layer hlayer
      obtain ⟨rules, text, htext⟩ := hread layer hlayer
      exact Document.registered_of_read htext
    have hroot : ∀ limit, ReadsOnly (· ∈ chain.mentioned) (sequence chain limit) chain.root := by
      intro limit
      apply sequence_eq_of_agreeOn chain.Holds
      · intro s body hs hbody
        exact hs.inside hregistered hbody
      · intro s hs n hn expr hexpr name hname
        exact Chain.mem_mentioned hs hn hexpr hname
      · exact chain.holds_root
    refine ⟨fun scope scope' h limit => hroot limit scope scope' h, ?_⟩
    intro bindings bindings' h
    exact hroot Chain.maxSequences _ _ h
  · intro chain limit scope taken name source body rest v noted items hvalue hitems inside hinside
    rw [nodes_loop, loop_of_items hvalue hitems, loopBody_eq_foldr limit name body hinside]

/-- Two loops inside each other that bind the name of an outer variable, the inner one in a
    block. -/
def shadowingChain : Chain where
  template := ⟨"below", documentOf
    "{% block b %}{% for x in [1] %}{{ x }}{% endfor %}{{ x }}{% endblock %}"⟩
  ancestors := [⟨"above", documentOf
    "{{ x }}{% for x in xs %}{% block b %}{% endblock %}{% endfor %}{{ x }}"⟩]

/-- Values for the names that `shadowingChain` mentions. -/
def shadowedBindings : List (String × Value) :=
  [("x", .string "o"), ("xs", .list [.string "a", .string "b"])]

/-- The same values, among others. -/
def widerBindings : List (String × Value) :=
  [("y", .int 7), ("xs", .list [.string "a", .string "b"]), ("z", .undefined), ("x", .string "o")]

/-- The wider bindings make no difference to `shadowingChain`, and its loops give the outer variable
    back. -/
theorem shadowingChain_unmoved :
    Expr.evaluate (.ofPairs shadowedBindings) "[x, xs]"
      = Expr.evaluate ((Scope.ofPairs widerBindings).extend [("y", .null)]) "[x, xs]" ∧
    (shadowingChain.render shadowedBindings).map (·.text) = .ok "o1a1bo" ∧
    shadowingChain.render shadowedBindings = shadowingChain.render widerBindings ∧
    ∀ rest, nodes shadowingChain (sequence shadowingChain 1) (.ofPairs shadowedBindings) false
        (.loop "x" "xs" [.output "x"] :: rest)
      = andThen (.ok ⟨"ab", []⟩)
          (nodes shadowingChain (sequence shadowingChain 1) (.ofPairs shadowedBindings) false
            rest) := by
  have hreads : Expr.read "x" = .ok (.name "x") ∧ Expr.read "xs" = .ok (.name "xs") := by cbv
  obtain ⟨hx, hxs⟩ := hreads
  have hsource : evaluate (.ofPairs shadowedBindings) "xs"
      = .ok (.list [.string "a", .string "b"], .empty) := by
    rw [evaluate, Expr.evaluate, hxs]
    rfl
  obtain ⟨htexts, hchains, hloops⟩ := depends_on_mentioned
  have hagree : ∀ n ∈ ["x", "xs"],
      (Scope.ofPairs shadowedBindings).lookup n = (Scope.ofPairs widerBindings).lookup n := by
    intro n hn
    rcases List.mem_pair.1 hn with rfl | rfl <;> rfl
  have hread : ∀ layer ∈ shadowingChain.layers, ∃ rules text,
      (Document.read rules text).result = .ok layer.document := by
    intro layer hlayer
    rcases List.mem_cons.1 hlayer with rfl | hlayer
    · exact ⟨.default, _, read_documentOf (by decide +kernel)⟩
    · obtain rfl := List.mem_singleton.1 hlayer
      exact ⟨.default, _, read_documentOf (by decide +kernel)⟩
  have hmentioned : ∀ n ∈ shadowingChain.mentioned, n ∈ ["x", "xs"] := by decide +kernel
  obtain ⟨-, hrenders⟩ := hchains shadowingChain hread
  refine ⟨?_, by decide +kernel, hrenders _ _ fun n hn => hagree n (hmentioned n hn), ?_⟩
  · have hnames : Expr.namesIn "[x, xs]" = ["x", "xs"] := by decide +kernel
    apply htexts
    intro n hn
    rw [hnames] at hn
    rw [hagree n hn]
    rcases List.mem_pair.1 hn with rfl | rfl <;> rfl
  · intro rest
    have hloop := hloops shadowingChain 1 _ false "x" "xs" [.output "x"] rest _ _ _ hsource rfl
      (fun item => (Scope.ofPairs shadowedBindings).extend [("x", item)])
      fun item n => Scope.lookup_extend_one _ "x" n item
    have hitem : ∀ t, sequence shadowingChain 1
        ((Scope.ofPairs shadowedBindings).extend [("x", .string t)]) [.output "x"]
        = .ok ⟨t, []⟩ := by
      intro t
      have hvalue : evaluate ((Scope.ofPairs shadowedBindings).extend [("x", .string t)]) "x"
          = .ok (.string t, .empty) := by
        rw [evaluate, Expr.evaluate, hx]
        rfl
      rw [sequence, nodes, node, outputTag, hvalue]
      show Except.ok (Output.empty ++ ⟨t, []⟩ ++ Output.empty) = _
      rw [Output.empty_append, Output.append_empty]
    rw [hloop, List.foldr_cons, List.foldr_cons, List.foldr_nil, hitem, hitem]
    rfl

end Render

end TextTemplate
