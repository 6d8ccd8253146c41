import TextTemplate.Proofs.Markup.Opening
import TextTemplate.Proofs.Markup.Strictness

/-! # Conditionals in a sequence

  The branches of a conditional are nodes of the sequence around it, among other
  nodes.  `Segment` puts a sequence together again: each segment is a node that
  is no branch, or a conditional with all of its branches, the first one, those
  with further conditions, and perhaps one for the case that none is true.

  Every sequence of a template that was read is made of segments, whatever the
  rules are, and each conditional among them is one `if … endif` of the text.
  So a branch that goes on with a conditional directly follows a branch of the
  same conditional.
-/

namespace TextTemplate.Markup

/-! ### Segments -/

/-- Is the node a branch of a conditional? -/
def Node.isBranch : Node → Bool
  | .branch _ _ _ => true
  | _ => false

/-- A conditional with all of its branches. -/
structure Conditional where
  condition : String
  body : List Node
  /-- The further conditions, each with its body. -/
  more : List (String × List Node)
  /-- The body of the branch that is taken if no condition is true. -/
  otherwise? : Option (List Node)

namespace Conditional

/-- The branches with a condition. -/
def tests (c : Conditional) : List (String × List Node) := (c.condition, c.body) :: c.more

/-- The nodes of the branches that go on with a conditional. -/
def further (more : List (String × List Node)) (otherwise? : Option (List Node)) : List Node :=
  more.map (fun test => .branch .next (some test.1) test.2) ++
    otherwise?.toList.map (.branch .otherwise none)

/-- The nodes of a conditional. -/
def nodes (c : Conditional) : List Node :=
  .branch .first (some c.condition) c.body :: further c.more c.otherwise?

/-- The items that go on with a conditional, and end it. -/
def walkFurther (more : List (String × List Node)) (otherwise? : Option (List Node)) : List Item :=
  more.flatMap (fun test => .directive (.elseIf test.1) :: Node.walkIn test.2) ++
    otherwise?.toList.flatMap (fun body => .directive .otherwise :: Node.walkIn body) ++
    [.directive .endIf]

/-- The items of a conditional, from its `if` to its `endif`. -/
def walk (c : Conditional) : List Item :=
  .directive (.startIf c.condition) :: (Node.walkIn c.body ++ walkFurther c.more c.otherwise?)

end Conditional

/-- A part of a sequence that is rendered by itself. -/
inductive Segment where
  | plain (node : Node) (hnode : node.isBranch = false)
  | conditional (c : Conditional)

namespace Segment

/-- The nodes of a segment. -/
def nodes : Segment → List Node
  | .plain node _ => [node]
  | .conditional c => c.nodes

/-- The items of a segment, in the order of the text. -/
def walk : Segment → List Item
  | .plain node _ => node.walk []
  | .conditional c => c.walk

end Segment

/-- The sequence is made of the segments. -/
def MadeOf (s : List Node) (segments : List Segment) : Prop := s = segments.flatMap Segment.nodes

/-- A sequence that is made of segments starts with none that goes on with a conditional. -/
theorem MadeOf.goesOn {s : List Node} {segments : List Segment} (h : MadeOf s segments) :
    Node.goesOn s = false := by
  subst h
  cases segments with
  | nil => rfl
  | cons first rest =>
    cases first with
    | conditional c => rfl
    | plain node hnode =>
      cases node with
      | branch place condition? body => cases hnode
      | _ => rfl

/-! ### Walking segments -/

/-- The branches that go on with a conditional give the items that do so, and the end. -/
theorem walkIn_further (more : List (String × List Node)) (otherwise? : Option (List Node))
    {rest : List Node} (hrest : Node.goesOn rest = false) :
    Node.conditionalEnd (Conditional.further more otherwise? ++ rest) ++
        Node.walkIn (Conditional.further more otherwise? ++ rest)
      = Conditional.walkFurther more otherwise? ++ Node.walkIn rest := by
  have hend := Node.conditionalEnd_of_not_goesOn hrest
  induction more with
  | nil =>
    cases otherwise? with
    | none => simp [Conditional.further, Conditional.walkFurther, hend]
    | some body =>
      simp [Conditional.further, Conditional.walkFurther, Node.walkIn, Node.walk,
        Node.conditionalEnd_otherwise, Branch.directive, hend]
  | cons test more ih =>
    -- A further branch ends nothing; what follows it is walked as before.
    have hfurther : Conditional.further (test :: more) otherwise?
        = .branch .next (some test.1) test.2 :: Conditional.further more otherwise? := rfl
    have hwalk : Conditional.walkFurther (test :: more) otherwise?
        = .directive (.elseIf test.1) ::
          (Node.walkIn test.2 ++ Conditional.walkFurther more otherwise?) := by
      simp [Conditional.walkFurther]
    rw [hfurther, hwalk, List.cons_append, Node.conditionalEnd_next, Node.walkIn, Node.walk]
    simp [Branch.directive, ih]

/-- A sequence is walked segment by segment. -/
theorem MadeOf.walkIn {s : List Node} {segments : List Segment} (h : MadeOf s segments) :
    Node.walkIn s = segments.flatMap Segment.walk := by
  induction segments generalizing s with
  | nil =>
    subst h
    rfl
  | cons first rest ih =>
    have hrest : MadeOf (rest.flatMap Segment.nodes) rest := rfl
    have hwalk := ih hrest
    subst h
    rw [List.flatMap_cons, List.flatMap_cons, ← hwalk]
    cases first with
    | conditional c =>
      have hfurther := walkIn_further c.more c.otherwise? hrest.goesOn
      show Node.walkIn (.branch .first (some c.condition) c.body ::
        (Conditional.further c.more c.otherwise? ++ rest.flatMap Segment.nodes)) = _
      rw [Node.walkIn, Node.walk, List.cons_append, List.append_assoc, hfurther]
      simp [Segment.walk, Conditional.walk, Branch.directive]
    | plain node hnode =>
      cases node with
      | branch place condition? body => cases hnode
      | _ => rfl

/-! ### Neighbours -/

/-- Each branch that goes on with a conditional directly follows one that it can go on from. -/
def Adjacent (s : List Node) : Prop :=
  ∀ before place condition? body after, s = before ++ .branch place condition? body :: after →
    place ≠ .first →
    ∃ front place' condition?' body', before = front ++ [.branch place' condition?' body'] ∧
      place' ≠ .otherwise

/-- The branches of one conditional follow each other. -/
theorem adjacent_nodes (c : Conditional) : Adjacent c.nodes := by
  intro before place condition? body after hsplit hplace
  have hnonempty : before ≠ [] := by
    rintro rfl
    obtain ⟨hfirst, -⟩ := List.cons.inj hsplit
    cases hfirst
    exact hplace rfl
  obtain ⟨front, last, rfl⟩ := List.eq_nil_or_concat before |>.resolve_left hnonempty
  -- Something follows the node, so it is not the branch without a condition.
  have hmem : last ∈ c.nodes.dropLast := by
    rw [hsplit, List.dropLast_append_of_ne_nil (by simp)]
    simp
  have hcondition : ∃ place' condition?' body', last = .branch place' condition?' body' ∧
      place' ≠ .otherwise := by
    have hfront : last ∈ Node.branch .first (some c.condition) c.body ::
        c.more.map (fun test => .branch .next (some test.1) test.2) := by
      unfold Conditional.nodes Conditional.further at hmem
      cases hother : c.otherwise? with
      | none =>
        rw [hother, Option.toList_none, List.map_nil, List.append_nil] at hmem
        exact List.dropLast_subset _ hmem
      | some body =>
        rw [hother, Option.toList_some, List.map_singleton, ← List.cons_append,
          List.dropLast_concat] at hmem
        exact hmem
    rcases List.mem_cons.1 hfront with rfl | hmore
    · exact ⟨_, _, _, rfl, by decide⟩
    · obtain ⟨test, -, rfl⟩ := List.mem_map.1 hmore
      exact ⟨_, _, _, rfl, by decide⟩
  obtain ⟨place', condition?', body', rfl, hplace'⟩ := hcondition
  exact ⟨front, place', condition?', body', by simp, hplace'⟩

/-- In a sequence that is made of segments, branches that go on with a conditional follow those that
    they go on from. -/
theorem MadeOf.adjacent {s : List Node} {segments : List Segment} (h : MadeOf s segments) :
    Adjacent s := by
  induction segments generalizing s with
  | nil =>
    subst h
    intro before place condition? body after hsplit
    simp at hsplit
  | cons first rest ih =>
    have hrest : Adjacent (rest.flatMap Segment.nodes) := ih rfl
    subst h
    intro before place condition? body after hsplit hplace
    rw [List.flatMap_cons] at hsplit
    have hfirst : Adjacent first.nodes := by
      cases first with
      | conditional c => exact adjacent_nodes c
      | plain node hnode =>
        intro before place condition? body after hsplit
        have hmem : Node.branch place condition? body ∈ [node] := by
          rw [show [node] = _ from hsplit]
          simp
        rw [← List.mem_singleton.1 hmem] at hnode
        cases hnode
    -- The branch stands in the first segment or behind it.
    rcases List.append_eq_append_iff.1 hsplit with ⟨inner, rfl, hback⟩ | ⟨inner, hfront, hback⟩
    · obtain ⟨front, place', condition?', body', rfl, hplace'⟩ :=
        hrest inner place condition? body after hback hplace
      exact ⟨first.nodes ++ front, place', condition?', body', by simp, hplace'⟩
    · cases inner with
      | nil =>
        have hstart := hrest [] place condition? body after hback.symm hplace
        obtain ⟨front, place', condition?', body', hnil, -⟩ := hstart
        simp at hnil
      | cons node inner =>
        obtain ⟨rfl, -⟩ := List.cons.inj hback
        exact hfirst before place condition? body inner hfront hplace

/-! ### Templates are made of segments -/

/-- What derivations make is made of segments: a sequence, and the branches that go on with a
    conditional. -/
def Part.Arranged (nodes : List Node) : Part → Prop
  | .sequence => ∃ segments, MadeOf nodes segments
  | .branches => ∃ more otherwise?, nodes = Conditional.further more otherwise?

/-- Every sequence inside the nodes is made of segments. -/
def ArrangedInside (nodes : List Node) : Prop :=
  ∀ o ∈ Node.openingsIn nodes, ∃ segments, MadeOf o.2 segments

theorem ArrangedInside.append {a b : List Node} (ha : ArrangedInside a) (hb : ArrangedInside b) :
    ArrangedInside (a ++ b) := by
  induction a with
  | nil => exact hb
  | cons node rest ih =>
    intro o ho
    rw [List.cons_append, Node.openingsIn] at ho
    rcases List.mem_append.1 ho with hnode | hmore
    · exact ha o (List.mem_append_left _ hnode)
    · exact ih (fun o ho => ha o (List.mem_append_right _ ho)) o hmore

/-- A node with a body that is arranged inside and out. -/
theorem ArrangedInside.cons {node : Node} {name? : Option String} {body rest : List Node}
    (hnode : node.openings = (name?, body) :: Node.openingsIn body)
    (hbody : (∃ segments, MadeOf body segments) ∧ ArrangedInside body)
    (hrest : ArrangedInside rest) : ArrangedInside (node :: rest) := by
  intro o ho
  rw [Node.openingsIn, hnode] at ho
  rcases List.mem_append.1 ho with hfirst | hmore
  · rcases List.mem_cons.1 hfirst with rfl | hinside
    · exact hbody.1
    · exact hbody.2 o hinside
  · exact hrest o hmore

/-- What derivations make is made of segments, and so is all inside it. -/
theorem Derives.arranged {part : Part} {depth : Nat} {items : List Item} {nodes : List Node}
    (h : Derives part depth items nodes) : part.Arranged nodes ∧ ArrangedInside nodes := by
  induction h with
  | nil => exact ⟨⟨[], rfl⟩, nofun⟩
  | @text _ s _ _ _ ih =>
    obtain ⟨⟨segments, rfl⟩, hinside⟩ := ih
    exact ⟨⟨.plain (.text s) rfl :: segments, rfl⟩, hinside⟩
  | @output _ expr _ _ _ ih =>
    obtain ⟨⟨segments, rfl⟩, hinside⟩ := ih
    exact ⟨⟨.plain (.output expr) rfl :: segments, rfl⟩, hinside⟩
  | extends_ _ ih | unknown _ ih => exact ih
  | @conditional _ condition _ _ _ body _ _ _ _ _ ihbody ihmore ih =>
    obtain ⟨⟨more, otherwise?, rfl⟩, hmore⟩ := ihmore
    obtain ⟨⟨segments, rfl⟩, hinside⟩ := ih
    refine ⟨⟨.conditional ⟨condition, body, more, otherwise?⟩ :: segments, rfl⟩, ?_⟩
    exact .cons rfl ihbody (hmore.append hinside)
  | @loop _ name source _ _ body _ _ _ ihbody ih =>
    obtain ⟨⟨segments, rfl⟩, hinside⟩ := ih
    exact ⟨⟨.plain (.loop name source body) rfl :: segments, rfl⟩, .cons rfl ihbody hinside⟩
  | @block _ name _ _ _ body _ _ _ _ ihbody ih =>
    obtain ⟨⟨segments, rfl⟩, hinside⟩ := ih
    exact ⟨⟨.plain (.block name body) rfl :: segments, rfl⟩, .cons rfl ihbody hinside⟩
  | @elseIf _ condition _ _ body _ _ _ ihbody ihmore =>
    -- This branch goes on with the conditional before it, and starts no segment.
    obtain ⟨⟨more, otherwise?, rfl⟩, hmore⟩ := ihmore
    exact ⟨⟨(condition, body) :: more, otherwise?, rfl⟩, .cons rfl ihbody hmore⟩
  | @otherwise _ _ body _ ihbody => exact ⟨⟨[], some body, rfl⟩, .cons rfl ihbody nofun⟩
  | endIf => exact ⟨⟨[], none, rfl⟩, nofun⟩

/-! ### Rules of all kinds -/

namespace Builder

/-- Tokens that strict rules let pass are taken by the default rules in the same way. -/
theorem tokens_default {rules : Rules} {b b' : Builder} {ts : List Token}
    (h : (b.tokens rules ts).2 = .ok b') : (b.tokens .default ts).2 = .ok b' := by
  have hpair : b.tokens rules ts = ((b.tokens rules ts).1, .ok b') := by rw [← h]
  rw [(tokens_eq_ok_iff.1 hpair).1]

/-- Directives that were taken are well-formed. -/
theorem items_of_tokens {rules : Rules} {b b' : Builder} {ts : List Token}
    (h : (b.tokens rules ts).2 = .ok b') : ∃ items, ts.mapM Token.item = .ok items := by
  induction ts generalizing b with
  | nil => exact ⟨[], rfl⟩
  | cons t rest ih =>
    cases htoken : (b.token rules t).2 with
    | error fault =>
      rw [tokens_cons_error htoken] at h
      cases h
    | ok b₁ =>
      rw [tokens_cons_ok htoken] at h
      obtain ⟨items, hitems⟩ := ih h
      obtain ⟨item, hitem, -⟩ := takes_of_token htoken
      exact ⟨item :: items, Token.mapM_item_cons_iff.2 ⟨item, items, hitem, hitems, rfl⟩⟩

end Builder

/-- A text that was read is cut into tokens that say something, the grammar derives its tree from
    that, and the default rules make the same of it. -/
theorem Document.derives_of_read {rules : Rules} {text : String} {document : Document}
    (h : (Document.read rules text).result = .ok document) :
    (Document.read .default text).result = .ok document ∧
    ∃ tokens items, Token.scan text = .ok tokens ∧ tokens.mapM Token.item = .ok items ∧
      Derives .sequence maxNesting items document.root := by
  unfold Document.read at h ⊢
  cases hscan : Token.scan text with
  | error fault =>
    rw [hscan] at h
    cases h
  | ok tokens =>
    rw [hscan] at h
    obtain ⟨b, htokens, hfinish⟩ := ofTokens_ok_iff.1 h
    obtain ⟨items, hitems⟩ := Builder.items_of_tokens htokens
    have hdefault : (Document.ofTokens .default tokens).result = .ok document :=
      ofTokens_ok_iff.2 ⟨b, Builder.tokens_default htokens, hfinish⟩
    refine ⟨hdefault, tokens, items, rfl, hitems, ?_⟩
    exact (ofTokens_ok_iff_derives hitems).1 ⟨document, hdefault, rfl⟩

/-- The sequences of a document: its root and all bodies in it. -/
def Document.sequences (document : Document) : List (List Node) :=
  document.root :: (Node.openingsIn document.root).map (·.2)

/-- Each sequence of a document that was read is made of segments. -/
theorem Document.madeOf_of_read {rules : Rules} {text : String} {document : Document}
    (h : (Document.read rules text).result = .ok document) {s : List Node}
    (hs : s ∈ document.sequences) : ∃ segments, MadeOf s segments := by
  obtain ⟨-, tokens, items, -, -, hderives⟩ := Document.derives_of_read h
  obtain ⟨hroot, hinside⟩ := hderives.arranged
  rcases List.mem_cons.1 hs with rfl | hs
  · exact hroot
  · obtain ⟨o, ho, rfl⟩ := List.mem_map.1 hs
    exact hinside o ho

end TextTemplate.Markup
