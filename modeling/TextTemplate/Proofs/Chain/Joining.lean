import TextTemplate.Proofs.Chain.Branches
import TextTemplate.Proofs.Markup.Joining

/-! # Rendering two texts as one

  A template that consists of two texts writes what the first one does, and then
  what the second one does: a sequence is rendered in its two parts
  (`nodes_append`), since no flag of the first part counts in the second one, and
  a text in two pieces is the whole text (`nodes_fused`).

  Blocks are looked up by name in the whole template.  As long as the parts have
  no name in common, what is found is what the part itself registers, at every
  depth (`sequence_eq_of_blocks`).
-/

namespace TextTemplate.Render

open Markup

variable {chain chain' : Chain} {inner : Renderer} {scope : Scope}

/-! ### Sequences side by side -/

/-- A sequence before one that does not look at the flag. -/
theorem nodes_append {s : List Node}
    (hs : ∀ taken, nodes chain inner scope taken s = nodes chain inner scope false s)
    (before : List Node) (taken : Bool) : nodes chain inner scope taken (before ++ s)
      = andThen (nodes chain inner scope taken before) (nodes chain inner scope false s) := by
  induction before generalizing taken with
  | nil =>
    rw [List.nil_append, hs taken]
    exact (ok_empty_andThen _).symm
  | cons n rest ih =>
    rw [List.cons_append, nodes, nodes]
    cases node chain inner scope taken n with
    | error fault => rfl
    | ok made =>
      obtain ⟨first, taken'⟩ := made
      show andThen (.ok first) (nodes chain inner scope taken' (rest ++ s))
        = andThen (andThen (.ok first) (nodes chain inner scope taken' rest)) _
      rw [ih taken', andThen_assoc]

/-- A text in two pieces is the whole text. -/
theorem nodes_text_append (s t : String) (taken : Bool) (rest : List Node) :
    nodes chain inner scope taken (.text (s ++ t) :: rest)
      = nodes chain inner scope taken (.text s :: .text t :: rest) := by
  simp only [nodes, node, bind, Except.bind, pure, Except.pure]
  cases nodes chain inner scope taken rest with
  | error fault => rfl
  | ok made =>
    show Except.ok (⟨s, []⟩ ++ ⟨t, []⟩ ++ made : Output) = Except.ok (⟨s, []⟩ ++ (⟨t, []⟩ ++ made))
    rw [Output.append_assoc]

/-- Texts that have become one make no difference. -/
theorem nodes_fused {a b whole : List Node} (h : Fused Node.text a b whole) (taken : Bool) :
    nodes chain inner scope taken whole = nodes chain inner scope taken (a ++ b) := by
  cases h with
  | beside => rfl
  | across front back s t =>
    rw [List.append_assoc]
    induction front generalizing taken with
    | nil => exact nodes_text_append s t taken back
    | cons n rest ih =>
      rw [List.cons_append, List.cons_append, nodes, nodes]
      simp only [ih]

/-! ### Blocks of a part -/

/-- A node depends on the blocks that the chain finds for it only. -/
theorem node_of_findBlock? {n : Node}
    (h : ∀ name own, n = .block name own → chain.findBlock? name = chain'.findBlock? name)
    (taken : Bool) : node chain inner scope taken n = node chain' inner scope taken n := by
  cases n with
  | block name own => simp only [node, h name own rfl]
  | branch place condition? body => cases place <;> rfl
  | _ => rfl

/-- A sequence depends on the blocks that the chain finds for its nodes only. -/
theorem nodes_of_findBlock? {s : List Node}
    (h : ∀ name own, .block name own ∈ s → chain.findBlock? name = chain'.findBlock? name)
    (taken : Bool) : nodes chain inner scope taken s = nodes chain' inner scope taken s := by
  induction s generalizing taken with
  | nil => rfl
  | cons n rest ih =>
    have hfirst : ∀ taken, node chain inner scope taken n = node chain' inner scope taken n :=
      node_of_findBlock? fun name own hn => h name own (hn ▸ List.mem_cons_self)
    have hrest := ih fun name own hmem => h name own (List.mem_cons_of_mem _ hmem)
    rw [nodes, nodes]
    simp only [hfirst, hrest]

/-- Chains that find the blocks of a tree in the tree itself render its sequences alike. -/
theorem sequence_eq_of_blocks {root : List Node}
    (h : ∀ name body, (Blocks.lastOfEach (Node.blocksIn root)).find? name = some body →
      chain.findBlock? name = some body ∧ chain'.findBlock? name = some body)
    (limit : Nat) (scope : Scope) {s : List Node} {after : List Opening}
    (hs : Below root s after) : sequence chain limit scope s = sequence chain' limit scope s := by
  induction limit generalizing s scope after with
  | zero => rfl
  | succ limit ih =>
    -- A block of the sequence is registered, and its last body of the name stands in the tree.
    have hblock : ∀ name own, Node.block name own ∈ s → ∃ body after',
        chain.findBlock? name = some body ∧ chain'.findBlock? name = some body ∧
          Below root body after' := by
      intro name own hmem
      obtain ⟨before, rest, heq⟩ := hs.of_mem hmem rfl
      obtain ⟨o, before', rest', heq', hfound⟩ :=
        hs.of_lastOfEach ⟨(some name, own), by rw [heq]; simp, rfl⟩
      obtain ⟨hchain, hchain'⟩ := h name o.2 hfound
      exact ⟨o.2, rest', hchain, hchain', (hs.later heq').1⟩
    have hinside : ∀ body, chain.Inside s body → ∀ scope,
        sequence chain limit scope body = sequence chain' limit scope body := by
      intro body hbody scope
      cases hbody with
      | branch hmem | loop hmem =>
        obtain ⟨before, rest, heq⟩ := hs.of_mem hmem rfl
        exact ih scope (hs.later heq).1
      | @block name own _ hmem hfound =>
        obtain ⟨body', after', hchain, -, hbelow⟩ := hblock name own hmem
        rw [hfound] at hchain
        obtain rfl := Option.some.inj hchain
        exact ih scope hbelow
    rw [sequence, sequence, nodes_congr hinside scope false]
    apply nodes_of_findBlock?
    intro name own hmem
    obtain ⟨body, after', hchain, hchain', -⟩ := hblock name own hmem
    rw [hchain, hchain']

/-! ### Two templates as one -/

/-- Texts that have become one are no blocks. -/
theorem blocksIn_fused {a b whole : List Node} (h : Fused Node.text a b whole) :
    Node.blocksIn whole = Node.blocksIn a ++ Node.blocksIn b := by
  cases h with
  | beside => exact Node.blocksIn_append a b
  | across front back s t =>
    rw [Node.blocksIn_append, Node.blocksIn_append, List.append_assoc]
    rfl

/-- A block of two parts is that of the second one, if it has one of the name. -/
theorem find?_lastOfEach_append (a b : List (String × List Node)) (name : String) :
    (Blocks.lastOfEach (a ++ b)).find? name
      = ((Blocks.lastOfEach b).find? name).or ((Blocks.lastOfEach a).find? name) := by
  rw [Blocks.find?_lastOfEach, Blocks.find?_lastOfEach, Blocks.find?_lastOfEach,
    List.reverse_append, List.find?_append]
  cases b.reverse.find? (·.1 == name) <;> rfl

/-- A block that is found has one of the names. -/
theorem mem_names_of_find? {blocks : Blocks} {name : String} {body : List Node}
    (h : blocks.find? name = some body) : name ∈ blocks.names := by
  obtain ⟨block, hfound, -⟩ := Option.map_eq_some_iff.1 h
  have hname : block.1 = name := by simpa using List.find?_some hfound
  exact List.mem_map.2 ⟨block, List.mem_of_find?_eq_some hfound, hname⟩

/-- A template without an ancestor finds its own blocks. -/
theorem findBlock?_derive_none (layer : Layer) (name : String) :
    (Chain.derive layer none).findBlock? name = layer.document.blocks.find? name := by
  show [layer].findSome? (fun layer => layer.document.blocks.find? name) = _
  rw [List.findSome?_cons]
  cases layer.document.blocks.find? name <;> rfl

/-- A part of a template, rendered on its own. -/
theorem sequence_part {part whole : Document} {partName wholeName : String}
    (hpart : part.Registered)
    (hwhole : ∀ name body, part.blocks.find? name = some body →
      whole.blocks.find? name = some body) (limit : Nat) (scope : Scope) :
    sequence (.derive ⟨wholeName, whole⟩ none) limit scope part.root
      = sequence (.derive ⟨partName, part⟩ none) limit scope part.root := by
  apply sequence_eq_of_blocks _ limit scope .root
  intro name body hfound
  rw [← hpart] at hfound
  rw [findBlock?_derive_none, findBlock?_derive_none]
  exact ⟨hwhole name body hfound, hfound⟩

/-- Two texts that are read, define no block of the same name and form no mark where they meet are
    read as one text.  With all variables it gives the output of the first text and then that of the
    second one, or the first failure among them. -/
theorem render_append {text text' : String} {document document' : Document}
    (h : (Document.read .default text).result = .ok document)
    (h' : (Document.read .default text').result = .ok document')
    (hnames : ∀ name ∈ document.blocks.names, name ∉ document'.blocks.names)
    (hapart : Apart text.toList text'.toList) :
    ∃ whole, (Document.read .default (text ++ text')).result = .ok whole ∧
      ∀ (name : String) (bindings : List (String × Value)),
        (Chain.derive ⟨name, whole⟩ none).render bindings
          = andThen ((Chain.derive ⟨name, document⟩ none).render bindings)
              ((Chain.derive ⟨name, document'⟩ none).render bindings) := by
  obtain ⟨whole, hread, hfused⟩ := Document.read_append h h' hapart
  refine ⟨whole, hread, fun name bindings => ?_⟩
  have hregistered := Document.registered_of_read h
  have hregistered' := Document.registered_of_read h'
  have hblocks : ∀ name, whole.blocks.find? name
      = (document'.blocks.find? name).or (document.blocks.find? name) := by
    intro name
    rw [Document.registered_of_read hread, hregistered, hregistered', blocksIn_fused hfused,
      find?_lastOfEach_append]
  -- Both parts find their own blocks in the whole.
  have hfirst : ∀ limit scope, sequence (.derive ⟨name, whole⟩ none) limit scope document.root
      = sequence (.derive ⟨name, document⟩ none) limit scope document.root := by
    apply sequence_part hregistered
    intro other body hfound
    rw [hblocks]
    cases hcommon : document'.blocks.find? other with
    | none => exact hfound
    | some body' =>
      exact absurd (mem_names_of_find? hcommon) (hnames other (mem_names_of_find? hfound))
  have hsecond : ∀ limit scope, sequence (.derive ⟨name, whole⟩ none) limit scope document'.root
      = sequence (.derive ⟨name, document'⟩ none) limit scope document'.root := by
    apply sequence_part hregistered'
    intro other body hfound
    rw [hblocks, hfound]
    rfl
  -- The second part does not look at the flag that the first one leaves.
  obtain ⟨parts, hparts⟩ := Document.madeOf_of_read h' List.mem_cons_self
  have hflag : ∀ {chain inner scope} taken, nodes chain inner scope taken document'.root
      = nodes chain inner scope false document'.root := by
    intro chain inner scope taken
    rw [nodes_eq_segments hparts, nodes_eq_segments hparts]
  show sequence _ Chain.maxSequences (.ofPairs bindings) whole.root
    = andThen (sequence _ Chain.maxSequences (.ofPairs bindings) document.root)
        (sequence _ Chain.maxSequences (.ofPairs bindings) document'.root)
  rw [← hfirst, ← hsecond]
  show nodes _ _ _ false whole.root = andThen (nodes _ _ _ false _) (nodes _ _ _ false _)
  rw [nodes_fused hfused, nodes_append hflag]

/-- A text that ends with half a mark, before a text that does not complete it. -/
theorem halfMark_render : ∃ whole,
    (Document.read .default ("{% block m %}a{% endblock %}\x7b" ++ "b{{ x }}")).result
      = .ok whole ∧
    ∀ (name : String) (bindings : List (String × Value)),
      (Chain.derive ⟨name, whole⟩ none).render bindings = andThen
        ((Chain.derive ⟨name, documentOf "{% block m %}a{% endblock %}\x7b"⟩ none).render bindings)
        ((Chain.derive ⟨name, documentOf "b{{ x }}"⟩ none).render bindings) := by
  apply render_append
  · exact read_documentOf (by decide +kernel)
  · exact read_documentOf (by decide +kernel)
  · decide +kernel
  · unfold Apart
    decide +kernel

end TextTemplate.Render
