import TextTemplate.Proofs.Chain.Joining

/-! # A chain as one template

  All that rendering asks of a chain is the root of its topmost template and the
  body that is found for a name.  A child that is merged into its ancestor leaves
  both as they are: what the child defines is found first, and what it does not
  define is still found in the ancestor (`findBlock?_merge`).  So a pair of
  neighbours can be merged anywhere in a chain, and in the end a chain renders
  like the one template that has the topmost root and the merged blocks
  (`flatten`).

  Nothing else of a descendant is asked for.  The root of a template that has an
  ancestor may be replaced by any other one.
-/

namespace TextTemplate

open Markup

/-! ### Blocks over blocks -/

namespace Markup.Blocks

/-- Inherited blocks, where those of a descendant replace the ones of the same name. -/
def onTop (own inherited : Blocks) : Blocks :=
  own.foldr (fun block blocks => Pairs.put blocks block) inherited

/-- An own block is found first, else the inherited one. -/
theorem find?_onTop (own inherited : Blocks) (name : String) :
    (own.onTop inherited).find? name = (own.find? name).or (inherited.find? name) := by
  unfold onTop
  induction own with
  | nil => simp [find?]
  | cons block rest ih =>
    rw [List.foldr_cons, find?_put, ih]
    by_cases hname : block.1 = name
    · simp [find?, hname]
    · simp [find?, hname]

end Markup.Blocks

/-! ### Templates in a chain -/

/-- The template with another root. -/
def Layer.withRoot (layer : Layer) (root : List Node) : Layer :=
  { layer with document := { layer.document with root := root } }

/-- The ancestor with its child's blocks over its own, under the child's name. -/
def Layer.mergedInto (child ancestor : Layer) : Layer :=
  ⟨child.name, { ancestor.document with
    blocks := child.document.blocks.onTop ancestor.document.blocks }⟩

namespace Chain

/-- The chain with further templates below it, the most derived one first. -/
def under (chain : Chain) (below : List Layer) : Chain :=
  below.foldr (fun layer ancestor => derive layer (some ancestor)) chain

/-- The blocks of all templates, those of each one over those of its ancestors. -/
def mergedBlocks (chain : Chain) : Blocks :=
  chain.layers.foldr (fun layer blocks => layer.document.blocks.onTop blocks) []

/-- The whole chain as one template: the topmost root and the merged blocks. -/
def flatten (chain : Chain) : Layer :=
  ⟨chain.template.name, { root := chain.root, blocks := chain.mergedBlocks, parent? := none }⟩

theorem layers_derive_some (layer : Layer) (chain : Chain) :
    (derive layer (some chain)).layers = layer :: chain.layers := rfl

/-- A template's own block is found first, else what its ancestor finds. -/
theorem findBlock?_derive_some (layer : Layer) (chain : Chain) (name : String) :
    (derive layer (some chain)).findBlock? name
      = (layer.document.blocks.find? name).or (chain.findBlock? name) := by
  unfold findBlock?
  rw [layers_derive_some, List.findSome?_cons]
  cases layer.document.blocks.find? name with
  | none => simp
  | some body => simp

/-- A template with an ancestor is rendered from the ancestor's root. -/
theorem root_derive_some (layer : Layer) (chain : Chain) :
    (derive layer (some chain)).root = chain.root := by
  unfold root top derive layers
  simp [List.getLast?_cons]

/-- What templates below a chain find and where they start depends on what the chain finds and where
    it starts. -/
theorem under_congr {chain chain' : Chain}
    (hfind : ∀ name, chain.findBlock? name = chain'.findBlock? name)
    (hroot : chain.root = chain'.root) (below : List Layer) :
    (∀ name, (chain.under below).findBlock? name = (chain'.under below).findBlock? name) ∧
      (chain.under below).root = (chain'.under below).root := by
  unfold under
  induction below with
  | nil => exact ⟨hfind, hroot⟩
  | cons layer rest ih =>
    obtain ⟨ihfind, ihroot⟩ := ih
    simp only [List.foldr_cons]
    constructor
    · intro name
      rw [findBlock?_derive_some, findBlock?_derive_some, ihfind]
    · rw [root_derive_some, root_derive_some, ihroot]

/-- The blocks of the merged map are those that the chain finds. -/
theorem find?_mergedBlocks (chain : Chain) (name : String) :
    chain.mergedBlocks.find? name = chain.findBlock? name := by
  unfold mergedBlocks findBlock?
  induction chain.layers with
  | nil => simp [Blocks.find?]
  | cons layer rest ih =>
    rw [List.foldr_cons, Blocks.find?_onTop, ih, List.findSome?_cons]
    cases layer.document.blocks.find? name with
    | none => simp
    | some body => simp

/-! ### Merging a pair -/

/-- A merged pair finds the blocks that the child finds above its ancestor. -/
theorem findBlock?_merge (child ancestor : Layer) (above : Option Chain) (name : String) :
    (derive (child.mergedInto ancestor) above).findBlock? name
      = (derive child (some (derive ancestor above))).findBlock? name := by
  have hmerged : (child.mergedInto ancestor).document.blocks.find? name
      = (child.document.blocks.find? name).or (ancestor.document.blocks.find? name) :=
    Blocks.find?_onTop ..
  cases above with
  | none =>
    rw [Render.findBlock?_derive_none, findBlock?_derive_some, Render.findBlock?_derive_none,
      hmerged]
  | some above =>
    rw [findBlock?_derive_some, findBlock?_derive_some, findBlock?_derive_some, hmerged,
      Option.or_assoc]

/-- A merged pair is rendered from the root that the pair is rendered from. -/
theorem root_merge (child ancestor : Layer) (above : Option Chain) :
    (derive (child.mergedInto ancestor) above).root
      = (derive child (some (derive ancestor above))).root := by
  rw [root_derive_some]
  cases above with
  | none => rfl
  | some above => rw [root_derive_some, root_derive_some]

end Chain

/-! ### What rendering asks of a chain -/

namespace Render

variable {chain chain' : Chain}

/-- Chains that find the same blocks render every sequence alike. -/
theorem sequence_eq_of_findBlock?
    (h : ∀ name, chain.findBlock? name = chain'.findBlock? name) (limit : Nat) :
    sequence chain limit = sequence chain' limit := by
  induction limit with
  | zero => rfl
  | succ limit ih =>
    funext scope s
    unfold sequence
    rw [ih]
    apply nodes_of_findBlock?
    intro name own _
    exact h name

/-- Chains that find the same blocks and start with the same root render alike. -/
theorem render_eq_of_findBlock?
    (hfind : ∀ name, chain.findBlock? name = chain'.findBlock? name)
    (hroot : chain.root = chain'.root) : chain.render = chain'.render := by
  funext bindings
  unfold Chain.render
  rw [sequence_eq_of_findBlock? hfind, hroot]

/-- A child may be merged into its ancestor anywhere in a chain: from there and from every template
    below the same blocks are found, and the last one writes the same with all variables.  So every
    chain renders like one template with the topmost root and the merged blocks, and the root of a
    template that has an ancestor makes no difference. -/
theorem render_merge (below : List Layer) (child ancestor : Layer) (above : Option Chain) :
    (∀ n name,
      ((Chain.derive (child.mergedInto ancestor) above).under (below.drop n)).findBlock? name
        = ((Chain.derive child (some (.derive ancestor above))).under (below.drop n)).findBlock?
            name) ∧
    (∀ bindings,
      ((Chain.derive (child.mergedInto ancestor) above).under below).render bindings
        = ((Chain.derive child (some (.derive ancestor above))).under below).render bindings) ∧
    (∀ (chain : Chain) bindings,
      (Chain.derive chain.flatten none).render bindings = chain.render bindings) ∧
    ∀ root bindings,
      ((Chain.derive (child.withRoot root) (some (.derive ancestor above))).under below).render
          bindings
        = ((Chain.derive child (some (.derive ancestor above))).under below).render bindings := by
  have hmerge := fun lower => Chain.under_congr (Chain.findBlock?_merge child ancestor above)
    (Chain.root_merge child ancestor above) lower
  refine ⟨?_, ?_, ?_, ?_⟩
  · intro n name
    exact (hmerge (below.drop n)).1 name
  · intro bindings
    rw [render_eq_of_findBlock? (hmerge below).1 (hmerge below).2]
  · intro chain bindings
    have hfind : ∀ name, (Chain.derive chain.flatten none).findBlock? name
        = chain.findBlock? name := by
      intro name
      rw [findBlock?_derive_none]
      exact chain.find?_mergedBlocks name
    rw [render_eq_of_findBlock? hfind rfl]
  · intro root bindings
    -- Neither what the child finds nor where it starts has to do with its own root.
    have hfind : ∀ name,
        (Chain.derive (child.withRoot root) (some (.derive ancestor above))).findBlock? name
          = (Chain.derive child (some (.derive ancestor above))).findBlock? name := by
      intro name
      rw [Chain.findBlock?_derive_some, Chain.findBlock?_derive_some]
      rfl
    obtain ⟨hfind, hroot⟩ := Chain.under_congr hfind rfl below
    rw [render_eq_of_findBlock? hfind hroot]

end Render

end TextTemplate
