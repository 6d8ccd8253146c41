import TextTemplate.Markup.Document

/-! # Chains of templates

  A template extends another one, which may extend a third.  Rendering takes
  the root of the topmost ancestor and, for each block in it, the body that the
  most derived template gives to the block's name.
-/

namespace TextTemplate

/-- A template of a chain: its name and what it holds. -/
structure Layer where
  name : String
  document : Markup.Document

/-- A template and its ancestors, from the nearest to the topmost. -/
structure Chain where
  template : Layer
  ancestors : List Layer

namespace Chain

/-- All templates of the chain, the most derived first. -/
def layers (c : Chain) : List Layer := c.template :: c.ancestors

/-- The names of the chain's templates, the most derived first. -/
def names (c : Chain) : List String := c.layers.map (·.name)

/-- A template in front of the chain of its ancestor, if it has one. -/
def derive (template : Layer) : Option Chain → Chain
  | none => ⟨template, []⟩
  | some ancestor => ⟨template, ancestor.layers⟩

/-- The chain of the nearest ancestor. -/
def ancestor? (c : Chain) : Option Chain :=
  match c.ancestors with
  | [] => none
  | nearest :: rest => some ⟨nearest, rest⟩

/-- The topmost template. -/
def top (c : Chain) : Layer := c.ancestors.getLast?.getD c.template

/-- The sequence with which rendering starts. -/
def root (c : Chain) : List Markup.Node := c.top.document.root

/-- The most derived body of a block. -/
def findBlock? (c : Chain) (name : String) : Option (List Markup.Node) :=
  c.layers.findSome? fun layer => layer.document.blocks.find? name

end Chain

end TextTemplate
