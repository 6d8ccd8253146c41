import TextTemplate.Pairs

/-! # The tree of a template

  A template is a sequence of nodes, and some nodes hold sequences themselves.
  The branches of a conditional stand side by side in their sequence: a first
  branch, further ones, and perhaps one that is taken if no other is.
-/

namespace TextTemplate.Markup

/-- The place of a branch in its conditional. -/
inductive Branch where
  | first | next | otherwise
  deriving Repr, DecidableEq

/-- A node. -/
inductive Node where
  /-- Plain text. -/
  | text (s : String)
  /-- A tag that writes the value of an expression. -/
  | output (expr : String)
  /-- A branch of a conditional; only the last one has no condition. -/
  | branch (place : Branch) (condition? : Option String) (body : List Node)
  /-- The body once for each item of the source, with the item under the name. -/
  | loop (name source : String) (body : List Node)
  /-- A part that a descendant may replace. -/
  | block (name : String) (body : List Node)
  /-- A node of no kind; texts never give one. -/
  | bare

instance : Inhabited Node := ⟨.bare⟩

/-- Names of blocks and their bodies. -/
abbrev Blocks := List (String × List Node)

namespace Blocks

/-- The body of a block. -/
def find? (blocks : Blocks) (name : String) : Option (List Node) :=
  (List.find? (·.1 == name) blocks).map (·.2)

/-- The names of the blocks. -/
def names (blocks : Blocks) : List String := blocks.map (·.1)

end Blocks

end TextTemplate.Markup
