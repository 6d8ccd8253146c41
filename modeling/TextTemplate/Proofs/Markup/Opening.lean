import TextTemplate.Markup.Document
import TextTemplate.Proofs.Value.Pairs

/-! # The sequences of a template in the order of their opening

  Every branch, loop and block opens a sequence.  `Node.openingsIn` lists the
  sequences below a sequence in the order in which their tags stand in the text,
  each with the name of its block, if it is one's body.  A sequence is followed
  in the list by those inside it, so whatever a sequence holds was opened later
  (`Below.of_mem`).

  The blocks of a document by name are the last ones opened.  So a block that
  stands in a sequence has a body that was opened later than that sequence
  (`Below.of_lastOfEach`), even where names are used twice or inside themselves.
-/

namespace TextTemplate.Markup

/-! ### Openings -/

/-- A sequence that a tag opens, with the name of the block whose body it is. -/
abbrev Opening := Option String × List Node

namespace Node

mutual

/-- The sequences that a node opens, its own first. -/
def openings : Node → List Opening
  | .text _ | .output _ | .bare => []
  | .branch _ _ body | .loop _ _ body => (none, body) :: openingsIn body
  | .block name body => (some name, body) :: openingsIn body

/-- The sequences that are opened inside a sequence. -/
def openingsIn : List Node → List Opening
  | [] => []
  | node :: rest => openings node ++ openingsIn rest

end

mutual

/-- The blocks of a node, in the order in which they are opened. -/
def blocks : Node → List (String × List Node)
  | .text _ | .output _ | .bare => []
  | .branch _ _ body | .loop _ _ body => blocksIn body
  | .block name body => (name, body) :: blocksIn body

/-- The blocks of a sequence, in the order in which they are opened. -/
def blocksIn : List Node → List (String × List Node)
  | [] => []
  | node :: rest => blocks node ++ blocksIn rest

end

mutual

/-- The blocks of a node are the openings that have a name. -/
theorem blocks_eq_filterMap : ∀ node : Node, blocks node
    = (openings node).filterMap fun o => o.1.map fun name => (name, o.2)
  | .text _ | .output _ | .bare => by simp [blocks, openings]
  | .branch _ _ body | .loop _ _ body | .block _ body => by
    simp [blocks, openings, blocksIn_eq_filterMap body]

/-- The blocks of a sequence are the openings that have a name. -/
theorem blocksIn_eq_filterMap : ∀ s : List Node, blocksIn s
    = (openingsIn s).filterMap fun o => o.1.map fun name => (name, o.2)
  | [] => by simp [blocksIn, openingsIn]
  | node :: rest => by
    simp [blocksIn, openingsIn, blocks_eq_filterMap node, blocksIn_eq_filterMap rest]

end

/-- The blocks of two sequences side by side. -/
theorem blocksIn_append (a b : List Node) : blocksIn (a ++ b) = blocksIn a ++ blocksIn b := by
  induction a with
  | nil => rfl
  | cons node rest ih => rw [List.cons_append, blocksIn, ih, ← List.append_assoc, ← blocksIn]

mutual

/-- Behind an opening of a node come those inside it. -/
theorem openings_after : ∀ {node : Node} {before after : List Opening} {o : Opening},
    openings node = before ++ o :: after → ∃ more, after = openingsIn o.2 ++ more
  | .text _, before, after, o, h | .output _, before, after, o, h | .bare, before, after, o, h => by
    simp [openings] at h
  | .branch _ _ body, before, after, o, h | .loop _ _ body, before, after, o, h
  | .block _ body, before, after, o, h => by
    rw [openings] at h
    cases before with
    | nil =>
      obtain ⟨rfl, rfl⟩ := List.cons.inj h
      exact ⟨[], (List.append_nil _).symm⟩
    | cons first before => exact openingsIn_after (List.cons.inj h).2

/-- Behind an opening of a sequence come those inside it. -/
theorem openingsIn_after : ∀ {s : List Node} {before after : List Opening} {o : Opening},
    openingsIn s = before ++ o :: after → ∃ more, after = openingsIn o.2 ++ more
  | [], before, after, o, h => by simp [openingsIn] at h
  | node :: rest, before, after, o, h => by
    rw [openingsIn] at h
    rcases List.append_eq_append_iff.1 h with ⟨more, rfl, hrest⟩ | ⟨more, hnode, hrest⟩
    · exact openingsIn_after hrest
    · cases more with
      | nil =>
        have hfirst : openingsIn rest = [] ++ o :: after := hrest.symm
        exact openingsIn_after hfirst
      | cons first more =>
        obtain ⟨rfl, rfl⟩ := List.cons.inj hrest
        obtain ⟨inside, rfl⟩ := openings_after hnode
        exact ⟨inside ++ openingsIn rest, List.append_assoc ..⟩

end

/-- The sequence that a node opens, if it does. -/
def opening? : Node → Option Opening
  | .text _ | .output _ | .bare => none
  | .branch _ _ body | .loop _ _ body => some (none, body)
  | .block name body => some (some name, body)

/-- What a node of a sequence opens is among the sequence's openings. -/
theorem openingsIn_of_mem {s : List Node} {node : Node} {o : Opening} (hmem : node ∈ s)
    (hopens : node.opening? = some o) :
    ∃ before after, openingsIn s = before ++ o :: after := by
  induction s with
  | nil => cases hmem
  | cons first rest ih =>
    rcases List.mem_cons.1 hmem with rfl | hmem
    · have hfirst : ∃ inside, openings node = o :: inside := by
        cases node with
        | text | output | bare => cases hopens
        | branch _ _ body | loop _ _ body | block _ body =>
          obtain rfl := Option.some.inj hopens
          exact ⟨openingsIn body, by rw [openings]⟩
      obtain ⟨inside, hinside⟩ := hfirst
      refine ⟨[], inside ++ openingsIn rest, ?_⟩
      rw [openingsIn, hinside]
      rfl
    · obtain ⟨before, after, heq⟩ := ih hmem
      refine ⟨openings first ++ before, after, ?_⟩
      rw [openingsIn, heq, List.append_assoc]

end Node

/-! ### The last block of a name -/

namespace Blocks

/-- A block that is put among others is found under its name, and the others as before. -/
theorem find?_put (blocks : Blocks) (block : String × List Node) (name : String) :
    Blocks.find? (Pairs.put blocks block) name
      = if block.1 = name then some block.2 else blocks.find? name := by
  unfold Blocks.find?
  rw [Pairs.find?_put]
  split <;> rfl

/-- The last block of each name. -/
def lastOfEach (opened : List (String × List Node)) : Blocks := opened.foldl Pairs.put []

/-- The names of the last blocks are those of all blocks, each of them once. -/
theorem names_lastOfEach (opened : List (String × List Node)) :
    (lastOfEach opened).names.Nodup ∧
      ∀ name, name ∈ (lastOfEach opened).names ↔ name ∈ opened.map (·.1) :=
  Pairs.names_foldl_put opened

/-- A block by name is the last one that was opened with the name. -/
theorem find?_lastOfEach (opened : List (String × List Node)) (name : String) :
    (lastOfEach opened).find? name = (opened.reverse.find? (·.1 == name)).map (·.2) := by
  unfold lastOfEach Blocks.find?
  rw [Pairs.find?_foldl_put]

/-- The block of a name is the last opening with that name. -/
theorem find?_lastOfEach_blocksIn (root : List Node) (name : String) :
    (lastOfEach (Node.blocksIn root)).find? name
      = ((Node.openingsIn root).reverse.find? (·.1 == some name)).map (·.2) := by
  rw [find?_lastOfEach, Node.blocksIn_eq_filterMap, ← List.filterMap_reverse, List.find?_filterMap]
  have hsame : (fun o : Opening => (o.1.map fun n => (n, o.2)).any (·.1 == name))
      = fun o => o.1 == some name := by
    funext o
    cases o.1 <;> rfl
  rw [hsame]
  cases hfound : (Node.openingsIn root).reverse.find? (·.1 == some name) with
  | none => rfl
  | some o =>
    have hname : o.1 = some name := by simpa using List.find?_some hfound
    rw [Option.bind_some, hname]
    rfl

end Blocks

/-! ### What is opened behind a sequence -/

/-- The openings behind a sequence of a tree, which are all of them if it is the whole tree. -/
inductive Below (root : List Node) : List Node → List Opening → Prop where
  | root : Below root root (Node.openingsIn root)
  | opened {before after : List Opening} {o : Opening} :
      Node.openingsIn root = before ++ o :: after → Below root o.2 after

namespace Below

variable {root s : List Node} {after : List Opening}

/-- The openings behind a sequence are the last ones of the tree. -/
theorem suffix (h : Below root s after) : ∃ before, Node.openingsIn root = before ++ after := by
  cases h with
  | root => exact ⟨[], rfl⟩
  | @opened before _ o heq => exact ⟨before ++ [o], by rw [heq, List.append_assoc]; rfl⟩

/-- The openings inside a sequence come first behind it. -/
theorem inside (h : Below root s after) : ∃ more, after = Node.openingsIn s ++ more := by
  cases h with
  | root => exact ⟨[], (List.append_nil _).symm⟩
  | opened heq => exact Node.openingsIn_after heq

/-- A sequence that is opened behind another one has fewer openings behind it. -/
theorem later (h : Below root s after) {before rest : List Opening} {o : Opening}
    (heq : after = before ++ o :: rest) : Below root o.2 rest ∧ rest.length < after.length := by
  obtain ⟨first, hroot⟩ := h.suffix
  have hopened : Node.openingsIn root = (first ++ before) ++ o :: rest := by
    rw [hroot, heq, List.append_assoc]
  refine ⟨.opened hopened, ?_⟩
  rw [heq, List.length_append, List.length_cons]
  omega

/-- What a node of a sequence opens is opened behind the sequence. -/
theorem of_mem (h : Below root s after) {node : Node} {o : Opening} (hmem : node ∈ s)
    (hopens : node.opening? = some o) :
    ∃ before rest, after = before ++ o :: rest := by
  obtain ⟨more, rfl⟩ := h.inside
  obtain ⟨before, rest, heq⟩ := Node.openingsIn_of_mem hmem hopens
  exact ⟨before, rest ++ more, by rw [heq, List.append_assoc]; rfl⟩

/-- If a name is opened behind a sequence, so is the last block of the name. -/
theorem of_lastOfEach (h : Below root s after) {name : String}
    (hopened : ∃ o ∈ after, o.1 = some name) :
    ∃ o before rest, after = before ++ o :: rest ∧
      (Blocks.lastOfEach (Node.blocksIn root)).find? name = some o.2 := by
  obtain ⟨first, hroot⟩ := h.suffix
  obtain ⟨o, ho, hname⟩ := hopened
  have hsome : ∃ last, after.reverse.find? (·.1 == some name) = some last := by
    cases hfind : after.reverse.find? (·.1 == some name) with
    | some last => exact ⟨last, rfl⟩
    | none =>
      have hne := List.find?_eq_none.1 hfind o (List.mem_reverse.2 ho)
      exact absurd (by simpa using hname) hne
  obtain ⟨last, hlast⟩ := hsome
  obtain ⟨-, front, back, hsplit, -⟩ := List.find?_eq_some_iff_append.1 hlast
  refine ⟨last, back.reverse, front.reverse, ?_, ?_⟩
  · rw [← List.reverse_reverse after, hsplit]
    simp
  · rw [Blocks.find?_lastOfEach_blocksIn, hroot, List.reverse_append, List.find?_append, hlast]
    rfl

/-- The block that a node of a sequence leads to is the node itself, or one of its name that is
    opened behind it. -/
theorem of_block (h : Below root s after) {name : String} {own body : List Node}
    (hmem : .block name own ∈ s)
    (hfound : (Blocks.lastOfEach (Node.blocksIn root)).find? name = some body) :
    ∃ before rest, after = before ++ (some name, own) :: rest ∧
      (body = own ∨ ∃ inner behind, rest = inner ++ (some name, body) :: behind) := by
  obtain ⟨before, rest, heq⟩ := h.of_mem hmem rfl
  obtain ⟨first, hroot⟩ := h.suffix
  refine ⟨before, rest, heq, ?_⟩
  have hopenings : (Node.openingsIn root).reverse
      = rest.reverse ++ (some name, own) :: (before.reverse ++ first.reverse) := by
    rw [hroot, heq]
    simp
  rw [Blocks.find?_lastOfEach_blocksIn, hopenings, List.find?_append] at hfound
  cases hlater : rest.reverse.find? (·.1 == some name) with
  | none =>
    rw [hlater, Option.none_or, List.find?_cons_of_pos (by simp)] at hfound
    exact .inl (Option.some.inj hfound).symm
  | some o =>
    obtain ⟨name?, found⟩ := o
    rw [hlater] at hfound
    obtain rfl : found = body := Option.some.inj hfound
    obtain ⟨hname, front, back, hsplit, -⟩ := List.find?_eq_some_iff_append.1 hlater
    obtain rfl : name? = some name := by simpa using hname
    refine .inr ⟨back.reverse, front.reverse, ?_⟩
    rw [← List.reverse_reverse rest, hsplit]
    simp

end Below

end TextTemplate.Markup
