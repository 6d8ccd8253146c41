import TextTemplate.Proofs.Markup.Opening
import TextTemplate.Proofs.Markup.Taking

/-! # The register of blocks

  A block is registered when its tag is read, and gets its body when it is
  closed.  In between the builder holds the block's number, and its nodes stand
  in the frames.  `Numbered` ties the register, the open frames and the tree as
  far as it is built: the numbers count the blocks in the order of their tags,
  the register has the last number of each name, and what has a body so far has
  it in the tree.

  It holds of an empty builder, and every token keeps it (`Numbered.takes`), so
  it holds after any tokens that are taken (`Numbered.tokens`).  When nothing is
  open any more, the registered blocks are the last ones of the tree.
-/

namespace TextTemplate.Markup

/-- The block that a frame opens, with the body that it has so far. -/
def Header.entry (body : List Node) : Header → List (String × List Node)
  | .block name => [(name, body)]
  | _ => []

/-- The blocks of the node that a frame becomes. -/
theorem Header.blocks_node (header : Header) (body : List Node) :
    (header.node body).blocks = header.entry body ++ Node.blocksIn body := by
  cases header <;> rfl

namespace Builder

/-- The blocks that have been opened, in this order.  One that is still open has no body. -/
def opened : List Frame → List Node → List (String × List Node)
  | [], nodes => Node.blocksIn nodes.reverse
  | f :: outer, nodes =>
    opened outer f.before ++ (f.header.entry [] ++ Node.blocksIn nodes.reverse)

/-- A node comes behind the others, with its blocks. -/
theorem opened_cons (frames : List Frame) (node : Node) (nodes : List Node) :
    opened frames (node :: nodes) = opened frames nodes ++ node.blocks := by
  have hlast : Node.blocksIn (node :: nodes).reverse
      = Node.blocksIn nodes.reverse ++ node.blocks := by
    rw [List.reverse_cons, Node.blocksIn_append, Node.blocksIn, Node.blocksIn, List.append_nil]
  cases frames with
  | nil => exact hlast
  | cons f outer => rw [opened, opened, hlast, List.append_assoc, List.append_assoc]

/-- How the register, the frames and the tree go together. -/
structure Numbered (b : Builder) : Prop where
  /-- The body of every block that is closed is the one in the tree. -/
  bodies : b.bodies = (opened b.frames b.nodes).map (·.2)
  /-- The last block of each name is registered. -/
  numbers : b.numbers = (((opened b.frames b.nodes).map (·.1)).zipIdx).foldl Pairs.put []
  /-- A frame knows how many blocks were opened before it. -/
  frames : ∀ inner f outer, b.frames = inner ++ f :: outer →
    f.number = (opened outer f.before).length

/-- What is registered of a list of blocks, at any moment: the last one of each name. -/
theorem Numbered.blocks_eq {b : Builder} (h : b.Numbered) :
    b.blocks = .lastOfEach (opened b.frames b.nodes) := by
  have hpairs : (((opened b.frames b.nodes).map (·.1)).zipIdx).map
      (fun entry => (entry.1, b.bodies[entry.2]?.getD [])) = opened b.frames b.nodes := by
    rw [h.bodies]
    apply List.ext_getElem?
    intro i
    rw [List.getElem?_map, List.getElem?_zipIdx, List.getElem?_map]
    cases hi : (opened b.frames b.nodes)[i]? <;> simp [hi]
  unfold blocks Blocks.lastOfEach
  rw [h.numbers, Pairs.map_foldl_put (fun i => b.bodies[i]?.getD []), hpairs]

namespace Numbered

variable {rules : Rules} {b b' : Builder}

theorem empty : Builder.empty.Numbered := by
  refine ⟨rfl, rfl, ?_⟩
  intro inner f outer hframes
  simp [Builder.empty] at hframes

/-- A node without blocks is added. -/
theorem add (h : b.Numbered) {node : Node} (hnode : node.blocks = []) : (b.add node).Numbered := by
  have hsame : opened b.frames (node :: b.nodes) = opened b.frames b.nodes := by
    rw [opened_cons, hnode, List.append_nil]
  constructor
  · show b.bodies = (opened b.frames (node :: b.nodes)).map (·.2)
    rw [hsame]
    exact h.bodies
  · show b.numbers = (((opened b.frames (node :: b.nodes)).map (·.1)).zipIdx).foldl Pairs.put []
    rw [hsame]
    exact h.numbers
  · exact h.frames

/-- A directive is opened: a block comes last in the register and has no body yet. -/
theorem enter (h : b.Numbered) (header : Header) (location : Location) :
    (b.enter header location).Numbered := by
  have hopened : opened (b.enter header location).frames (b.enter header location).nodes
      = opened b.frames b.nodes ++ header.entry [] := by
    rw [enter_frames, enter_nodes, opened, List.reverse_nil, Node.blocksIn, List.append_nil]
  have hlength : b.bodies.length = (opened b.frames b.nodes).length := by
    rw [h.bodies, List.length_map]
  have hframes : ∀ inner f outer, (b.enter header location).frames = inner ++ f :: outer →
      f.number = (opened outer f.before).length := by
    intro inner f outer heq
    rw [enter_frames] at heq
    cases inner with
    | nil =>
      obtain ⟨rfl, rfl⟩ := List.cons.inj heq
      exact hlength
    | cons g inner =>
      obtain ⟨rfl, hrest⟩ := List.cons.inj heq
      exact h.frames inner f outer hrest
  cases header with
  | block name =>
    refine ⟨?_, ?_, hframes⟩
    · rw [hopened, List.map_append, ← h.bodies]
      rfl
    · rw [hopened, List.map_append, List.zipIdx_append, List.foldl_append, ← h.numbers,
        List.length_map, ← hlength, Nat.zero_add]
      rfl
  | branch place condition? | loop name source =>
    replace hopened := hopened.trans (List.append_nil _)
    refine ⟨?_, ?_, hframes⟩
    · rw [hopened]
      exact h.bodies
    · rw [hopened]
      exact h.numbers

/-- The innermost directive is closed: a block gets its body, which stands in the tree. -/
theorem leave (h : b.Numbered) {f : Frame} {outer : List Frame} (hframes : b.frames = f :: outer) :
    (b.leave f outer).Numbered := by
  have hbefore : opened b.frames b.nodes = opened outer f.before
      ++ (f.header.entry [] ++ Node.blocksIn b.nodes.reverse) := by
    rw [hframes, opened]
  have hafter : opened (b.leave f outer).frames (b.leave f outer).nodes = opened outer f.before
      ++ (f.header.entry b.nodes.reverse ++ Node.blocksIn b.nodes.reverse) := by
    rw [leave_frames, leave_nodes, opened_cons, Header.blocks_node]
  have hnumber : f.number = (opened outer f.before).length := h.frames [] f outer hframes
  have hnames : (opened (b.leave f outer).frames (b.leave f outer).nodes).map (·.1)
      = (opened b.frames b.nodes).map (·.1) := by
    rw [hbefore, hafter, List.map_append, List.map_append, List.map_append, List.map_append]
    cases f.header <;> rfl
  refine ⟨?_, ?_, fun inner g rest heq => h.frames (f :: inner) g rest ?_⟩
  · have hbodies := h.bodies
    rw [hbefore] at hbodies
    rw [hafter]
    unfold Builder.leave
    cases hheader : f.header with
    | block name =>
      -- The number of the frame is the place of the block's body.
      rw [hheader] at hbodies
      have hplace : f.number = ((opened outer f.before).map (·.2)).length := by
        rw [hnumber, List.length_map]
      dsimp only
      rw [hbodies, List.map_append, hplace, List.set_append_right _ _ (Nat.le_refl _),
        Nat.sub_self]
      simp [Header.entry]
    | branch place condition? | loop name source =>
      rw [hheader] at hbodies
      exact hbodies
  · rw [hnames]
    exact h.numbers
  · rw [leave_frames] at heq
    rw [hframes, heq, List.cons_append]

/-- Taking an item keeps the register, the frames and the tree together. -/
theorem takes (h : b.Numbered) {item : Item} {location : Location}
    (htakes : Takes item location b b') : b'.Numbered := by
  cases htakes with
  | @add node hnode =>
    apply h.add
    cases item with
    | text s | output expr =>
      obtain rfl := Option.some.inj hnode
      rfl
    | directive d => cases hnode
  | skip => exact ⟨h.bodies, h.numbers, h.frames⟩
  | open_ => exact h.enter _ _
  | close hframes => exact h.leave hframes
  | goOn hframes => exact (h.leave hframes).enter _ _

/-- After any tokens that are taken, the register, the frames and the tree go together. -/
theorem tokens (h : b.Numbered) {ts : List Token} (htokens : (b.tokens rules ts).2 = .ok b') :
    b'.Numbered := by
  induction ts generalizing b with
  | nil =>
    obtain rfl := Except.ok.inj htokens
    exact h
  | cons t rest ih =>
    cases htoken : (b.token rules t).2 with
    | error fault =>
      rw [tokens_cons_error htoken] at htokens
      cases htokens
    | ok b₁ =>
      rw [tokens_cons_ok htoken] at htokens
      obtain ⟨item, -, htakes⟩ := takes_of_token htoken
      exact ih (h.takes htakes) htokens

end Numbered

end Builder

namespace Document

variable {rules : Rules} {text : String} {document : Document}

/-- Are the blocks by name the last ones that stand in the document? -/
def Registered (document : Document) : Prop :=
  document.blocks = .lastOfEach (Node.blocksIn document.root)

/-- Reading a text registers all of its blocks. -/
theorem registered_of_read (h : (read rules text).result = .ok document) : document.Registered := by
  unfold read at h
  cases hscan : Token.scan text with
  | error fault =>
    rw [hscan] at h
    cases h
  | ok tokens =>
    rw [hscan] at h
    obtain ⟨b, htokens, hfinish⟩ := ofTokens_ok_iff.1 h
    obtain ⟨hframes, rfl⟩ := Builder.finish_ok_iff.1 hfinish
    have hblocks := (Builder.Numbered.empty.tokens htokens).blocks_eq
    rw [hframes] at hblocks
    exact hblocks

end Document

end TextTemplate.Markup
