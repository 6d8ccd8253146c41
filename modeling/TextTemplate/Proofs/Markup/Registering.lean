import TextTemplate.Proofs.Markup.Numbering
import TextTemplate.Proofs.Markup.Segment

/-! # Which block is registered under a name

  The blocks of a document by name are the last ones of the tree (`Numbering`).
  This module ties them to the tags of the text: the tags that open blocks
  stand in the order of the tree's blocks, each with all of what stands between it
  and the tag that closes it (`Derives.tracks`).  So the block that counts for a
  name is the one whose tag stands last, also where a block stands inside another
  one of its name and is closed first.

  The induction is on derivations.  What it keeps is said for lists of items and
  lists of blocks side by side, so that the parts of a derivation can be appended.
-/

namespace TextTemplate.Markup

/-- The name of the block that the item opens. -/
def Item.blockName? : Item → Option String
  | .directive (.startBlock name) => some name
  | _ => none

/-! ### Tags and blocks side by side -/

/-- The tags among the items open the blocks, in this order. -/
def InStep (items : List Item) (blocks : List (String × List Node)) : Prop :=
  blocks.map (·.1) = items.filterMap Item.blockName?

theorem InStep.append {items items' : List Item} {blocks blocks' : List (String × List Node)}
    (h : InStep items blocks) (h' : InStep items' blocks') :
    InStep (items ++ items') (blocks ++ blocks') := by
  unfold InStep at h h' ⊢
  rw [List.map_append, List.filterMap_append, h, h']

theorem InStep.opening {items : List Item} {blocks : List (String × List Node)}
    (h : InStep items blocks) (name : String) (body : List Node) :
    InStep (.directive (.startBlock name) :: items) ((name, body) :: blocks) := by
  unfold InStep at h ⊢
  rw [List.map_cons, h]
  rfl

/-- An item that opens no block may come first. -/
theorem InStep.cons {items : List Item} {blocks : List (String × List Node)}
    (h : InStep items blocks) {item : Item} (hitem : item.blockName? = none) :
    InStep (item :: items) blocks := by
  unfold InStep
  rw [List.filterMap_cons_none hitem]
  exact h

/-- What stands behind a tag that opens a block starts with the items of its body and the tag that
    closes the block. -/
def Encloses (depth : Nat) (name : String) (after : List Item) (body : List Node) : Prop :=
  ∃ inner closer rest inside, after = inner ++ closer :: rest ∧ closer.Closes (.block name) ∧
    inside < depth ∧ Derives .sequence inside inner body

theorem Encloses.mono {depth depth' : Nat} {name : String} {after : List Item} {body : List Node}
    (h : Encloses depth name after body) (hdepth : depth ≤ depth') :
    Encloses depth' name after body := by
  obtain ⟨inner, closer, rest, inside, hafter, hcloses, hlt, hderives⟩ := h
  exact ⟨inner, closer, rest, inside, hafter, hcloses, by omega, hderives⟩

theorem Encloses.append {depth : Nat} {name : String} {after : List Item} {body : List Node}
    (h : Encloses depth name after body) (more : List Item) :
    Encloses depth name (after ++ more) body := by
  obtain ⟨inner, closer, rest, inside, rfl, hcloses, hlt, hderives⟩ := h
  refine ⟨inner, closer, rest ++ more, inside, ?_, hcloses, hlt, hderives⟩
  rw [List.append_assoc, List.cons_append]

/-- Each tag among the items that opens a block opens one of the blocks, with all of its body: the
    one before which as many blocks are opened as tags open one before the tag. -/
def Tracks (depth : Nat) (items : List Item) (blocks : List (String × List Node)) : Prop :=
  ∀ before name after, items = before ++ .directive (.startBlock name) :: after →
    ∃ body front back, Encloses depth name after body ∧
      blocks = front ++ (name, body) :: back ∧ InStep before front

namespace Tracks

variable {depth : Nat} {items : List Item} {blocks : List (String × List Node)}

theorem mono (h : Tracks depth items blocks) {depth' : Nat} (hdepth : depth ≤ depth') :
    Tracks depth' items blocks := by
  intro before name after hsplit
  obtain ⟨body, front, back, hencloses, hblocks, hstep⟩ := h before name after hsplit
  exact ⟨body, front, back, hencloses.mono hdepth, hblocks, hstep⟩

theorem append (h : Tracks depth items blocks) (hstep : InStep items blocks) {items' : List Item}
    {blocks' : List (String × List Node)} (h' : Tracks depth items' blocks') :
    Tracks depth (items ++ items') (blocks ++ blocks') := by
  intro before name after hsplit
  have hbehind : ∀ inner, items' = inner ++ .directive (.startBlock name) :: after →
      ∃ body front back, Encloses depth name after body ∧
        blocks ++ blocks' = front ++ (name, body) :: back ∧ InStep (items ++ inner) front := by
    intro inner hinner
    obtain ⟨body, front, back, hencloses, rfl, hfront⟩ := h' inner name after hinner
    exact ⟨body, blocks ++ front, back, hencloses, by rw [List.append_assoc], hstep.append hfront⟩
  -- The tag stands in the second part or in the first one.
  rcases List.append_eq_append_iff.1 hsplit with ⟨inner, rfl, hback⟩ | ⟨inner, hfront, hback⟩
  · exact hbehind inner hback
  · cases inner with
    | nil =>
      rw [List.append_nil] at hfront
      subst hfront
      have hfirst := hbehind [] hback.symm
      rwa [List.append_nil] at hfirst
    | cons item inner =>
      obtain ⟨rfl, rfl⟩ := List.cons.inj hback
      obtain ⟨body, front, back, hencloses, rfl, hstep'⟩ := h before name inner hfront
      refine ⟨body, front, back ++ blocks', hencloses.append items', ?_, hstep'⟩
      rw [List.append_assoc, List.cons_append]

/-- A tag that opens a block stands before its body and what follows. -/
theorem opening {name : String} {body : List Node} (hencloses : Encloses depth name items body)
    (h : Tracks depth items blocks) :
    Tracks depth (.directive (.startBlock name) :: items) ((name, body) :: blocks) := by
  intro before name' after hsplit
  cases before with
  | nil =>
    obtain ⟨hname, rfl⟩ := List.cons.inj hsplit
    cases hname
    exact ⟨body, [], blocks, hencloses, rfl, rfl⟩
  | cons item before =>
    obtain ⟨rfl, hrest⟩ := List.cons.inj hsplit
    obtain ⟨body', front, back, hencloses', rfl, hstep⟩ := h before name' after hrest
    exact ⟨body', (name, body) :: front, back, hencloses', rfl, hstep.opening name body⟩

end Tracks

/-- The items open the blocks of the nodes, each with all of its body. -/
def Registers (depth : Nat) (items : List Item) (nodes : List Node) : Prop :=
  InStep items (Node.blocksIn nodes) ∧ Tracks depth items (Node.blocksIn nodes)

namespace Registers

variable {depth : Nat} {items : List Item} {nodes : List Node}

theorem nil : Registers depth [] [] := by
  refine ⟨rfl, ?_⟩
  intro before name after hsplit
  simp at hsplit

theorem mono (h : Registers depth items nodes) {depth' : Nat} (hdepth : depth ≤ depth') :
    Registers depth' items nodes := ⟨h.1, h.2.mono hdepth⟩

theorem append (h : Registers depth items nodes) {items' : List Item} {nodes' : List Node}
    (h' : Registers depth items' nodes') : Registers depth (items ++ items') (nodes ++ nodes') := by
  unfold Registers
  rw [Node.blocksIn_append]
  exact ⟨h.1.append h'.1, h.2.append h.1 h'.2⟩

/-- An item that opens no block may come first. -/
theorem cons (h : Registers depth items nodes) {item : Item} (hitem : item.blockName? = none) :
    Registers depth (item :: items) nodes := by
  refine ⟨h.1.cons hitem, ?_⟩
  intro before name after hsplit
  cases before with
  | nil =>
    obtain ⟨rfl, -⟩ := List.cons.inj hsplit
    cases hitem
  | cons first before =>
    obtain ⟨rfl, hrest⟩ := List.cons.inj hsplit
    obtain ⟨body, front, back, hencloses, hblocks, hstep⟩ := h.2 before name after hrest
    exact ⟨body, front, back, hencloses, hblocks, hstep.cons hitem⟩

/-- A node without a body holds no blocks. -/
theorem leaf (h : Registers depth items nodes) {node : Node} (hnode : node.blocks = []) :
    Registers depth items (node :: nodes) := by
  unfold Registers at h ⊢
  rw [Node.blocksIn, hnode]
  exact h

/-- A node that is no block holds the blocks of its body. -/
theorem wrap {node : Node} {body : List Node} (h : Registers depth items (body ++ nodes))
    (hnode : node.blocks = Node.blocksIn body) : Registers depth items (node :: nodes) := by
  unfold Registers at h ⊢
  rw [Node.blocksIn, hnode, ← Node.blocksIn_append]
  exact h

/-- The tag that opens a block comes before the items of its body. -/
theorem block {name : String} {body : List Node} (h : Registers depth items (body ++ nodes))
    (hencloses : Encloses depth name items body) :
    Registers depth (.directive (.startBlock name) :: items) (.block name body :: nodes) := by
  have hblocks : Node.blocksIn (.block name body :: nodes)
      = (name, body) :: Node.blocksIn (body ++ nodes) := by
    rw [Node.blocksIn, Node.blocks, Node.blocksIn_append, List.cons_append]
  unfold Registers
  rw [hblocks]
  exact ⟨h.1.opening name body, h.2.opening hencloses⟩

end Registers

/-- The items of a derivation open the blocks of its nodes, each with all of its body. -/
theorem Derives.registers {part : Part} {depth : Nat} {items : List Item} {nodes : List Node}
    (h : Derives part depth items nodes) : Registers depth items nodes := by
  induction h with
  | nil => exact .nil
  | text _ ih | output _ ih => exact (ih.cons rfl).leaf rfl
  | extends_ _ ih | unknown _ ih => exact ih.cons rfl
  | @conditional depth _ _ _ _ _ _ _ _ _ _ ihbody ihmore ih =>
    have hmore : Registers (depth + 1) _ _ := (ihmore.mono (Nat.le_succ depth)).append ih
    have hall := (ihbody.mono (Nat.le_succ depth)).append hmore
    exact (hall.cons rfl).wrap rfl
  | @loop depth _ _ _ _ _ _ _ _ ihbody ih =>
    have hend : Registers (depth + 1) (.directive .endFor :: _) _ := ih.cons rfl
    have hall := (ihbody.mono (Nat.le_succ depth)).append hend
    exact (hall.cons rfl).wrap rfl
  | @block depth name name? inner items body nodes hname hbody _ ihbody ih =>
    have hend : Registers (depth + 1) (.directive (.endBlock name?) :: items) nodes := ih.cons rfl
    have hall := (ihbody.mono (Nat.le_succ depth)).append hend
    exact hall.block ⟨inner, _, items, depth, rfl, hname, Nat.lt_succ_self depth, hbody⟩
  | elseIf _ _ ihbody ihmore => exact ((ihbody.append ihmore).cons rfl).wrap rfl
  | @otherwise depth _ _ _ ihbody =>
    have hend : Registers depth [.directive .endIf] [] := Registers.nil.cons rfl
    exact ((ihbody.append hend).cons rfl).wrap rfl
  | endIf => exact Registers.nil.cons rfl

/-! ### Blocks by name -/

namespace Node

mutual

/-- What is opened in a node is opened by the node itself, or by a node of a body inside it. -/
theorem opened_of_mem_openings : ∀ {node : Node} {o : Opening}, o ∈ openings node →
    node.opening? = some o ∨
      ∃ s ∈ (openings node).map (·.2), ∃ inner ∈ s, inner.opening? = some o
  | .text _, o, h | .output _, o, h | .bare, o, h => by
    simp [openings] at h
  | .branch _ _ body, o, h | .loop _ _ body, o, h | .block _ body, o, h => by
    rw [openings] at h ⊢
    rcases List.mem_cons.1 h with rfl | h
    · exact .inl rfl
    · obtain ⟨s, hs, hinner⟩ := opened_of_mem_openingsIn h
      exact .inr ⟨s, hs, hinner⟩

/-- What is opened in a sequence is opened by a node of it, or of a body inside it. -/
theorem opened_of_mem_openingsIn : ∀ {s : List Node} {o : Opening}, o ∈ openingsIn s →
    ∃ s' ∈ s :: (openingsIn s).map (·.2), ∃ node ∈ s', node.opening? = some o
  | [], o, h => by simp [openingsIn] at h
  | node :: rest, o, h => by
    rw [openingsIn] at h ⊢
    rw [List.map_append]
    rcases List.mem_append.1 h with h | h
    · rcases opened_of_mem_openings h with hnode | ⟨s, hs, hinner⟩
      · exact ⟨node :: rest, List.mem_cons_self, node, List.mem_cons_self, hnode⟩
      · exact ⟨s, List.mem_cons_of_mem _ (List.mem_append_left _ hs), hinner⟩
    · obtain ⟨s, hs, inner, hinner, hopens⟩ := opened_of_mem_openingsIn h
      rcases List.mem_cons.1 hs with rfl | hs
      · exact ⟨_, List.mem_cons_self, inner, List.mem_cons_of_mem _ hinner, hopens⟩
      · exact ⟨s, List.mem_cons_of_mem _ (List.mem_append_right _ hs), inner, hinner, hopens⟩

end

end Node

namespace Document

variable {rules : Rules} {text : String} {document : Document}

/-- What a document opens is opened by the nodes of its sequences. -/
theorem mem_openingsIn_iff {o : Opening} : o ∈ Node.openingsIn document.root ↔
    ∃ s ∈ document.sequences, ∃ node ∈ s, node.opening? = some o := by
  constructor
  · exact Node.opened_of_mem_openingsIn
  · rintro ⟨s, hs, node, hnode, hopens⟩
    obtain ⟨before, after, hsplit⟩ := Node.openingsIn_of_mem hnode hopens
    rcases List.mem_cons.1 hs with rfl | hs
    · rw [hsplit]
      simp
    · -- What is opened in a body stands behind the opening of the body.
      obtain ⟨outer, houter, rfl⟩ := List.mem_map.1 hs
      obtain ⟨front, back, hroot⟩ := List.append_of_mem houter
      obtain ⟨more, rfl⟩ := Node.openingsIn_after hroot
      rw [hroot, hsplit]
      simp

/-- The blocks of a document are the block nodes of its sequences. -/
theorem mem_blocksIn_iff {name : String} {body : List Node} :
    (name, body) ∈ Node.blocksIn document.root ↔
      ∃ s ∈ document.sequences, Node.block name body ∈ s := by
  have hopening : (name, body) ∈ Node.blocksIn document.root ↔
      (some name, body) ∈ Node.openingsIn document.root := by
    rw [Node.blocksIn_eq_filterMap, List.mem_filterMap]
    constructor
    · rintro ⟨⟨name?, body'⟩, ho, hname⟩
      obtain ⟨name', rfl, heq⟩ := Option.map_eq_some_iff.1 hname
      cases heq
      exact ho
    · intro ho
      exact ⟨_, ho, rfl⟩
  rw [hopening, mem_openingsIn_iff]
  constructor
  · rintro ⟨s, hs, node, hnode, hopens⟩
    cases node with
    | block name' body' =>
      cases hopens
      exact ⟨s, hs, hnode⟩
    | _ => cases hopens
  · rintro ⟨s, hs, hblock⟩
    exact ⟨s, hs, _, hblock, rfl⟩

end Document

/-- If a tag is the last one that opens a block of its name, the block's body is found under the
    name. -/
theorem Tracks.find?_last {depth : Nat} {items before after : List Item}
    {blocks : List (String × List Node)} {name : String} (h : Tracks depth items blocks)
    (hstep : InStep items blocks)
    (hsplit : items = before ++ .directive (.startBlock name) :: after)
    (hlast : .directive (.startBlock name) ∉ after) :
    ∃ body front back, Encloses depth name after body ∧ blocks = front ++ (name, body) :: back ∧
      InStep before front ∧ (Blocks.lastOfEach blocks).find? name = some body := by
  obtain ⟨body, front, back, hencloses, rfl, hfront⟩ := h before name after hsplit
  refine ⟨body, front, back, hencloses, rfl, hfront, ?_⟩
  -- The names of the blocks behind it are those of the tags behind its own.
  have hback : InStep after back := by
    unfold InStep at hstep hfront ⊢
    rw [hsplit, List.map_append, List.filterMap_append, hfront, List.map_cons] at hstep
    exact (List.cons.inj (List.append_cancel_left hstep)).2
  have hnone : ∀ block ∈ back.reverse, ¬ (block.1 == name) = true := by
    intro block hblock heq
    have hname : name ∈ back.map (·.1) :=
      List.mem_map.2 ⟨block, List.mem_reverse.1 hblock, by simpa using heq⟩
    rw [hback] at hname
    obtain ⟨item, hitem, hopens⟩ := List.mem_filterMap.1 hname
    have htag : item = .directive (.startBlock name) := by
      unfold Item.blockName? at hopens
      split at hopens
      · cases hopens
        rfl
      · cases hopens
    exact hlast (htag ▸ hitem)
  rw [Blocks.find?_lastOfEach, List.reverse_append, List.reverse_cons, List.append_assoc,
    List.find?_append, List.find?_eq_none.2 hnone]
  simp

/-- The blocks of a document that was read, by name: there is one for each name of a block node in
    the tree, and it is the one whose tag stands last in the text.  Its body is made of all items
    between that tag and the one that closes the block, and it is the body of the block node in the
    tree before which as many blocks are opened as tags open one before the tag. -/
theorem last_opened_block_counts {rules : Rules} {text : String} {document : Document}
    (h : (Document.read rules text).result = .ok document) :
    document.blocks.names.Nodup ∧
    (∀ name, name ∈ document.blocks.names ↔
      ∃ s ∈ document.sequences, ∃ body, Node.block name body ∈ s) ∧
    ∃ tokens items, Token.scan text = .ok tokens ∧ tokens.mapM Token.item = .ok items ∧
      InStep items (Node.blocksIn document.root) ∧
      ∀ before name after, items = before ++ .directive (.startBlock name) :: after →
        .directive (.startBlock name) ∉ after →
        ∃ body front back, document.blocks.find? name = some body ∧
          Encloses maxNesting name after body ∧
          Node.blocksIn document.root = front ++ (name, body) :: back ∧ InStep before front ∧
          ∃ s ∈ document.sequences, Node.block name body ∈ s := by
  have hregistered := Document.registered_of_read h
  obtain ⟨-, tokens, items, hscan, hitems, hderives⟩ := Document.derives_of_read h
  obtain ⟨hstep, htracks⟩ := hderives.registers
  rw [hregistered]
  obtain ⟨hnodup, hnames⟩ := Blocks.names_lastOfEach (Node.blocksIn document.root)
  refine ⟨hnodup, ?_, tokens, items, hscan, hitems, hstep, ?_⟩
  · intro name
    rw [hnames, List.mem_map]
    constructor
    · rintro ⟨⟨_, body⟩, hblock, rfl⟩
      obtain ⟨s, hs, hmem⟩ := Document.mem_blocksIn_iff.1 hblock
      exact ⟨s, hs, body, hmem⟩
    · rintro ⟨s, hs, body, hmem⟩
      exact ⟨(name, body), Document.mem_blocksIn_iff.2 ⟨s, hs, hmem⟩, rfl⟩
  · intro before name after hsplit hlast
    obtain ⟨body, front, back, hencloses, hblocks, hfront, hfound⟩ :=
      htracks.find?_last hstep hsplit hlast
    have hblock : (name, body) ∈ Node.blocksIn document.root := by
      rw [hblocks]
      simp
    exact ⟨body, front, back, hfound, hencloses, hblocks, hfront,
      Document.mem_blocksIn_iff.1 hblock⟩

/-- A text with a block inside another one of its name, in a loop. -/
def selfNestedText : String :=
  "{% for x in xs %}{% block a %}1{% block a %}2{% endblock %}{% endblock a %}{% endfor %}"

/-- What the tokens of `selfNestedText` say behind the tag of the inner block. -/
def selfNestedRest : List Item :=
  [.text "2", .directive (.endBlock none), .directive (.endBlock (some "a")), .directive .endFor]

/-- What the tokens of `selfNestedText` say before that tag. -/
def selfNestedStart : List Item :=
  [.directive (.startFor "x" "xs"), .directive (.startBlock "a"), .text "1"]

/-- The inner block of `selfNestedText` counts, although it is closed first. -/
theorem selfNestedText_blocks : ∃ document body,
    (Document.read .default selfNestedText).result = .ok document ∧
    document.blocks.find? "a" = some body ∧ Encloses maxNesting "a" selfNestedRest body := by
  have hread : (Document.read .default selfNestedText).result.isOk = true := by decide +kernel
  have hsays : (Token.scan selfNestedText).toOption.bind (fun ts =>
      (ts.mapM Token.item).toOption)
        = some (selfNestedStart ++ .directive (.startBlock "a") :: selfNestedRest) := by
    decide +kernel
  cases hdocument : (Document.read .default selfNestedText).result with
  | error fault =>
    rw [hdocument] at hread
    cases hread
  | ok document =>
    obtain ⟨-, -, tokens, items, hscan, hitems, -, hlast⟩ := last_opened_block_counts hdocument
    rw [hscan] at hsays
    have hsplit : items = selfNestedStart ++ .directive (.startBlock "a") :: selfNestedRest := by
      simpa [hitems, Except.toOption] using hsays
    obtain ⟨body, front, back, hfound, hencloses, -⟩ :=
      hlast selfNestedStart "a" selfNestedRest hsplit (by decide)
    exact ⟨document, body, rfl, hfound, hencloses⟩

end TextTemplate.Markup
