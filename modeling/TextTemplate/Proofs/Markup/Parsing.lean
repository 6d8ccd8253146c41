import TextTemplate.Proofs.Markup.Outline

/-! # Reading follows the grammar

  A derivation guides moves through its items (`Derives.guided`).  In the other
  direction, what an outline still needs of a text is `Rest`: the rest of the
  innermost sequence, the items that end its directive, and so on outwards.
  Each move keeps that in sight, read from the end of the text, so the moves
  through a whole text leave a derivation behind.
-/

namespace TextTemplate.Markup

/-! ### Derivations guide moves -/

/-- The items can be taken, and leave the nodes.  Branches can be taken behind a body of their
    conditional, and close it. -/
def Part.Guided (depth : Nat) (items : List Item) (nodes : List Node) : Part → Prop
  | .sequence => ∀ frames before, frames.length + depth ≤ maxNesting →
      Moves ⟨frames, before⟩ items ⟨frames, nodes.reverse ++ before⟩
  | .branches => ∀ header frames before body, header.kind = .branch →
      frames.length + depth < maxNesting →
      Moves ⟨(header, before) :: frames, body.reverse⟩ items
        ⟨frames, nodes.reverse ++ header.node body :: before⟩

/-- A body can be taken right behind the directive that opens it. -/
theorem Part.Guided.body {depth : Nat} {inner : List Item} {body : List Node}
    {frames : List (Header × List Node)} (h : Part.sequence.Guided depth inner body)
    (hroom : frames.length + depth < maxNesting) (frame : Header × List Node) :
    Moves ⟨frame :: frames, []⟩ inner ⟨frame :: frames, body.reverse⟩ := by
  have hlength : (frame :: frames).length + depth ≤ maxNesting := by
    rw [List.length_cons]
    omega
  have hmoves := h (frame :: frames) [] hlength
  rwa [List.append_nil] at hmoves

/-- A body between a directive and the one that closes it can be taken. -/
theorem Moves.enclosed {opener closer : Item} {header : Header} {inner items : List Item}
    {body before : List Node} {frames : List (Header × List Node)} {o : Outline}
    (hopens : opener.opens? = some header) (hcloses : closer.Closes header)
    (hroom : frames.length < maxNesting)
    (hbody : Moves ⟨(header, before) :: frames, []⟩ inner
      ⟨(header, before) :: frames, body.reverse⟩)
    (hrest : Moves ⟨frames, header.node body :: before⟩ items o) :
    Moves ⟨frames, before⟩ (opener :: (inner ++ closer :: items)) o := by
  have hclose : Moves ⟨(header, before) :: frames, body.reverse⟩ (closer :: items) o :=
    .cons (.close_body hcloses) hrest
  exact .cons (.open_ hopens hroom) (hbody.append hclose)

/-- A derivation guides moves through its items. -/
theorem Derives.guided {part : Part} {depth : Nat} {items : List Item} {nodes : List Node}
    (h : Derives part depth items nodes) : part.Guided depth items nodes := by
  induction h with
  | nil =>
    intro frames before hroom
    exact .nil
  | text _ ih | output _ ih =>
    intro frames before hroom
    rw [List.reverse_cons, List.append_assoc]
    exact .cons (.add rfl) (ih frames _ hroom)
  | extends_ _ ih | unknown _ ih =>
    intro frames before hroom
    exact .cons (.skip rfl) (ih frames before hroom)
  | @conditional depth condition inner tail items body more nodes _ _ _ ihbody ihmore ih =>
    intro frames before hroom
    have hlt : frames.length + depth < maxNesting := by omega
    have hopen : Move ⟨frames, before⟩ (.directive (.startIf condition)) _ := .open_ rfl (by omega)
    have hbody := ihbody.body hlt (.branch .first (some condition), before)
    have hmore := ihmore (.branch .first (some condition)) frames before body rfl hlt
    have hrest := ih frames (more.reverse ++ .branch .first (some condition) body :: before) hroom
    have hmoves := Moves.cons hopen (hbody.append (hmore.append hrest))
    simpa using hmoves
  | @loop depth name source inner items body nodes _ _ ihbody ih =>
    intro frames before hroom
    have hopens : (Item.directive (.startFor name source)).opens? = some (.loop name source) := rfl
    have hcloses : (Item.directive .endFor).Closes (.loop name source) := trivial
    have hbody := ihbody.body (show frames.length + depth < maxNesting by omega)
      (.loop name source, before)
    have hrest := ih frames (.loop name source body :: before) hroom
    rw [List.reverse_cons, List.append_assoc]
    exact .enclosed hopens hcloses (by omega) hbody hrest
  | @block depth name name? inner items body nodes hname _ _ ihbody ih =>
    intro frames before hroom
    have hopens : (Item.directive (.startBlock name)).opens? = some (.block name) := rfl
    have hcloses : (Item.directive (.endBlock name?)).Closes (.block name) := hname
    have hbody := ihbody.body (show frames.length + depth < maxNesting by omega)
      (.block name, before)
    have hrest := ih frames (.block name body :: before) hroom
    rw [List.reverse_cons, List.append_assoc]
    exact .enclosed hopens hcloses (by omega) hbody hrest
  | @elseIf depth condition inner tail body more _ _ ihbody ihmore =>
    intro header frames before first hkind hroom
    -- The branch that is closed and the one that is opened stand at the same depth.
    have hnext : Move ⟨(header, before) :: frames, first.reverse⟩
        (.directive (.elseIf condition)) _ := .goOn_body rfl hkind (by omega)
    have hbody := ihbody.body hroom (.branch .next (some condition), header.node first :: before)
    have hmore := ihmore (.branch .next (some condition)) frames (header.node first :: before) body
      rfl hroom
    rw [List.reverse_cons, List.append_assoc]
    exact .cons hnext (hbody.append hmore)
  | @otherwise depth inner body _ ihbody =>
    intro header frames before first hkind hroom
    have hnext : Move ⟨(header, before) :: frames, first.reverse⟩ (.directive .otherwise) _ :=
      .goOn_body rfl hkind (by omega)
    have hbody := ihbody.body hroom (.branch .otherwise none, header.node first :: before)
    exact .cons hnext (hbody.append (.single (.close_body trivial)))
  | endIf =>
    intro header frames before body hkind hroom
    have hcloses : (Item.directive .endIf).Closes header := by
      rw [Item.closes_endIf_iff, hkind]
      exact List.mem_cons_self
    exact .single (.close_body hcloses)

/-! ### Moves leave a derivation behind -/

/-- The items end a directive with the header and the body, and the nodes are what becomes of it:
    a conditional may have further branches. -/
inductive Ends (depth : Nat) (header : Header) (body : List Node) :
    List Item → List Node → Prop where
  | closed {item : Item} : item.Closes header → Ends depth header body [item] [header.node body]
  | goesOn {items : List Item} {more : List Node} : header.kind = .branch →
      Derives .branches depth items more → Ends depth header body items (header.node body :: more)

/-- The items are the rest of a text: that of the innermost sequence, what ends its directive, and
    so on outwards.  They make the outline a root. -/
inductive Rest : Outline → List Item → List Node → Prop where
  | root {nodes more : List Node} {items : List Item} : Derives .sequence maxNesting items more →
      Rest ⟨[], nodes⟩ items (nodes.reverse ++ more)
  | frame {depth : Nat} {header : Header} {frames : List (Header × List Node)}
      {before nodes more closed root : List Node} {inner tail items : List Item} :
      frames.length + depth + 1 = maxNesting →
      Derives .sequence depth inner more →
      Ends depth header (nodes.reverse ++ more) tail closed →
      Rest ⟨frames, closed.reverse ++ before⟩ items root →
      Rest ⟨(header, before) :: frames, nodes⟩ (inner ++ (tail ++ items)) root

/-- An item that is a node by itself may come first in a sequence. -/
theorem Derives.cons_of_node? {depth : Nat} {item : Item} {node : Node} {items : List Item}
    {nodes : List Node} (h : Derives .sequence depth items nodes) (hnode : item.node? = some node) :
    Derives .sequence depth (item :: items) (node :: nodes) := by
  cases item with
  | text s =>
    cases hnode
    exact .text h
  | output expr =>
    cases hnode
    exact .output h
  | directive d => cases hnode

/-- An item that leaves nothing may come first in a sequence. -/
theorem Derives.cons_of_isSilent {depth : Nat} {item : Item} {items : List Item}
    {nodes : List Node} (h : Derives .sequence depth items nodes) (hsilent : item.isSilent) :
    Derives .sequence depth (item :: items) nodes := by
  cases item with
  | text | output => cases hsilent
  | directive d =>
    cases d with
    | extends_ name => exact .extends_ h
    | unknown keyword => exact .unknown h
    | _ => cases hsilent

/-- An item that opens a directive, its body and its end are a part of a sequence. -/
theorem Derives.opened {depth : Nat} {item : Item} {header : Header} {inner tail items : List Item}
    {body closed nodes : List Node} (hopens : item.opens? = some header)
    (hbody : Derives .sequence depth inner body) (hends : Ends depth header body tail closed)
    (hrest : Derives .sequence (depth + 1) items nodes) :
    Derives .sequence (depth + 1) (item :: (inner ++ (tail ++ items))) (closed ++ nodes) := by
  cases item with
  | text | output => cases hopens
  | directive d =>
    cases d with
    | startIf condition =>
      cases hopens
      cases hends with
      | @closed closer hcloses =>
        obtain rfl := Item.eq_endIf_of_closes hcloses
        exact .conditional hbody .endIf hrest
      | goesOn _ hmore => exact .conditional hbody hmore hrest
    | startFor name source =>
      cases hopens
      cases hends with
      | @closed closer hcloses =>
        obtain rfl := Item.eq_endFor_of_closes hcloses
        exact .loop hbody hrest
      | goesOn hkind => cases hkind
    | startBlock name =>
      cases hopens
      cases hends with
      | @closed closer hcloses =>
        obtain ⟨name?, hname, rfl⟩ := Item.eq_endBlock_of_closes hcloses
        exact .block hname hbody hrest
      | goesOn hkind => cases hkind
    | _ => cases hopens

/-- An item that goes on with a conditional, its body and its end are further branches. -/
theorem Derives.wentOn {depth : Nat} {item : Item} {next : Header} {inner tail : List Item}
    {body closed : List Node} (hnext : item.goesOn? = some next)
    (hbody : Derives .sequence depth inner body) (hends : Ends depth next body tail closed) :
    Derives .branches depth (item :: (inner ++ tail)) closed := by
  cases item with
  | text | output => cases hnext
  | directive d =>
    cases d with
    | elseIf condition =>
      cases hnext
      cases hends with
      | @closed closer hcloses =>
        obtain rfl := Item.eq_endIf_of_closes hcloses
        exact .elseIf hbody .endIf
      | goesOn _ hmore => exact .elseIf hbody hmore
    | otherwise =>
      cases hnext
      cases hends with
      | @closed closer hcloses =>
        obtain rfl := Item.eq_endIf_of_closes hcloses
        exact .otherwise hbody
      | goesOn hkind => cases hkind
    | _ => cases hnext

/-- What comes first in a sequence comes first in the rest of a text. -/
theorem Rest.prepend {frames : List (Header × List Node)} {nodes made root : List Node}
    {first items : List Item} (h : Rest ⟨frames, made.reverse ++ nodes⟩ items root)
    (hfirst : ∀ depth, frames.length + depth = maxNesting → ∀ items nodes,
      Derives .sequence depth items nodes →
      Derives .sequence depth (first ++ items) (made ++ nodes)) :
    Rest ⟨frames, nodes⟩ (first ++ items) root := by
  cases h with
  | @root _ more _ hmore =>
    rw [List.reverse_append, List.reverse_reverse, List.append_assoc]
    exact .root (hfirst maxNesting (Nat.zero_add _) _ _ hmore)
  | @frame depth header frames before _ more closed _ inner tail items hdepth hmore hends hrest =>
    rw [List.reverse_append, List.reverse_reverse, List.append_assoc] at hends
    rw [← List.append_assoc]
    have hlength : (frames.length + 1) + depth = maxNesting := by omega
    exact .frame hdepth (hfirst depth hlength _ _ hmore) hends hrest

/-- A move keeps the rest of a text in sight, read from its end. -/
theorem Rest.of_move {o o' : Outline} {item : Item} {items : List Item} {root : List Node}
    (hmove : Move o item o') (hroom : o.frames.length ≤ maxNesting) (h : Rest o' items root) :
    Rest o (item :: items) root := by
  cases hmove with
  | @add frames nodes _ node hnode =>
    have hrest : Rest ⟨frames, [node].reverse ++ nodes⟩ items root := h
    show Rest ⟨frames, nodes⟩ ([item] ++ items) root
    apply hrest.prepend
    intro depth _ items nodes hmore
    exact hmore.cons_of_node? hnode
  | skip hsilent =>
    have hrest : Rest ⟨o.frames, ([] : List Node).reverse ++ o.nodes⟩ items root := h
    show Rest ⟨o.frames, o.nodes⟩ ([item] ++ items) root
    apply hrest.prepend
    intro depth _ items nodes hmore
    exact hmore.cons_of_isSilent hsilent
  | @open_ frames nodes _ header hopens _ =>
    -- The rest starts with the body and the end of what is opened here.
    cases h with
    | @frame depth _ _ _ _ more closed _ inner tail items hdepth hmore hends hrest =>
      rw [← List.append_assoc, ← List.cons_append]
      apply hrest.prepend
      intro depth' hdepth' items nodes hnodes
      obtain rfl : depth' = depth + 1 := by omega
      rw [List.cons_append, List.append_assoc]
      exact hmore.opened hopens hends hnodes
  | @close frames before nodes _ header hcloses =>
    -- Nothing of the sequence is left, and the item ends its directive.
    rw [List.length_cons] at hroom
    have hends : Ends (maxNesting - frames.length - 1) header (nodes.reverse ++ []) [item]
        [header.node (nodes.reverse ++ [])] := .closed hcloses
    have hrest : Rest ⟨frames, [header.node (nodes.reverse ++ [])].reverse ++ before⟩ items
        root := by
      rw [List.append_nil]
      exact h
    exact .frame (by omega) .nil hends hrest
  | @goOn frames before nodes _ header next hnext hkind _ =>
    -- What ends the next branch ends the one before it, too.
    cases h with
    | @frame depth _ _ _ _ more closed _ inner tail items hdepth hmore hends hrest =>
      have hbranches := hmore.wentOn hnext hends
      have hgoes : Ends depth header (nodes.reverse ++ []) (item :: (inner ++ tail))
          (header.node (nodes.reverse ++ []) :: closed) := .goesOn hkind hbranches
      have hrest' : Rest ⟨frames, (header.node (nodes.reverse ++ []) :: closed).reverse ++ before⟩
          items root := by
        rw [List.append_nil, List.reverse_cons, List.append_assoc]
        exact hrest
      have hframe := Rest.frame hdepth .nil hgoes hrest'
      simpa using hframe

/-- No move opens more directives than may be open at once. -/
theorem Move.length_le {o o' : Outline} {item : Item} (h : Move o item o')
    (hroom : o.frames.length ≤ maxNesting) : o'.frames.length ≤ maxNesting := by
  cases h with
  | add | skip => exact hroom
  | open_ _ hlt => exact hlt
  | close => exact Nat.le_of_succ_le hroom
  | goOn _ _ hlt => exact hlt

/-- Moves keep the rest of a text in sight, read from its end. -/
theorem Rest.of_moves {o o' : Outline} {items : List Item} {root : List Node}
    (hmoves : Moves o items o') (hroom : o.frames.length ≤ maxNesting) (h : Rest o' [] root) :
    Rest o items root := by
  induction hmoves with
  | nil => exact h
  | cons hmove _ ih => exact (ih (hmove.length_le hroom) h).of_move hmove hroom

/-- Moves from nothing to nothing but a root leave a derivation of the root behind. -/
theorem Moves.derives {items : List Item} {root : List Node}
    (h : Moves ⟨[], []⟩ items ⟨[], root.reverse⟩) : Derives .sequence maxNesting items root := by
  have hend : Rest ⟨[], root.reverse⟩ [] (root.reverse.reverse ++ []) := .root .nil
  rw [List.append_nil, List.reverse_reverse] at hend
  cases hend.of_moves h (Nat.zero_le _) with
  | root hderives => exact hderives

/-! ### Reading texts -/

/-- Tokens with well-formed directives are read as a root if and only if the grammar derives it. -/
theorem Document.ofTokens_ok_iff_derives {ts : List Token} {items : List Item}
    (hitems : ts.mapM Token.item = .ok items) {root : List Node} :
    (∃ document, (Document.ofTokens .default ts).result = .ok document ∧ document.root = root) ↔
      Derives .sequence maxNesting items root := by
  rw [ofTokens_ok_iff_moves hitems]
  constructor
  · exact Moves.derives
  · intro h
    have hmoves := h.guided [] [] (Nat.le_of_eq (Nat.zero_add _))
    rwa [List.append_nil] at hmoves

/-- A text with directives inside each other. -/
def nestedText : String :=
  "{% extends e %}{% if x %}a{% else %}{% block n %}{{ y }}{% endblock n %}{% endif %}"

/-- What the tokens of `nestedText` say. -/
def nestedItems : List Item :=
  [.directive (.extends_ "e"), .directive (.startIf "x"), .text "a", .directive .otherwise,
    .directive (.startBlock "n"), .output "y", .directive (.endBlock (some "n")),
    .directive .endIf]

end TextTemplate.Markup
