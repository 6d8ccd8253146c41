import TextTemplate.Proofs.Markup.Grammar

/-! # The outline of a builder

  A builder's open directives and nodes are its outline.  Taking an item moves
  from one outline to another in one of five ways, whatever else the builder
  holds: its places, its remarks and the names of its blocks stay out of it.
  Under the default rules, tokens are read exactly if there are such moves.
-/

namespace TextTemplate.Markup

/-! ### Outlines -/

/-- What counts of a builder: the open directives, each with the nodes before it, and the nodes of
    the innermost sequence. -/
structure Outline where
  frames : List (Header × List Node)
  nodes : List Node

/-- The outline of a builder. -/
def Builder.outline (b : Builder) : Outline := ⟨b.frames.map fun f => (f.header, f.before), b.nodes⟩

namespace Item

/-- The node that an item is by itself. -/
def node? : Item → Option Node
  | .text s => some (.text s)
  | .output expr => some (.output expr)
  | .directive _ => none

/-- Does the item leave nothing in the tree? -/
def isSilent : Item → Bool
  | .directive (.extends_ _) | .directive (.unknown _) => true
  | _ => false

/-- The header of the frame that an item opens. -/
def opens? : Item → Option Header
  | .directive (.startIf condition) => some (.branch .first (some condition))
  | .directive (.startFor name source) => some (.loop name source)
  | .directive (.startBlock name) => some (.block name)
  | _ => none

/-- The header of the branch that an item goes on with. -/
def goesOn? : Item → Option Header
  | .directive (.elseIf condition) => some (.branch .next (some condition))
  | .directive .otherwise => some (.branch .otherwise none)
  | _ => none

/-- The item may close a frame with the header. -/
def Closes : Item → Header → Prop
  | .directive .endIf, .branch _ _ => True
  | .directive .endFor, .loop _ _ => True
  | .directive (.endBlock name?), .block name => name? = none ∨ name? = some name
  | _, _ => False

theorem closes_endIf_iff {header : Header} :
    (Item.directive .endIf).Closes header ↔ header.kind ∈ [FrameKind.branch, .otherwise] := by
  cases header with
  | branch place condition? => cases place <;> simp [Closes, Header.kind]
  | loop | block => simp [Closes, Header.kind]

theorem closes_endFor_iff {header : Header} :
    (Item.directive .endFor).Closes header ↔ header.kind ∈ [FrameKind.loop] := by
  cases header with
  | branch place condition? => cases place <;> simp [Closes, Header.kind]
  | loop | block => simp [Closes, Header.kind]

theorem eq_endIf_of_closes {item : Item} {place : Branch} {condition? : Option String}
    (h : item.Closes (.branch place condition?)) : item = .directive .endIf := by
  cases item with
  | text | output => exact h.elim
  | directive d =>
    cases d with
    | endIf => rfl
    | _ => exact h.elim

theorem eq_endFor_of_closes {item : Item} {name source : String}
    (h : item.Closes (.loop name source)) : item = .directive .endFor := by
  cases item with
  | text | output => exact h.elim
  | directive d =>
    cases d with
    | endFor => rfl
    | _ => exact h.elim

theorem eq_endBlock_of_closes {item : Item} {name : String} (h : item.Closes (.block name)) :
    ∃ name?, (name? = none ∨ name? = some name) ∧ item = .directive (.endBlock name?) := by
  cases item with
  | text | output => exact h.elim
  | directive d =>
    cases d with
    | endBlock name? => exact ⟨name?, h, rfl⟩
    | _ => exact h.elim

end Item

/-- Taking the item moves from one outline to the other. -/
inductive Move : Outline → Item → Outline → Prop where
  | add {frames : List (Header × List Node)} {nodes : List Node} {item : Item} {node : Node} :
      item.node? = some node → Move ⟨frames, nodes⟩ item ⟨frames, node :: nodes⟩
  | skip {o : Outline} {item : Item} : item.isSilent → Move o item o
  | open_ {frames : List (Header × List Node)} {nodes : List Node} {item : Item} {header : Header} :
      item.opens? = some header → frames.length < maxNesting →
      Move ⟨frames, nodes⟩ item ⟨(header, nodes) :: frames, []⟩
  | close {frames : List (Header × List Node)} {before nodes : List Node} {item : Item}
      {header : Header} :
      item.Closes header →
      Move ⟨(header, before) :: frames, nodes⟩ item
        ⟨frames, header.node nodes.reverse :: before⟩
  | goOn {frames : List (Header × List Node)} {before nodes : List Node} {item : Item}
      {header next : Header} :
      item.goesOn? = some next → header.kind = .branch → frames.length < maxNesting →
      Move ⟨(header, before) :: frames, nodes⟩ item
        ⟨(next, header.node nodes.reverse :: before) :: frames, []⟩

/-- An item that is a node by itself is added to the innermost sequence. -/
theorem move_iff_of_node? {item : Item} {node : Node} (hnode : item.node? = some node)
    {o o' : Outline} : Move o item o' ↔ o' = ⟨o.frames, node :: o.nodes⟩ := by
  constructor
  · intro h
    cases item with
    | directive d => cases hnode
    | text | output =>
      cases h with
      | add hother =>
        rw [hnode] at hother
        obtain rfl := Option.some.inj hother
        rfl
      | skip hsilent => cases hsilent
      | open_ hopens => cases hopens
      | close hcloses => exact hcloses.elim
      | goOn hnext => cases hnext
  · rintro rfl
    exact .add hnode

/-- Closing a directive makes a node of its body, which was read to its end. -/
theorem Move.close_body {frames : List (Header × List Node)} {before body : List Node}
    {item : Item} {header : Header} (hcloses : item.Closes header) :
    Move ⟨(header, before) :: frames, body.reverse⟩ item ⟨frames, header.node body :: before⟩ := by
  have hmove : Move ⟨(header, before) :: frames, body.reverse⟩ item
      ⟨frames, header.node body.reverse.reverse :: before⟩ := .close hcloses
  rwa [List.reverse_reverse] at hmove

/-- Going on with a conditional makes a node of the branch before, which was read to its end. -/
theorem Move.goOn_body {frames : List (Header × List Node)} {before body : List Node}
    {item : Item} {header next : Header} (hnext : item.goesOn? = some next)
    (hkind : header.kind = .branch) (hroom : frames.length < maxNesting) :
    Move ⟨(header, before) :: frames, body.reverse⟩ item
      ⟨(next, header.node body :: before) :: frames, []⟩ := by
  have hmove : Move ⟨(header, before) :: frames, body.reverse⟩ item
      ⟨(next, header.node body.reverse.reverse :: before) :: frames, []⟩ :=
    .goOn hnext hkind hroom
  rwa [List.reverse_reverse] at hmove

/-- Taking the items, one after the other, moves from one outline to the other. -/
inductive Moves : Outline → List Item → Outline → Prop where
  | nil {o : Outline} : Moves o [] o
  | cons {o o' o'' : Outline} {item : Item} {items : List Item} :
      Move o item o' → Moves o' items o'' → Moves o (item :: items) o''

theorem Moves.single {o o' : Outline} {item : Item} (h : Move o item o') : Moves o [item] o' :=
  .cons h .nil

theorem Moves.append {o o' o'' : Outline} {items items' : List Item} (h : Moves o items o')
    (h' : Moves o' items' o'') : Moves o (items ++ items') o'' := by
  induction h with
  | nil => exact h'
  | cons hmove _ ih => exact .cons hmove (ih h')

/-! ### Builders move -/

namespace Builder

variable {b : Builder}

@[simp] theorem enter_frames (header : Header) (location : Location) :
    (b.enter header location).frames
      = ⟨header, location, b.nodes, b.bodies.length⟩ :: b.frames := by
  cases header <;> rfl

@[simp] theorem enter_nodes (header : Header) (location : Location) :
    (b.enter header location).nodes = [] := by
  cases header <;> rfl

@[simp] theorem leave_frames (f : Frame) (outer : List Frame) : (b.leave f outer).frames = outer :=
  rfl

@[simp] theorem leave_nodes (f : Frame) (outer : List Frame) :
    (b.leave f outer).nodes = f.header.node b.nodes.reverse :: f.before := rfl

/-- What opening a directive comes to. -/
theorem open_ok_iff {header : Header} {location : Location} {b' : Builder} :
    b.open_ header location = .ok b' ↔ b.frames.length < maxNesting ∧
      b' = b.enter header location := by
  unfold open_
  by_cases hroom : b.frames.length < maxNesting
  · simp [hroom, eq_comm]
  · simp [hroom]

/-- What closing a directive comes to. -/
theorem close_ok_iff {closer : Closer} {kinds : List FrameKind} {closed : Header × Builder} :
    b.close closer kinds = .ok closed ↔ ∃ f outer, b.frames = f :: outer ∧ f.header.kind ∈ kinds ∧
      closed = (f.header, b.leave f outer) := by
  unfold close
  cases hframes : b.frames with
  | nil => simp
  | cons f outer =>
    by_cases hkind : f.header.kind ∈ kinds
    · simp [hkind, and_assoc, eq_comm]
    · simp [hkind, and_assoc]

/-- What going on with a conditional comes to. -/
theorem branch_ok_iff {closer : Closer} {next : Header} {location : Location} {b' : Builder} :
    b.branch closer next location = .ok b' ↔ ∃ f outer, b.frames = f :: outer ∧
      f.header.kind = .branch ∧ outer.length < maxNesting ∧
      b' = (b.leave f outer).enter next location := by
  unfold branch close
  cases hframes : b.frames with
  | nil => simp [bind, Except.bind]
  | cons f outer =>
    cases hkind : f.header.kind with
    -- The limit is checked when the branch before is closed already.
    | branch => simp [bind, Except.bind, hkind, open_ok_iff, and_assoc]
    -- Nothing goes on behind the last branch.
    | otherwise => simp [bind, Except.bind, hkind, and_assoc]
    | loop | block => simp [bind, Except.bind, hkind, and_assoc]

/-- What closing a directive comes to, if its header does not matter any more. -/
theorem close_map_ok_iff {closer : Closer} {kinds : List FrameKind} {b' : Builder} :
    (b.close closer kinds).map (·.2) = .ok b' ↔ ∃ f outer, b.frames = f :: outer ∧
      f.header.kind ∈ kinds ∧ b' = b.leave f outer := by
  have hmap : (b.close closer kinds).map (·.2) = .ok b' ↔
      ∃ closed, b.close closer kinds = .ok closed ∧ closed.2 = b' := by
    cases b.close closer kinds with
    | error cause => simp [Except.map]
    | ok closed => simp [Except.map]
  rw [hmap]
  constructor
  · rintro ⟨closed, hclose, rfl⟩
    obtain ⟨f, outer, hframes, hkind, rfl⟩ := close_ok_iff.1 hclose
    exact ⟨f, outer, hframes, hkind, rfl⟩
  · rintro ⟨f, outer, hframes, hkind, rfl⟩
    exact ⟨_, close_ok_iff.2 ⟨f, outer, hframes, hkind, rfl⟩, rfl⟩

/-- What closing a block comes to: a name that is given has to be the block's own. -/
theorem endBlock_ok_iff {rules : Rules} {name? : Option String} {location : Location}
    {b' : Builder} :
    (b.directive rules (.endBlock name?) location).2 = .ok b' ↔ ∃ f outer, b.frames = f :: outer ∧
      (Item.directive (.endBlock name?)).Closes f.header ∧ b' = b.leave f outer := by
  unfold directive close
  cases hframes : b.frames with
  | nil => simp [bind, Except.bind]
  | cons f outer =>
    cases hheader : f.header with
    | branch place condition? =>
      cases place <;>
        simp [bind, Except.bind, hheader, Header.kind, Item.Closes, and_assoc]
    | loop name source => simp [bind, Except.bind, hheader, Header.kind, Item.Closes, and_assoc]
    | block name =>
      cases name? with
      | none =>
        simp [bind, Except.bind, hheader, Header.kind, Item.Closes, pure, Except.pure, and_assoc,
          eq_comm]
      | some given =>
        by_cases hsame : given = name
        · simp [bind, Except.bind, hheader, Header.kind, Item.Closes, hsame, pure, Except.pure,
            and_assoc, eq_comm]
        · simp [bind, Except.bind, hheader, Header.kind, Item.Closes, hsame, and_assoc]

/-- What a directive that may close a frame comes to. -/
theorem end_ok_iff {rules : Rules} {d : Directive} {location : Location} {b' : Builder}
    (hd : ∃ header, (Item.directive d).Closes header) :
    (b.directive rules d location).2 = .ok b' ↔ ∃ f outer, b.frames = f :: outer ∧
      (Item.directive d).Closes f.header ∧ b' = b.leave f outer := by
  obtain ⟨header, hheader⟩ := hd
  cases d with
  | endIf => simp only [directive, close_map_ok_iff, Item.closes_endIf_iff]
  | endFor => simp only [directive, close_map_ok_iff, Item.closes_endFor_iff]
  | endBlock name? => exact endBlock_ok_iff
  | _ => exact hheader.elim

/-- What opening a block comes to under the default rules, which allow a second one of its name. -/
theorem openBlock_ok_iff {name : String} {location : Location} {b' : Builder} :
    (b.openBlock .default name location).2 = .ok b' ↔ b.frames.length < maxNesting ∧
      b' = b.enter (.block name) location := by
  unfold openBlock
  have hallowed : (Rules.default.duplicates == .error) = false := rfl
  simp [hallowed, open_ok_iff]

/-- A builder whose outline has an open directive has an innermost frame. -/
theorem frames_of_outline {header : Header} {before nodes : List Node}
    {frames : List (Header × List Node)} (h : b.outline = ⟨(header, before) :: frames, nodes⟩) :
    ∃ f outer, b.frames = f :: outer ∧ f.header = header ∧ f.before = before ∧
      outer.map (fun f => (f.header, f.before)) = frames ∧ b.nodes = nodes := by
  obtain ⟨hframes, hnodes⟩ := Outline.mk.inj h
  obtain ⟨f, outer, hcons, hfirst, hrest⟩ := List.map_eq_cons_iff.1 hframes
  obtain ⟨hheader, hbefore⟩ := Prod.mk.inj hfirst
  exact ⟨f, outer, hcons, hheader, hbefore, hrest, hnodes⟩

/-- Opening a directive moves the outline. -/
theorem move_open {item : Item} {header : Header} (hitem : item.opens? = some header)
    (hroom : b.frames.length < maxNesting) : Move b.outline item
      ⟨(header, b.nodes) :: b.frames.map (fun f => (f.header, f.before)), []⟩ := by
  apply Move.open_ hitem
  simpa using hroom

/-- Ending a directive moves the outline. -/
theorem move_end {d : Directive} {location : Location} {b' : Builder}
    (hd : ∃ header, (Item.directive d).Closes header)
    (h : (b.directive .default d location).2 = .ok b') :
    Move b.outline (.directive d) b'.outline := by
  obtain ⟨f, outer, hframes, hcloses, rfl⟩ := (end_ok_iff hd).1 h
  unfold outline
  rw [hframes]
  exact .close hcloses

/-- Taking a directive moves the outline. -/
theorem move_of_directive {d : Directive} {location : Location} {b' : Builder}
    (h : (b.directive .default d location).2 = .ok b') :
    Move b.outline (.directive d) b'.outline := by
  cases d with
  | startIf condition | startFor name source =>
    obtain ⟨hroom, rfl⟩ := open_ok_iff.1 h
    exact move_open rfl hroom
  | startBlock name =>
    obtain ⟨hroom, rfl⟩ := openBlock_ok_iff.1 h
    exact move_open rfl hroom
  | elseIf condition | otherwise =>
    obtain ⟨f, outer, hframes, hkind, hroom, rfl⟩ := branch_ok_iff.1 h
    unfold outline
    rw [hframes]
    exact .goOn rfl hkind (by simpa using hroom)
  | endIf => exact move_end ⟨.branch .first none, trivial⟩ h
  | endFor => exact move_end ⟨.loop "" "", trivial⟩ h
  | endBlock name? =>
    have hcloses : (Item.directive (.endBlock name?)).Closes (.block (name?.getD "")) := by
      cases name? <;> simp [Item.Closes]
    exact move_end ⟨_, hcloses⟩ h
  | extends_ name | unknown keyword =>
    obtain rfl := Except.ok.inj h
    exact .skip rfl

/-- Every move that a directive allows is the one that taking it makes. -/
theorem directive_of_move {d : Directive} {o : Outline} (h : Move b.outline (.directive d) o)
    (location : Location) :
    ∃ b', (b.directive .default d location).2 = .ok b' ∧ b'.outline = o := by
  -- The start of the move has to be a variable for the cases of the move.
  generalize houtline : b.outline = start at h
  cases h with
  | add hnode => cases hnode
  | skip hsilent =>
    subst houtline
    cases d with
    | extends_ name => exact ⟨_, rfl, rfl⟩
    | unknown keyword => exact ⟨_, rfl, rfl⟩
    | _ => cases hsilent
  | @open_ frames nodes _ header hopens hroom =>
    obtain ⟨rfl, rfl⟩ := Outline.mk.inj houtline
    rw [List.length_map] at hroom
    cases d with
    | startIf condition | startFor name source =>
      cases hopens
      exact ⟨_, open_ok_iff.2 ⟨hroom, rfl⟩, rfl⟩
    | startBlock name =>
      cases hopens
      exact ⟨_, openBlock_ok_iff.2 ⟨hroom, rfl⟩, rfl⟩
    | _ => cases hopens
  | @close frames before nodes _ header hcloses =>
    obtain ⟨f, outer, hframes, rfl, rfl, rfl, rfl⟩ := frames_of_outline houtline
    exact ⟨_, (end_ok_iff ⟨_, hcloses⟩).2 ⟨f, outer, hframes, hcloses, rfl⟩, rfl⟩
  | @goOn frames before nodes _ header next hnext hkind hroom =>
    obtain ⟨f, outer, hframes, rfl, rfl, rfl, rfl⟩ := frames_of_outline houtline
    rw [List.length_map] at hroom
    cases d with
    | elseIf condition | otherwise =>
      cases hnext
      exact ⟨_, branch_ok_iff.2 ⟨f, outer, hframes, hkind, hroom, rfl⟩, rfl⟩
    | _ => cases hnext

/-- What a token does is up to its item and its place. -/
theorem token_eq {rules : Rules} (b : Builder) (t : Token) : b.token rules t = match t.item with
    | .ok (.text s) => ([], .ok (b.add (.text s)))
    | .ok (.output expr) => ([], .ok (b.add (.output expr)))
    | .ok (.directive d) =>
      ((b.directive rules d t.location).1,
        (b.directive rules d t.location).2.mapError (⟨·, t.location⟩))
    | .error cause => ([], .error ⟨cause, t.location⟩) := by
  unfold token Token.item
  cases t.kind with
  | text => rfl
  | tag kind =>
    cases kind with
    | output => rfl
    | directive => cases Directive.read t.value <;> rfl

/-- Taking a token makes the move of its item, if there is one. -/
theorem token_ok_iff_move {t : Token} {item : Item} (hitem : t.item = .ok item) {o : Outline} :
    (∃ b', (b.token .default t).2 = .ok b' ∧ b'.outline = o) ↔ Move b.outline item o := by
  -- Texts and output tags are added in the same way.
  have hnode : ∀ node, item.node? = some node →
      ((∃ b', (.ok (b.add node) : Except Fault Builder) = .ok b' ∧ b'.outline = o) ↔
        Move b.outline item o) := by
    intro node hnode
    rw [move_iff_of_node? hnode]
    constructor
    · rintro ⟨b', h, rfl⟩
      obtain rfl := Except.ok.inj h
      rfl
    · rintro rfl
      exact ⟨_, rfl, rfl⟩
  rw [token_eq, hitem]
  cases item with
  | text s => exact hnode (.text s) rfl
  | output expr => exact hnode (.output expr) rfl
  | directive d =>
    -- A fault would only get the place of the token.
    have hresult : ∀ b', ((b.directive .default d t.location).2.mapError (⟨·, t.location⟩) :
        Except Fault Builder) = .ok b' ↔ (b.directive .default d t.location).2 = .ok b' := by
      intro b'
      cases (b.directive .default d t.location).2 with
      | error cause => exact iff_of_false nofun nofun
      | ok made =>
        show Except.ok made = Except.ok b' ↔ _
        simp only [Except.ok.injEq]
    simp only [hresult]
    constructor
    · rintro ⟨b', h, rfl⟩
      exact move_of_directive h
    · intro h
      exact directive_of_move h t.location

/-- Behind a token that is taken, the others are taken as they would be on their own. -/
theorem tokens_cons_ok {rules : Rules} {b' : Builder} {t : Token}
    (htoken : (b.token rules t).2 = .ok b') (ts : List Token) :
    (b.tokens rules (t :: ts)).2 = (b'.tokens rules ts).2 := by
  rw [tokens]
  rcases h : b.token rules t with ⟨remarks, result⟩
  rw [h] at htoken
  obtain rfl : result = .ok b' := htoken
  rfl

/-- What follows a token that is not taken does not matter. -/
theorem tokens_cons_error {rules : Rules} {t : Token} {fault : Fault}
    (htoken : (b.token rules t).2 = .error fault) (ts : List Token) :
    (b.tokens rules (t :: ts)).2 = .error fault := by
  rw [tokens]
  rcases h : b.token rules t with ⟨remarks, result⟩
  rw [h] at htoken
  obtain rfl : result = .error fault := htoken
  rfl

/-- Taking tokens makes the moves of their items, if there are such moves. -/
theorem tokens_ok_iff_moves {ts : List Token} {items : List Item}
    (hitems : ts.mapM Token.item = .ok items) {o : Outline} :
    (∃ b', (b.tokens .default ts).2 = .ok b' ∧ b'.outline = o) ↔ Moves b.outline items o := by
  induction ts generalizing b items with
  | nil =>
    obtain rfl := Except.ok.inj hitems
    constructor
    · rintro ⟨b', h, rfl⟩
      obtain rfl := Except.ok.inj h
      exact .nil
    · intro h
      cases h
      exact ⟨b, rfl, rfl⟩
  | cons t rest ih =>
    -- The items are those of the first token and of the rest.
    obtain ⟨item, more, hitem, hmore, rfl⟩ := Token.mapM_item_cons_iff.1 hitems
    constructor
    · rintro ⟨b', h, rfl⟩
      cases htoken : (b.token .default t).2 with
      | error fault =>
        rw [tokens_cons_error htoken] at h
        cases h
      | ok b₁ =>
        rw [tokens_cons_ok htoken] at h
        have hmove := (token_ok_iff_move hitem).1 ⟨b₁, htoken, rfl⟩
        exact .cons hmove ((ih hmore).1 ⟨b', h, rfl⟩)
    · intro h
      cases h with
      | cons hmove hmoves =>
        obtain ⟨b₁, htoken, rfl⟩ := (token_ok_iff_move hitem).2 hmove
        obtain ⟨b', hrest, rfl⟩ := (ih hmore).2 hmoves
        exact ⟨b', by rw [tokens_cons_ok htoken, hrest], rfl⟩

/-- A builder is finished if no directive is open. -/
theorem finish_ok_iff {document : Document} : b.finish = .ok document ↔ b.frames = [] ∧
    document = ⟨b.nodes.reverse, b.blocks, b.parent?⟩ := by
  unfold finish
  cases b.frames with
  | nil => simp [eq_comm]
  | cons f outer => simp

end Builder

/-- The document that tokens make up is that of the builder that has taken all of them. -/
theorem Document.ofTokens_ok_iff {rules : Rules} {ts : List Token} {document : Document} :
    (Document.ofTokens rules ts).result = .ok document ↔
      ∃ b, (Builder.empty.tokens rules ts).2 = .ok b ∧ b.finish = .ok document := by
  unfold Document.ofTokens
  cases hbuilt : (Builder.empty.tokens rules ts).2 with
  | error fault => simp [hbuilt, Except.bind]
  | ok b => simp [hbuilt, Except.bind]

/-- Reading tokens makes moves from nothing to nothing but the root. -/
theorem Document.ofTokens_ok_iff_moves {ts : List Token} {items : List Item}
    (hitems : ts.mapM Token.item = .ok items) {root : List Node} :
    (∃ document, (Document.ofTokens .default ts).result = .ok document ∧ document.root = root) ↔
      Moves ⟨[], []⟩ items ⟨[], root.reverse⟩ := by
  have htokens : (∃ b, (Builder.empty.tokens .default ts).2 = .ok b ∧
      b.outline = ⟨[], root.reverse⟩) ↔ Moves ⟨[], []⟩ items ⟨[], root.reverse⟩ :=
    Builder.tokens_ok_iff_moves hitems
  rw [← htokens]
  constructor
  · rintro ⟨document, h, rfl⟩
    obtain ⟨b, hbuilt, hfinish⟩ := ofTokens_ok_iff.1 h
    obtain ⟨hframes, rfl⟩ := Builder.finish_ok_iff.1 hfinish
    refine ⟨b, hbuilt, ?_⟩
    unfold Builder.outline
    rw [hframes, List.reverse_reverse]
    rfl
  · rintro ⟨b, hbuilt, houtline⟩
    obtain ⟨hframes, hnodes⟩ := Outline.mk.inj houtline
    have hroot : b.nodes.reverse = root := by rw [hnodes, List.reverse_reverse]
    have hfinish := Builder.finish_ok_iff.2 ⟨List.map_eq_nil_iff.1 hframes, rfl⟩
    exact ⟨_, ofTokens_ok_iff.2 ⟨b, hbuilt, hfinish⟩, hroot⟩

end TextTemplate.Markup
