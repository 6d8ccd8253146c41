import TextTemplate.Markup.Document

/-! # The grammar of templates

  What the tokens of a template say, and which sequences of them make up a tree:

    sequence  →  (text | output | extends | unknown | conditional | loop | block)*
    conditional  →  if sequence (else-if sequence)* (else sequence)? endif
    loop  →  for sequence endfor
    block  →  block sequence endblock

  A derivation carries the nodes that it makes, and a bound on how many
  directives are open at once.  Its nodes lose nothing: walked in the order of
  the text, they give back the items that made them.
-/

namespace TextTemplate.Markup

/-! ### Items -/

/-- What a token says. -/
inductive Item where
  | text (s : String)
  | output (expr : String)
  | directive (d : Directive)
  deriving Repr, DecidableEq

/-- The item of a token, or what is wrong with the form of its directive. -/
def Token.item (t : Token) : Except Cause Item :=
  match t.kind with
  | .text => .ok (.text t.value)
  | .tag .output => .ok (.output t.value)
  | .tag .directive => (Directive.read t.value).map .directive

/-- What tokens say, one by one. -/
theorem Token.mapM_item_cons_iff {t : Token} {ts : List Token} {items : List Item} :
    (t :: ts).mapM Token.item = .ok items ↔ ∃ item more, t.item = .ok item ∧
      ts.mapM Token.item = .ok more ∧ items = item :: more := by
  rw [List.mapM_cons]
  cases t.item with
  | error cause => simp [bind, Except.bind]
  | ok item =>
    cases ts.mapM Token.item with
    | error cause => simp [bind, Except.bind]
    | ok more => simp [bind, Except.bind, pure, Except.pure, eq_comm]

/-- Every item is said by one of the tokens. -/
theorem Token.exists_item_of_mem {ts : List Token} {items : List Item}
    (h : ts.mapM Token.item = .ok items) {item : Item} (hmem : item ∈ items) :
    ∃ t ∈ ts, t.item = .ok item := by
  induction ts generalizing items with
  | nil =>
    obtain rfl : [] = items := Except.ok.inj h
    cases hmem
  | cons t ts ih =>
    obtain ⟨first, more, hfirst, hmore, rfl⟩ := Token.mapM_item_cons_iff.1 h
    rcases List.mem_cons.1 hmem with rfl | hmem
    · exact ⟨t, List.mem_cons_self, hfirst⟩
    · obtain ⟨t', ht', hitem⟩ := ih hmore hmem
      exact ⟨t', List.mem_cons_of_mem _ ht', hitem⟩

/-- What the tree keeps of an item.  It has no place for a directive without a body, and the name
    that an `endblock` repeats is not written down twice. -/
def Item.kept? : Item → Option Item
  | .directive (.extends_ _) => none
  | .directive (.unknown _) => none
  | .directive (.endBlock _) => some (.directive (.endBlock none))
  | item => some item

/-! ### Derivations -/

/-- What is derived. -/
inductive Part where
  /-- A sequence of nodes. -/
  | sequence
  /-- The further branches of a conditional, and its end. -/
  | branches

/-- The items make up the nodes.  At most `depth` directives are open at once in a sequence, and in
    the body of a branch. -/
inductive Derives : Part → Nat → List Item → List Node → Prop where
  | nil {depth : Nat} : Derives .sequence depth [] []
  | text {depth : Nat} {s : String} {items : List Item} {nodes : List Node} :
      Derives .sequence depth items nodes →
      Derives .sequence depth (.text s :: items) (.text s :: nodes)
  | output {depth : Nat} {expr : String} {items : List Item} {nodes : List Node} :
      Derives .sequence depth items nodes →
      Derives .sequence depth (.output expr :: items) (.output expr :: nodes)
  | extends_ {depth : Nat} {name : String} {items : List Item} {nodes : List Node} :
      Derives .sequence depth items nodes →
      Derives .sequence depth (.directive (.extends_ name) :: items) nodes
  | unknown {depth : Nat} {keyword : String} {items : List Item} {nodes : List Node} :
      Derives .sequence depth items nodes →
      Derives .sequence depth (.directive (.unknown keyword) :: items) nodes
  | conditional {depth : Nat} {condition : String} {inner tail items : List Item}
      {body more nodes : List Node} :
      Derives .sequence depth inner body →
      Derives .branches depth tail more →
      Derives .sequence (depth + 1) items nodes →
      Derives .sequence (depth + 1) (.directive (.startIf condition) :: (inner ++ (tail ++ items)))
        (.branch .first (some condition) body :: (more ++ nodes))
  | loop {depth : Nat} {name source : String} {inner items : List Item} {body nodes : List Node} :
      Derives .sequence depth inner body →
      Derives .sequence (depth + 1) items nodes →
      Derives .sequence (depth + 1)
        (.directive (.startFor name source) :: (inner ++ .directive .endFor :: items))
        (.loop name source body :: nodes)
  | block {depth : Nat} {name : String} {name? : Option String} {inner items : List Item}
      {body nodes : List Node} :
      name? = none ∨ name? = some name →
      Derives .sequence depth inner body →
      Derives .sequence (depth + 1) items nodes →
      Derives .sequence (depth + 1)
        (.directive (.startBlock name) :: (inner ++ .directive (.endBlock name?) :: items))
        (.block name body :: nodes)
  | elseIf {depth : Nat} {condition : String} {inner tail : List Item} {body more : List Node} :
      Derives .sequence depth inner body →
      Derives .branches depth tail more →
      Derives .branches depth (.directive (.elseIf condition) :: (inner ++ tail))
        (.branch .next (some condition) body :: more)
  | otherwise {depth : Nat} {inner : List Item} {body : List Node} :
      Derives .sequence depth inner body →
      Derives .branches depth (.directive .otherwise :: (inner ++ [.directive .endIf]))
        [.branch .otherwise none body]
  | endIf {depth : Nat} : Derives .branches depth [.directive .endIf] []

/-! ### Walking a tree -/

/-- The directive that opens a branch. -/
def Branch.directive (condition? : Option String) : Branch → Directive
  | .first => .startIf (condition?.getD "")
  | .next => .elseIf (condition?.getD "")
  | .otherwise => .otherwise

namespace Node

/-- Is the first node of a sequence a further branch of the conditional before it? -/
def goesOn : List Node → Bool
  | .branch .first _ _ :: _ => false
  | .branch _ _ _ :: _ => true
  | _ => false

/-- The item that ends a conditional, unless what follows goes on with it. -/
def conditionalEnd (rest : List Node) : List Item :=
  if goesOn rest then [] else [.directive .endIf]

mutual

/-- The items of a node before the given sequence, in the order of the text: the opening directive,
    the body, the closing directive. -/
def walk (rest : List Node) : Node → List Item
  | .text s => [.text s]
  | .output expr => [.output expr]
  | .branch place condition? body =>
    .directive (place.directive condition?) :: (walkIn body ++ conditionalEnd rest)
  | .loop name source body =>
    .directive (.startFor name source) :: (walkIn body ++ [.directive .endFor])
  | .block name body =>
    .directive (.startBlock name) :: (walkIn body ++ [.directive (.endBlock none)])
  | .bare => []

/-- The items of a sequence, in the order of the text. -/
def walkIn : List Node → List Item
  | [] => []
  | node :: rest => walk rest node ++ walkIn rest

end

theorem conditionalEnd_of_not_goesOn {rest : List Node} (h : goesOn rest = false) :
    conditionalEnd rest = [.directive .endIf] := by
  unfold conditionalEnd
  rw [h]
  rfl

theorem conditionalEnd_next (condition? : Option String) (body rest : List Node) :
    conditionalEnd (.branch .next condition? body :: rest) = [] := rfl

theorem conditionalEnd_otherwise (condition? : Option String) (body rest : List Node) :
    conditionalEnd (.branch .otherwise condition? body :: rest) = [] := rfl

end Node

/-- The nodes give back the items.  Branches do so behind a body of their conditional, whatever
    sequence follows them. -/
def Part.Walked (items : List Item) (nodes : List Node) : Part → Prop
  | .sequence => Node.goesOn nodes = false ∧ Node.walkIn nodes = items.filterMap Item.kept?
  | .branches => ∀ rest, Node.goesOn rest = false →
      Node.conditionalEnd (nodes ++ rest) ++ Node.walkIn (nodes ++ rest)
        = items.filterMap Item.kept? ++ Node.walkIn rest

/-- The nodes of a derivation give back its items. -/
theorem Derives.walked {part : Part} {depth : Nat} {items : List Item} {nodes : List Node}
    (h : Derives part depth items nodes) : part.Walked items nodes := by
  induction h with
  | nil => exact ⟨rfl, rfl⟩
  | text _ ih | output _ ih =>
    obtain ⟨-, hwalk⟩ := ih
    refine ⟨rfl, ?_⟩
    simp [Node.walkIn, Node.walk, Item.kept?, hwalk]
  | extends_ _ ih | unknown _ ih =>
    obtain ⟨hfirst, hwalk⟩ := ih
    exact ⟨hfirst, hwalk⟩
  | conditional _ _ _ ihbody ihmore ih =>
    obtain ⟨-, hbody⟩ := ihbody
    obtain ⟨hfirst, hwalk⟩ := ih
    refine ⟨rfl, ?_⟩
    -- A sequence never starts with a further branch, so the branches end before it.
    have hmore := ihmore _ hfirst
    simp [Node.walkIn, Node.walk, Branch.directive, Item.kept?, hbody, hwalk, hmore]
  | loop _ _ ihbody ih | block _ _ _ ihbody ih =>
    obtain ⟨-, hbody⟩ := ihbody
    obtain ⟨-, hwalk⟩ := ih
    refine ⟨rfl, ?_⟩
    simp [Node.walkIn, Node.walk, Item.kept?, hbody, hwalk]
  | elseIf _ _ ihbody ihmore =>
    obtain ⟨-, hbody⟩ := ihbody
    intro rest hrest
    have hmore := ihmore rest hrest
    simp [Node.walkIn, Node.walk, Node.conditionalEnd_next, Branch.directive, Item.kept?, hbody,
      hmore]
  | otherwise _ ihbody =>
    obtain ⟨-, hbody⟩ := ihbody
    intro rest hrest
    have hend := Node.conditionalEnd_of_not_goesOn hrest
    rw [List.singleton_append]
    simp [Node.walkIn, Node.walk, Node.conditionalEnd_otherwise, hend, Branch.directive,
      Item.kept?, hbody]
  | endIf =>
    intro rest hrest
    rw [List.nil_append, Node.conditionalEnd_of_not_goesOn hrest]
    rfl

end TextTemplate.Markup
