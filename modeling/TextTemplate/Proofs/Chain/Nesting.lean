import Mathlib.Data.List.Permutation
import TextTemplate.Proofs.Chain.Depth
import TextTemplate.Proofs.Markup.Completing
import TextTemplate.Proofs.Markup.Height

/-! # How deep a single template is rendered

  A template without ancestors is rendered along its own tree, except where the
  name of a block is used again behind it: there the later block is rendered in
  its place, which may stand at any height.  Each such jump leaves one more of
  the blocks behind whose names have been used before, so their number times the
  limit on open directives bounds what the tree's height does not.

  Without blocks of the same name the limit on open directives thus is a limit on
  rendering.  With them it is none: the levels of the places that a block jumps
  to add up, as those of `jumpingText` do.
-/

namespace TextTemplate

open Markup

/-! ### Ranks within one tree -/

/-- The names of the blocks among some openings. -/
def Markup.Opening.names (openings : List Opening) : List String := openings.filterMap (·.1)

namespace Chain

/-- The sequence stands in the tree.  Its rank is its height, and the greatest height once more for
    each block that is opened behind it under a name used before. -/
def Stacked (root : List Node) (rank : Nat) (s : List Node) : Prop :=
  ∃ before after, Node.openingsIn root = before ++ after ∧ Below root s after ∧
    rank = Node.heightIn s
      + maxNesting * repeats (Opening.names before).reverse (Opening.names after)

/-- The whole tree has all its blocks behind it. -/
theorem stacked_root (root : List Node) : Stacked root
    (Node.heightIn root + maxNesting * repeats [] ((Node.blocksIn root).map (·.1))) root := by
  refine ⟨[], Node.openingsIn root, rfl, .root, ?_⟩
  have hnames : (Node.blocksIn root).map (·.1) = Opening.names (Node.openingsIn root) := by
    rw [Node.blocksIn_eq_filterMap, List.map_filterMap]
    simp [Opening.names, Option.map_map, Function.comp_def]
  rw [hnames]
  rfl

/-- How often names are used again behind an opening. -/
theorem repeats_behind (before inner rest : List Opening) (o : Opening) :
    repeats (Opening.names before).reverse (Opening.names (inner ++ o :: rest))
      = repeats (Opening.names before).reverse (Opening.names inner)
        + (if ∃ name ∈ Opening.names (before ++ inner), o.1 = some name then 1 else 0)
        + repeats (Opening.names (before ++ inner ++ [o])).reverse (Opening.names rest) := by
  obtain ⟨name?, body⟩ := o
  cases name? with
  | none => simp [Opening.names, repeats_append]
  | some name =>
    have hseen : (∃ n ∈ Opening.names (before ++ inner), some name = some n) ↔
        name ∈ (Opening.names inner).reverse ++ (Opening.names before).reverse := by
      simp [Opening.names, or_comm]
    simp only [hseen]
    have hnames : Opening.names (inner ++ (some name, body) :: rest)
        = Opening.names inner ++ name :: Opening.names rest := by simp [Opening.names]
    rw [hnames, repeats_append, repeats, Nat.add_assoc]
    simp [Opening.names]

/-- What is opened behind a sequence has no more blocks behind it whose names have been used before,
    and one less if it is such a block itself. -/
theorem Stacked.later {root : List Node} {before after inner rest : List Opening} {o : Opening}
    (hroot : Node.openingsIn root = before ++ after) (hafter : after = inner ++ o :: rest) :
    ∃ count, Stacked root (Node.heightIn o.2 + maxNesting * count) o.2 ∧
      count + (if ∃ name ∈ Opening.names (before ++ inner), o.1 = some name then 1 else 0)
        ≤ repeats (Opening.names before).reverse (Opening.names after) := by
  subst hafter
  have hopenings : Node.openingsIn root = before ++ inner ++ o :: rest := by
    rw [hroot, List.append_assoc]
  refine ⟨_, ⟨before ++ inner ++ [o], rest, ?_, .opened hopenings, rfl⟩, ?_⟩
  · rw [hopenings]
    simp
  · rw [repeats_behind]
    omega

/-- Rendering goes down the ranks. -/
theorem Stacked.inside {document : Document} {name : String} {rank : Nat} {s body : List Node}
    (hregistered : document.Registered) (hheight : Node.heightIn document.root ≤ maxNesting)
    (h : Stacked document.root rank s) (hinside : (derive ⟨name, document⟩ none).Inside s body) :
    ∃ rank' < rank, Stacked document.root rank' body := by
  obtain ⟨before, after, hroot, hbelow, rfl⟩ := h
  -- What stands in the sequence itself is less high.
  have hdown : ∀ {node : Node} {o : Opening}, node ∈ s → node.opening? = some o →
      ∃ rank' < Node.heightIn s
        + maxNesting * repeats (Opening.names before).reverse (Opening.names after),
        Stacked document.root rank' o.2 := by
    intro node o hmem hopens
    obtain ⟨inner, rest, hafter⟩ := hbelow.of_mem hmem hopens
    obtain ⟨count, hstacked, hcount⟩ := Stacked.later hroot hafter
    obtain ⟨front, back, hopenings⟩ := Node.openingsIn_of_mem hmem hopens
    have hlower : Node.heightIn o.2 < Node.heightIn s := by
      apply Node.heightIn_lt_heightIn
      rw [hopenings]
      simp
    refine ⟨_, ?_, hstacked⟩
    have hmul : maxNesting * count
        ≤ maxNesting * repeats (Opening.names before).reverse (Opening.names after) :=
      Nat.mul_le_mul_left _ (by omega)
    omega
  cases hinside with
  | branch hmem => exact hdown hmem rfl
  | loop hmem => exact hdown hmem rfl
  | @block name' own _ hmem hfound =>
    have hlast : (Blocks.lastOfEach (Node.blocksIn document.root)).find? name' = some body := by
      rw [← hregistered]
      simpa [findBlock?, layers, derive] using hfound
    obtain ⟨inner, rest, hafter, rfl | ⟨passed, behind, hrest⟩⟩ := hbelow.of_block hmem hlast
    · exact hdown hmem rfl
    · -- The later block has its name from the one in the sequence, which stands before it.
      have hjump : after
          = (inner ++ (some name', own) :: passed) ++ (some name', body) :: behind := by
        rw [hafter, hrest]
        simp
      obtain ⟨count, hstacked, hcount⟩ := Stacked.later hroot hjump
      rw [if_pos ⟨name', by simp [Opening.names], rfl⟩] at hcount
      have hlower : Node.heightIn body < Node.heightIn document.root := by
        have hmem' : (some name', body) ∈ Node.openingsIn document.root := by
          rw [hroot, hjump]
          simp
        exact Node.heightIn_lt_heightIn hmem'
      refine ⟨_, ?_, hstacked⟩
      show Node.heightIn body + maxNesting * count < _
      have hmul : maxNesting * (count + 1)
          ≤ maxNesting * repeats (Opening.names before).reverse (Opening.names after) :=
        Nat.mul_le_mul_left _ hcount
      rw [Nat.mul_add, Nat.mul_one] at hmul
      omega

end Chain

namespace Render

/-- A template without ancestors is rendered no deeper than directives may be open at once, and as
    much deeper again for each warning that the name of a block is used again.  Where that is an
    error, the limit on open directives is one on rendering. -/
theorem nesting_le_redefinitions {rules : Rules} {text : String} {document : Document}
    (hread : (Document.read rules text).result = .ok document) (name : String) :
    (∀ limit scope,
      maxNesting * ((Document.read rules text).remarks.countP Remark.isRedefinition + 1) < limit →
      sequence (Chain.derive ⟨name, document⟩ none) limit scope document.root
        ≠ .error .tooDeep) ∧
    (rules.duplicates = .error → ∀ limit scope, maxNesting < limit →
      sequence (Chain.derive ⟨name, document⟩ none) limit scope document.root
        ≠ .error .tooDeep) := by
  have hregistered := Document.registered_of_read hread
  obtain ⟨-, tokens, items, -, -, hderives⟩ := Document.derives_of_read hread
  have hheight : Node.heightIn document.root ≤ maxNesting := hderives.heightIn_le
  have hbound : ∀ limit scope,
      maxNesting * ((Document.read rules text).remarks.countP Remark.isRedefinition + 1) < limit →
      sequence (Chain.derive ⟨name, document⟩ none) limit scope document.root
        ≠ .error .tooDeep := by
    intro limit scope hlimit
    have hroot := Chain.stacked_root document.root
    rw [← Document.repeats_of_read hread] at hroot
    rw [Nat.mul_add, Nat.mul_one] at hlimit
    exact ne_tooDeep_of_inside (fun h hinside => h.inside hregistered hheight hinside) hroot
      (by omega) scope
  refine ⟨hbound, ?_⟩
  intro herror limit scope hlimit
  apply hbound
  rw [Document.no_repeats_of_error hread herror]
  exact hlimit

/-- A text whose second block has the name of the first one. -/
def redefiningText : String := "{% block b %}{% endblock %}{% block b %}x{% endblock %}"

/-- A text with a single block. -/
def definingText : String := "{% block b %}x{% endblock %}"

/-- One redefinition doubles the limit, and none keeps it. -/
theorem redefiningText_depth :
    (∃ document, (Document.read .default redefiningText).result = .ok document ∧
      ∀ scope, sequence (Chain.derive ⟨"t", document⟩ none) 201 scope document.root
        ≠ .error .tooDeep) ∧
    ∃ document, (Document.read ⟨false, .error⟩ definingText).result = .ok document ∧
      ∀ scope, sequence (Chain.derive ⟨"t", document⟩ none) 101 scope document.root
        ≠ .error .tooDeep := by
  constructor
  · have hread := @read_documentOf redefiningText (by decide +kernel)
    have hcount : (Document.read .default redefiningText).remarks.countP Remark.isRedefinition
        = 1 := by
      decide +kernel
    obtain ⟨hdepth, -⟩ := nesting_le_redefinitions hread "t"
    rw [hcount] at hdepth
    exact ⟨_, hread, fun scope => hdepth 201 scope (by decide)⟩
  · have hok : (Document.read ⟨false, .error⟩ definingText).result.isOk = true := by decide +kernel
    cases hread : (Document.read ⟨false, .error⟩ definingText).result with
    | error fault =>
      rw [hread] at hok
      cases hok
    | ok document =>
      obtain ⟨-, hdepth⟩ := nesting_le_redefinitions hread "t"
      exact ⟨document, rfl, fun scope => hdepth rfl 101 scope (by decide)⟩

/-! ### A jump -/

/-- The text inside so many branches that are always taken. -/
def branchedText : Nat → List Char → List Char
  | 0, inner => inner
  | n + 1, inner => Token.tagChars .directive "if true".toList ++
      (branchedText n inner ++ Token.tagChars .directive "endif".toList)

/-- The items inside so many branches. -/
def branchedItems : Nat → List Item → List Item
  | 0, inner => inner
  | n + 1, inner => .directive (.startIf "true") :: (branchedItems n inner ++ [.directive .endIf])

/-- The nodes inside so many branches. -/
def branched : Nat → List Node → List Node
  | 0, inner => inner
  | n + 1, inner => [.branch .first (some "true") (branched n inner)]

theorem saysFirst_branched {s : List Char} {items : List Item} (h : SaysFirst s items) (n : Nat) :
    SaysFirst (branchedText n s) (branchedItems n items) := by
  induction n with
  | zero => exact h
  | succ n ih =>
    have hif : SaysFirst (Token.tagChars .directive "if true".toList)
        [.directive (.startIf "true")] := .tag (fun rest => rfl) (by rfl)
    have hend : SaysFirst (Token.tagChars .directive "endif".toList) [.directive .endIf] :=
      .tag (fun rest => rfl) (by rfl)
    exact hif.append (ih.append hend)

theorem derives_branched {depth : Nat} {items : List Item} {nodes : List Node}
    (h : Derives .sequence depth items nodes) (n : Nat) :
    Derives .sequence (depth + n) (branchedItems n items) (branched n nodes) := by
  induction n with
  | zero => exact h
  | succ n ih => exact .conditional ih .endIf .nil

theorem blocksIn_branched (n : Nat) (nodes : List Node) :
    Node.blocksIn (branched n nodes) = Node.blocksIn nodes := by
  induction n with
  | zero => rfl
  | succ n ih => rw [branched, Node.blocksIn, Node.blocks, ih, Node.blocksIn, List.append_nil]

section

variable {chain : Chain} {scope : Scope} {limit : Nat}

theorem evaluate_true (scope : Scope) : evaluate scope "true" = .ok (.bool true, .empty) := by cbv

/-- A branch that is taken is nested too deep if its body is, and so is the sequence around it. -/
theorem nodes_branch_tooDeep {body : List Node}
    (h : sequence chain limit scope body = .error .tooDeep) (taken : Bool) (rest : List Node) :
    nodes chain (sequence chain limit) scope taken
      (.branch .first (some "true") body :: rest) = .error .tooDeep := by
  have htest : test scope "true" = .ok (true, .empty) := test_of_evaluate (evaluate_true scope) rfl
  simp [nodes, node, condition, htest, h, bind, Except.bind]

/-- A block is nested too deep if the body that is found for it is. -/
theorem sequence_block_tooDeep {name : String} {own body : List Node}
    (hfound : chain.findBlock? name = some body)
    (h : sequence chain limit scope body = .error .tooDeep) :
    sequence chain (limit + 1) scope [.block name own] = .error .tooDeep := by
  simp [sequence, nodes, node, hfound, h, bind, Except.bind]

theorem sequence_branched_tooDeep {nodes : List Node}
    (h : sequence chain limit scope nodes = .error .tooDeep) (n : Nat) :
    sequence chain (limit + n) scope (branched n nodes) = .error .tooDeep := by
  induction n with
  | zero => exact h
  | succ n ih => exact nodes_branch_tooDeep ih false []

end

/-- A block inside fifty branches, and fifty branches inside a later block of its name. -/
def jumpingText : String := String.ofList (
  branchedText 50 (Token.tagChars .directive "block b".toList ++
    Token.tagChars .directive "endblock".toList) ++
  (Token.tagChars .directive "block b".toList ++
    (branchedText 50 [] ++ Token.tagChars .directive "endblock".toList)))

/-- What the tokens of `jumpingText` say. -/
def jumpingItems : List Item :=
  branchedItems 50 [.directive (.startBlock "b"), .directive (.endBlock none)] ++
    (.directive (.startBlock "b") :: (branchedItems 50 [] ++ [.directive (.endBlock none)]))

/-- The tree of `jumpingText`. -/
def jumpingRoot : List Node :=
  .branch .first (some "true") (branched 49 [.block "b" []]) :: [.block "b" (branched 50 [])]

theorem says_jumpingText : Says jumpingText.toList jumpingItems := by
  have hblock : SaysFirst (Token.tagChars .directive "block b".toList)
      [.directive (.startBlock "b")] := .tag (fun rest => rfl) (by rfl)
  have hend : SaysFirst (Token.tagChars .directive "endblock".toList)
      [.directive (.endBlock none)] := .tag (fun rest => rfl) (by rfl)
  have hfirst := saysFirst_branched (hblock.append hend) 50
  have hsecond := hblock.append ((saysFirst_branched .nil 50).append hend)
  unfold jumpingText
  rw [String.toList_ofList]
  exact (hfirst.append hsecond).alone

theorem derives_jumpingItems : Derives .sequence maxNesting jumpingItems jumpingRoot := by
  have hempty : ∀ {depth}, Derives .sequence depth [] [] := .nil
  have hblock : Derives .sequence 50 [.directive (.startBlock "b"), .directive (.endBlock none)]
      [.block "b" []] := .block (.inl rfl) (@hempty 49) hempty
  have hinner := derives_branched hblock 49
  have hsecond : Derives .sequence maxNesting
      (.directive (.startBlock "b") :: (branchedItems 50 [] ++ [.directive (.endBlock none)]))
      [.block "b" (branched 50 [])] := .block (.inl rfl) (derives_branched (@hempty 49) 50) hempty
  have hsplit : jumpingItems = .directive (.startIf "true") ::
      (branchedItems 49 [.directive (.startBlock "b"), .directive (.endBlock none)] ++
        ([.directive .endIf] ++ (.directive (.startBlock "b") ::
          (branchedItems 50 [] ++ [.directive (.endBlock none)])))) := by
    rw [jumpingItems, branchedItems, List.cons_append, List.append_assoc]
  rw [hsplit]
  exact .conditional hinner .endIf hsecond

/-- `jumpingText` is read, and its second block counts. -/
theorem jumpingText_read : ∃ document,
    (Document.read .default jumpingText).result = .ok document ∧ document.root = jumpingRoot ∧
      document.blocks.find? "b" = some (branched 50 []) := by
  obtain ⟨document, hread, hroot⟩ := says_jumpingText.read derives_jumpingItems
  refine ⟨document, hread, hroot, ?_⟩
  have hregistered : document.blocks = .lastOfEach (Node.blocksIn document.root) :=
    Document.registered_of_read hread
  have hblocks : Node.blocksIn jumpingRoot = [("b", []), ("b", branched 50 [])] := by
    simp [jumpingRoot, Node.blocksIn, Node.blocks, blocksIn_branched]
  rw [hregistered, hroot, hblocks]
  rfl

/-- Rendering `jumpingText` nests sequences deeper than directives may be open at once, whatever the
    variables are. -/
theorem jumpingText_tooDeep : ∃ document,
    (Document.read .default jumpingText).result = .ok document ∧
      ∀ scope, sequence (Chain.derive ⟨"t", document⟩ none) (maxNesting + 1) scope document.root
        = .error .tooDeep := by
  obtain ⟨document, hread, hroot, hblock⟩ := jumpingText_read
  refine ⟨document, hread, ?_⟩
  intro scope
  rw [hroot]
  have hfound : (Chain.derive ⟨"t", document⟩ none).findBlock? "b" = some (branched 50 []) := by
    simp [Chain.findBlock?, Chain.layers, Chain.derive, hblock]
  -- The fifty branches of the block are rendered inside fifty branches and the block.
  have hinner : sequence (Chain.derive ⟨"t", document⟩ none) (0 + 50) scope (branched 50 [])
      = .error .tooDeep := sequence_branched_tooDeep rfl 50
  have hjump : sequence (Chain.derive ⟨"t", document⟩ none) (0 + 50 + 1) scope [.block "b" []]
      = .error .tooDeep := sequence_block_tooDeep hfound hinner
  exact nodes_branch_tooDeep (sequence_branched_tooDeep hjump 49) false _

end Render

end TextTemplate
