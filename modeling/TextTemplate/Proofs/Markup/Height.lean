import TextTemplate.Proofs.Markup.Registering

/-! # How high a tree is, and how often block names are used again

  The limit on open directives is a limit on the height of the tree that a text
  writes (`Derives.heightIn_le`).  While a tree is rendered, a block may lead to
  another place of it, but only to a block whose name has been used before.  Each
  of those has been remarked upon while the text was read
  (`Document.repeats_of_read`).
-/

namespace TextTemplate.Markup

/-! ### Heights -/

namespace Node

mutual

/-- How many sequences are nested in a node. -/
def height : Node → Nat
  | .text _ | .output _ | .bare => 0
  | .branch _ _ body | .loop _ _ body | .block _ body => heightIn body + 1

/-- How many sequences are nested in a sequence, itself not included. -/
def heightIn : List Node → Nat
  | [] => 0
  | node :: rest => max (height node) (heightIn rest)

end

theorem heightIn_append (a b : List Node) : heightIn (a ++ b) = max (heightIn a) (heightIn b) := by
  induction a with
  | nil => rw [List.nil_append, heightIn, Nat.zero_max]
  | cons node rest ih => rw [List.cons_append, heightIn, heightIn, ih, Nat.max_assoc]

mutual

/-- What is opened in a node is less high. -/
theorem heightIn_lt_height : ∀ {node : Node} {o : Opening}, o ∈ openings node →
    heightIn o.2 < height node
  | .text _, o, h | .output _, o, h | .bare, o, h => by
    rw [openings] at h
    cases h
  | .branch _ _ body, o, h | .loop _ _ body, o, h | .block _ body, o, h => by
    rw [openings] at h
    rw [height]
    rcases List.mem_cons.1 h with rfl | h
    · exact Nat.lt_succ_self _
    · exact Nat.lt_succ_of_lt (heightIn_lt_heightIn h)

/-- What is opened in a sequence is less high. -/
theorem heightIn_lt_heightIn : ∀ {s : List Node} {o : Opening}, o ∈ openingsIn s →
    heightIn o.2 < heightIn s
  | [], o, h => by
    rw [openingsIn] at h
    cases h
  | node :: rest, o, h => by
    rw [openingsIn] at h
    rw [heightIn]
    rcases List.mem_append.1 h with h | h
    · exact Nat.lt_of_lt_of_le (heightIn_lt_height h) (Nat.le_max_left ..)
    · exact Nat.lt_of_lt_of_le (heightIn_lt_heightIn h) (Nat.le_max_right ..)

end

end Node

/-- How much higher than its bodies the nodes of a part may be. -/
def Part.room : Part → Nat
  | .sequence => 0
  | .branches => 1

/-- The limit of a derivation bounds the height of its nodes. -/
theorem Derives.heightIn_le {part : Part} {depth : Nat} {items : List Item} {nodes : List Node}
    (h : Derives part depth items nodes) : Node.heightIn nodes ≤ depth + part.room := by
  induction h with
  | nil | endIf => exact Nat.zero_le _
  | text _ ih | output _ ih =>
    rw [Node.heightIn, Node.height, Nat.zero_max]
    exact ih
  | extends_ _ ih | unknown _ ih => exact ih
  | conditional _ _ _ ihbody ihmore ih =>
    rw [Node.heightIn, Node.height, Node.heightIn_append]
    simp only [Part.room] at ihbody ihmore ih ⊢
    omega
  | loop _ _ ihbody ih | block _ _ _ ihbody ih | elseIf _ _ ihbody ih =>
    rw [Node.heightIn, Node.height]
    simp only [Part.room] at ihbody ih ⊢
    omega
  | otherwise _ ihbody =>
    rw [Node.heightIn, Node.height, Node.heightIn]
    simp only [Part.room] at ihbody ⊢
    omega

/-! ### Names that are used again -/

/-- How many of the names have been seen before. -/
def repeats : List String → List String → Nat
  | _, [] => 0
  | seen, name :: rest => (if name ∈ seen then 1 else 0) + repeats (name :: seen) rest

/-- Only which names have been seen matters. -/
theorem repeats_congr {seen seen' : List String} (h : ∀ name, name ∈ seen ↔ name ∈ seen')
    (names : List String) : repeats seen names = repeats seen' names := by
  induction names generalizing seen seen' with
  | nil => rfl
  | cons name rest ih =>
    have hrest : ∀ x, x ∈ name :: seen ↔ x ∈ name :: seen' := by
      intro x
      rw [List.mem_cons, List.mem_cons, h]
    rw [repeats, repeats, ih hrest]
    simp only [h]

theorem repeats_append (seen a b : List String) :
    repeats seen (a ++ b) = repeats seen a + repeats (a.reverse ++ seen) b := by
  induction a generalizing seen with
  | nil => exact (Nat.zero_add _).symm
  | cons name rest ih =>
    rw [List.cons_append, repeats, repeats, ih, List.reverse_cons, List.append_assoc,
      List.singleton_append, Nat.add_assoc]

namespace Builder

/-- The names under which blocks are registered. -/
def names (b : Builder) : List String := b.numbers.map (·.1)

variable {rules : Rules} {b b' : Builder} {remarks : List Remark}

@[simp] theorem names_leave (f : Frame) (outer : List Frame) : (b.leave f outer).names = b.names :=
  rfl

/-- Only a block is registered. -/
theorem names_enter {header : Header} (hheader : ∀ name, header ≠ .block name)
    (location : Location) : (b.enter header location).names = b.names := by
  cases header with
  | block name => exact absurd rfl (hheader name)
  | branch | loop => rfl

/-- A step that opens no block keeps the names and remarks upon none of them. -/
theorem repeats_of_same {item : Item} (hitem : item.blockName? = none)
    (hnames : b'.names = b.names)
    (hremarks : remarks.countP Remark.isRedefinition = 0) (names : List String) :
    remarks.countP Remark.isRedefinition + repeats b'.names names
      = repeats b.names (item.blockName?.toList ++ names) := by
  rw [hremarks, hitem, hnames, Nat.zero_add]
  rfl

/-- Opening a block remarks upon its name if that has been used before. -/
theorem repeats_of_openBlock {name : String} {location : Location}
    (h : b.openBlock rules name location = (remarks, .ok b')) (names : List String) :
    remarks.countP Remark.isRedefinition + repeats b'.names names
      = repeats b.names (name :: names) := by
  have hdefault := (openBlock_eq_ok_iff.1 h).1
  unfold openBlock at hdefault
  have hallowed : (Rules.default.duplicates == .error) = false := rfl
  dsimp only at hdefault
  rw [hallowed, Bool.and_false, if_neg Bool.false_ne_true] at hdefault
  obtain ⟨rfl, hopen⟩ := Prod.mk.inj hdefault
  obtain ⟨-, rfl⟩ := open_ok_iff.1 hopen
  have hnames : ∀ x, x ∈ (b.enter (.block name) location).names ↔ x ∈ name :: b.names := by
    intro x
    show x ∈ (Pairs.put b.numbers (name, b.bodies.length)).map (·.1) ↔ x ∈ name :: b.names
    rw [Pairs.names_put, List.mem_cons]
    split
    · next hmem =>
      constructor
      · exact .inr
      · rintro (rfl | hx)
        · exact hmem
        · exact hx
    · rw [List.mem_append, List.mem_singleton, or_comm]
      rfl
  rw [repeats, repeats_congr hnames]
  by_cases hagain : name ∈ b.names
  · have hany : b.numbers.any (·.1 == name) = true := by
      obtain ⟨entry, hentry, rfl⟩ := List.mem_map.1 hagain
      exact List.any_eq_true.2 ⟨entry, hentry, by simp⟩
    simp [hagain, hany, Remark.isRedefinition]
  · have hany : b.numbers.any (·.1 == name) = false := by
      rw [List.any_eq_false]
      rintro entry hentry hname
      exact hagain (List.mem_map.2 ⟨entry, hentry, by simpa using hname⟩)
    simp [hagain, hany]

/-- Taking a directive remarks upon the name of a block that has been used before. -/
theorem repeats_of_directive {d : Directive} {location : Location}
    (h : b.directive rules d location = (remarks, .ok b')) (names : List String) :
    remarks.countP Remark.isRedefinition + repeats b'.names names
      = repeats b.names ((Item.directive d).blockName?.toList ++ names) := by
  cases d with
  | startBlock name => exact repeats_of_openBlock h names
  | startIf condition | startFor name source =>
    obtain ⟨rfl, hopen⟩ := Prod.mk.inj h
    obtain ⟨-, rfl⟩ := open_ok_iff.1 hopen
    exact repeats_of_same rfl (names_enter (fun _ h => by cases h) location) rfl names
  | elseIf condition | otherwise =>
    obtain ⟨rfl, hbranch⟩ := Prod.mk.inj h
    obtain ⟨f, outer, -, -, -, rfl⟩ := branch_ok_iff.1 hbranch
    exact repeats_of_same rfl (names_enter (fun _ h => by cases h) location) rfl names
  | endIf | endFor =>
    obtain ⟨rfl, hclose⟩ := Prod.mk.inj h
    obtain ⟨f, outer, -, -, rfl⟩ := close_map_ok_iff.1 hclose
    exact repeats_of_same rfl rfl rfl names
  | endBlock name? =>
    obtain ⟨rfl, -⟩ := Prod.mk.inj h
    obtain ⟨f, outer, -, -, rfl⟩ := endBlock_ok_iff.1 (congrArg Prod.snd h)
    exact repeats_of_same rfl rfl rfl names
  | extends_ name =>
    obtain ⟨rfl, hextended⟩ := Prod.mk.inj h
    obtain rfl := Except.ok.inj hextended
    have hremarks : (b.extend name).1.countP Remark.isRedefinition = 0 := by
      unfold extend
      dsimp only
      split
      · split <;> rfl
      · rfl
    exact repeats_of_same rfl rfl hremarks names
  | unknown keyword =>
    have hdefault : (([.unknownDirective keyword location], .ok b) :
        List Remark × Except Cause Builder) = (remarks, .ok b') := (directive_eq_ok_iff.1 h).1
    obtain ⟨rfl, hsame⟩ := Prod.mk.inj hdefault
    obtain rfl := Except.ok.inj hsame
    exact repeats_of_same rfl rfl rfl names

/-- Taking a token remarks upon the name of a block that has been used before. -/
theorem repeats_of_token {t : Token} {item : Item} (hitem : t.item = .ok item)
    (h : b.token rules t = (remarks, .ok b')) (names : List String) :
    remarks.countP Remark.isRedefinition + repeats b'.names names
      = repeats b.names (item.blockName?.toList ++ names) := by
  cases item with
  | text s | output expr =>
    rw [token_eq, hitem] at h
    obtain ⟨rfl, hadd⟩ := Prod.mk.inj h
    obtain rfl := Except.ok.inj hadd
    exact repeats_of_same rfl rfl rfl names
  | directive d => exact repeats_of_directive ((token_eq_ok_iff_directive hitem).1 h) names

/-- Taking tokens remarks upon the names of blocks that have been used before. -/
theorem repeats_of_tokens {ts : List Token} {items : List Item}
    (hitems : ts.mapM Token.item = .ok items) (h : b.tokens rules ts = (remarks, .ok b')) :
    remarks.countP Remark.isRedefinition
      = repeats b.names (items.filterMap Item.blockName?) := by
  induction ts generalizing b remarks items with
  | nil =>
    obtain ⟨rfl, -⟩ := Prod.mk.inj h
    obtain rfl := Except.ok.inj hitems
    rfl
  | cons t rest ih =>
    obtain ⟨first, b₁, more, htoken, hrest, rfl⟩ := tokens_cons_eq_ok_iff.1 h
    obtain ⟨item, behind, hitem, hbehind, rfl⟩ := Token.mapM_item_cons_iff.1 hitems
    have hfirst := repeats_of_token hitem htoken (behind.filterMap Item.blockName?)
    rw [List.countP_append, ih hbehind hrest, hfirst]
    cases hname : item.blockName? with
    | none => rw [List.filterMap_cons_none hname]; rfl
    | some name => rw [List.filterMap_cons_some hname]; rfl

end Builder

/-- The remarks about a text count the blocks whose names have been used before. -/
theorem Document.repeats_of_read {rules : Rules} {text : String} {document : Document}
    (h : (Document.read rules text).result = .ok document) :
    (Document.read rules text).remarks.countP Remark.isRedefinition
      = repeats [] ((Node.blocksIn document.root).map (·.1)) := by
  obtain ⟨-, tokens, items, hscan, hitems, hderives⟩ := Document.derives_of_read h
  obtain ⟨hstep, -⟩ := hderives.registers
  have hread : Document.ofTokens rules tokens
      = ⟨(Document.read rules text).remarks, .ok document⟩ := by
    rw [← h]
    unfold Document.read
    rw [hscan]
  obtain ⟨b, htokens, -⟩ := Document.ofTokens_eq_iff.1 hread
  have hnames : (Node.blocksIn document.root).map (·.1) = items.filterMap Item.blockName? := hstep
  rw [Builder.repeats_of_tokens hitems htokens, hnames]
  rfl

/-- Where a block name that is used again is an error, none is. -/
theorem Document.no_repeats_of_error {rules : Rules} {text : String} {document : Document}
    (h : (Document.read rules text).result = .ok document) (herror : rules.duplicates = .error) :
    (Document.read rules text).remarks.countP Remark.isRedefinition = 0 := by
  have hread : Document.read rules text
      = ⟨(Document.read rules text).remarks, .ok document⟩ := by rw [← h]
  obtain ⟨-, hallowed⟩ := Document.read_eq_iff_default.1 hread
  rw [List.countP_eq_zero]
  intro remark hremark
  cases remark with
  | unknownDirective | parentReplaced => exact Bool.false_ne_true
  | blockRedefined name location =>
    have hlast : rules.duplicates = .last := hallowed _ hremark
    rw [herror] at hlast
    cases hlast

end TextTemplate.Markup
