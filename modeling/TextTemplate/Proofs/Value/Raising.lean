import TextTemplate.Expr.Eval
import TextTemplate.Proofs.Value.Text

/-! # What host objects raise

  An exception that comes up while values are worked with is raised by a host
  object, and that object is one of the values, stands in one or is reached from
  one through attributes (`Raises`).  No operation makes host objects, so what the
  result of an operation can raise, one of its operands can raise already.

  Both facts about an operation are said in one way: it stays within a set of
  exceptions if its operands do (`Stays`).  This goes through sequences of
  operations (`Stays.bind`).
-/

namespace TextTemplate

/-- The exception is one of the answers of the object. -/
inductive HostObject.Answers {V : Type} (o : HostObject V) (e : HostError) : Prop where
  | attribute {name : String} : (name, e) ∈ o.failing → Answers o e
  | truth : o.truth = .fails e → Answers o e
  | comparison : o.equality = .fails e → Answers o e
  | hash : o.hashFailure? = some e → Answers o e
  | length : o.length? = some (.error e) → Answers o e

namespace Value

/-- The exception is raised by a host object: by the value itself, by one that stands in it, or by
    one that is reached from it through attributes, at any depth. -/
inductive Raises (e : HostError) : Value → Prop where
  | object {o : HostObject Value} : o.Answers e → Raises e (.object o)
  | attribute {o : HostObject Value} {name : String} {v : Value} :
      (name, v) ∈ o.attributes → Raises e v → Raises e (.object o)
  | hostItem {o : HostObject Value} {items : List Value} {v : Value} :
      o.items? = some items → v ∈ items → Raises e v → Raises e (.object o)
  | listItem {items : List Value} {v : Value} : v ∈ items → Raises e v → Raises e (.list items)
  | tupleItem {items : List Value} {v : Value} : v ∈ items → Raises e v → Raises e (.tuple items)
  | key {entries : List (Value × Value)} {k v : Value} :
      (k, v) ∈ entries → Raises e k → Raises e (.mapping entries)
  | entry {entries : List (Value × Value)} {k v : Value} :
      (k, v) ∈ entries → Raises e v → Raises e (.mapping entries)

/-- Host objects raise nothing else. -/
def RaisesOnly (allowed : HostError → Prop) (v : Value) : Prop := ∀ e, Raises e v → allowed e

variable {allowed : HostError → Prop} {v a b : Value} {e : HostError}

/-! ### Plain values -/

theorem raisesOnly_undefined : RaisesOnly allowed .undefined := fun _ h => by cases h

theorem raisesOnly_null : RaisesOnly allowed .null := fun _ h => by cases h

theorem raisesOnly_bool (b : Bool) : RaisesOnly allowed (.bool b) := fun _ h => by cases h

theorem raisesOnly_int (n : Int) : RaisesOnly allowed (.int n) := fun _ h => by cases h

theorem raisesOnly_float (x : Float) : RaisesOnly allowed (.float x) := fun _ h => by cases h

theorem raisesOnly_string (s : String) : RaisesOnly allowed (.string s) := fun _ h => by cases h

theorem raisesOnly_number (n : Number) : RaisesOnly allowed (ofNumber n) := by
  cases n with
  | int n => exact raisesOnly_int n
  | float x => exact raisesOnly_float x

/-! ### Values with parts -/

theorem raisesOnly_list {items : List Value} :
    RaisesOnly allowed (.list items) ↔ ∀ v ∈ items, RaisesOnly allowed v := by
  constructor
  · intro h v hv e he
    exact h e (.listItem hv he)
  · intro h e he
    cases he with
    | listItem hv he => exact h _ hv e he

theorem raisesOnly_tuple {items : List Value} :
    RaisesOnly allowed (.tuple items) ↔ ∀ v ∈ items, RaisesOnly allowed v := by
  constructor
  · intro h v hv e he
    exact h e (.tupleItem hv he)
  · intro h e he
    cases he with
    | tupleItem hv he => exact h _ hv e he

theorem RaisesOnly.entry {entries : List (Value × Value)}
    (h : RaisesOnly allowed (.mapping entries)) {k v : Value} (hmem : (k, v) ∈ entries) :
    RaisesOnly allowed k ∧ RaisesOnly allowed v :=
  ⟨fun e he => h e (.key hmem he), fun e he => h e (.entry hmem he)⟩

/-- The characters of a text are texts. -/
theorem raisesOnly_character {s : String}
    (h : v ∈ s.toList.map fun c => Value.string (String.singleton c)) : RaisesOnly allowed v := by
  obtain ⟨c, -, rfl⟩ := List.mem_map.1 h
  exact raisesOnly_string _

theorem RaisesOnly.places (h : RaisesOnly allowed v) {items : List Value}
    (hitems : v.places? = some items) : ∀ item ∈ items, RaisesOnly allowed item := by
  cases v with
  | string s =>
    obtain rfl := Option.some.inj hitems
    intro item hitem
    exact raisesOnly_character hitem
  | list items' =>
    obtain rfl := Option.some.inj hitems
    exact raisesOnly_list.1 h
  | tuple items' =>
    obtain rfl := Option.some.inj hitems
    exact raisesOnly_tuple.1 h
  | undefined | null | bool | int | float | mapping | object => cases hitems

/-- A loop runs through items that raise nothing else. -/
theorem RaisesOnly.items (h : RaisesOnly allowed v) {items : List Value}
    (hitems : v.items? = some items) : ∀ item ∈ items, RaisesOnly allowed item := by
  cases v with
  | mapping entries =>
    obtain rfl := Option.some.inj hitems
    intro item hitem
    obtain ⟨⟨k, v⟩, hmem, rfl⟩ := List.mem_map.1 hitem
    exact (h.entry hmem).1
  | object o =>
    intro item hitem e he
    exact h e (.hostItem hitems hitem he)
  | undefined | null | bool | int | float | string | list | tuple => exact h.places hitems

/-- What is found in a mapping stands in it. -/
theorem RaisesOnly.find? {entries : List (Value × Value)}
    (h : RaisesOnly allowed (.mapping entries)) (hfound : find? entries a = some v) :
    RaisesOnly allowed v := by
  obtain ⟨entry, hentry, rfl⟩ := Option.map_eq_some_iff.1 hfound
  exact (h.entry (List.mem_of_find?_eq_some hentry)).2

/-! ### What an object answers -/

/-- Whoever asks for a value's truth gets nothing but an exception of the value's, which is no
    error. -/
theorem raises_of_truth (h : v.truth = .error e) : Raises e v ∧ e.isInterrupt = true := by
  unfold truth at h
  split at h
  · next e' hinterrupt =>
    cases h
    cases v with
    | object o =>
      simp only [interrupt?] at hinterrupt
      split at hinterrupt
      · next e' htruth =>
        split at hinterrupt
        · next hreach =>
          cases hinterrupt
          exact ⟨.object (.truth htruth), hreach⟩
        · cases hinterrupt
      · cases hinterrupt
    | _ => cases hinterrupt
  · cases h

theorem raises_of_incomparable? (h : v.incomparable? = some e) : Raises e v := by
  cases v with
  | object o =>
    simp only [incomparable?] at h
    split at h
    · next e' hequality =>
      cases h
      exact .object (.comparison hequality)
    · cases h
  | _ => cases h

theorem raises_of_compareScalar (h : compareScalar a b = .error e) : Raises e a ∨ Raises e b := by
  unfold compareScalar at h
  split at h
  · next e' ha =>
    cases h
    exact .inl (raises_of_incomparable? ha)
  · next e' _ hb =>
    cases h
    exact .inr (raises_of_incomparable? hb)
  · cases h

/-- What a comparison of parts raises is raised by the comparison of the first ones or by that of
    those behind them. -/
theorem error_of_parts {shared : Bool} {first rest : Except HostError Bool}
    (h : (do
      let there ← (if shared then Except.ok true else first)
      if there then rest else return false) = Except.error e) :
    first = .error e ∨ rest = .error e := by
  rcases error_of_bind h with hfirst | ⟨there, _, hrest⟩
  · split at hfirst
    · cases hfirst
    · exact .inl hfirst
  · split at hrest
    · exact .inr hrest
    · cases hrest

mutual

/-- What a comparison raises is raised by one of the two values. -/
theorem raises_of_same : ∀ (a : Value) {b : Value}, same a b = .error e → Raises e a ∨ Raises e b
  | .list items, b, h => by
    cases b with
    | list items' =>
      simp only [same] at h
      split at h
      · exact (raises_of_sameItems items h).imp (fun ⟨v, hv, hraises⟩ => .listItem hv hraises)
          fun ⟨v, hv, hraises⟩ => .listItem hv hraises
      · cases h
    | _ => exact raises_of_compareScalar (by simpa only [same] using h)
  | .tuple items, b, h => by
    cases b with
    | tuple items' =>
      simp only [same] at h
      exact (raises_of_sameItems items h).imp (fun ⟨v, hv, hraises⟩ => .tupleItem hv hraises)
        fun ⟨v, hv, hraises⟩ => .tupleItem hv hraises
    | _ => exact raises_of_compareScalar (by simpa only [same] using h)
  | .mapping entries, b, h => by
    cases b with
    | mapping entries' =>
      simp only [same] at h
      split at h
      · exact (raises_of_sameEntries entries h).imp
          (fun ⟨k, v, hmem, hraises⟩ => .entry hmem hraises)
          fun ⟨k, v, hmem, hraises⟩ => .entry hmem hraises
      · cases h
    | _ => exact raises_of_compareScalar (by simpa only [same] using h)
  | .undefined, _, h => raises_of_compareScalar h
  | .null, _, h => raises_of_compareScalar h
  | .bool _, _, h => raises_of_compareScalar h
  | .int _, _, h => raises_of_compareScalar h
  | .float _, _, h => raises_of_compareScalar h
  | .string _, _, h => raises_of_compareScalar h
  | .object _, _, h => raises_of_compareScalar h

theorem raises_of_sameItems : ∀ (items : List Value) {items' : List Value},
    sameItems items items' = .error e →
      (∃ v ∈ items, Raises e v) ∨ ∃ v ∈ items', Raises e v
  | [], [], h => by cases h
  | [], _ :: _, h => by cases h
  | _ :: _, [], h => by cases h
  | a :: as, b :: bs, h => by
    rw [sameItems] at h
    rcases error_of_parts h with hfirst | hrest
    · exact (raises_of_same a hfirst).imp (fun ha => ⟨a, List.mem_cons_self, ha⟩)
        fun hb => ⟨b, List.mem_cons_self, hb⟩
    · exact (raises_of_sameItems as hrest).imp
        (fun ⟨v, hv, hraises⟩ => ⟨v, List.mem_cons_of_mem _ hv, hraises⟩)
        fun ⟨v, hv, hraises⟩ => ⟨v, List.mem_cons_of_mem _ hv, hraises⟩

theorem raises_of_sameEntries : ∀ (entries : List (Value × Value)) {other : List (Value × Value)},
    sameEntries entries other = .error e →
      (∃ k v, (k, v) ∈ entries ∧ Raises e v) ∨ ∃ k v, (k, v) ∈ other ∧ Raises e v
  | [], _, h => by cases h
  | (key, value) :: rest, other, h => by
    rw [sameEntries] at h
    split at h
    · cases h
    · next entry hfound =>
      rcases error_of_parts h with hfirst | hrest
      · exact (raises_of_same value hfirst).imp
          (fun hvalue => ⟨key, value, List.mem_cons_self, hvalue⟩)
          fun hother => ⟨entry.1, entry.2, List.mem_of_find?_eq_some hfound, hother⟩
      · exact (raises_of_sameEntries rest hrest).imp_left
          fun ⟨k, v, hmem, hraises⟩ => ⟨k, v, List.mem_cons_of_mem _ hmem, hraises⟩

end

mutual

theorem raises_of_keyFault? : ∀ v : Value, v.keyFault? = some (.host e) → Raises e v
  | .tuple items, h => by
    rw [keyFault?] at h
    obtain ⟨v, hv, hraises⟩ := raises_of_firstKeyFault? items h
    exact .tupleItem hv hraises
  | .object o, h => by
    rw [keyFault?] at h
    obtain ⟨e', he', hhost⟩ := Option.map_eq_some_iff.1 h
    cases hhost
    exact .object (.hash he')
  | .list _, h => by cases h
  | .mapping _, h => by cases h
  | .undefined, h => by cases h
  | .null, h => by cases h
  | .bool _, h => by cases h
  | .int _, h => by cases h
  | .float _, h => by cases h
  | .string _, h => by cases h

theorem raises_of_firstKeyFault? : ∀ items : List Value,
    firstKeyFault? items = some (.host e) → ∃ v ∈ items, Raises e v
  | [], h => by cases h
  | item :: rest, h => by
    rw [firstKeyFault?] at h
    rcases Option.or_eq_some_iff.1 h with hitem | ⟨-, hrest⟩
    · exact ⟨item, List.mem_cons_self, raises_of_keyFault? item hitem⟩
    · obtain ⟨v, hv, hraises⟩ := raises_of_firstKeyFault? rest hrest
      exact ⟨v, List.mem_cons_of_mem _ hv, hraises⟩

end

/-! ### Properties -/

/-- What an attribute is, within a set of exceptions. -/
def AttributeStays (allowed : HostError → Prop) : Attribute → Prop
  | .absent | .method => True
  | .data v => v.RaisesOnly allowed
  | .failing e => allowed e

theorem RaisesOnly.hostAttribute {o : HostObject Value} (h : RaisesOnly allowed (.object o))
    (name : String) : AttributeStays allowed (o.attributeAt name) := by
  unfold HostObject.attributeAt
  split
  · next entry hfound =>
    split
    · trivial
    · exact h _ (.object (.attribute (List.mem_of_find?_eq_some hfound)))
  · split
    · trivial
    · split
      · next entry hfound =>
        intro e he
        exact h e (.attribute (List.mem_reverse.1 (List.mem_of_find?_eq_some hfound)) he)
      · trivial

theorem methodsOnly_stays (methods : List String) (name : String) :
    AttributeStays allowed (methodsOnly methods name) := by
  unfold methodsOnly
  split <;> trivial

theorem intAttribute_stays (n : Int) (name : String) :
    AttributeStays allowed (intAttribute n name) := by
  unfold intAttribute
  split
  · exact raisesOnly_int _
  split
  · exact raisesOnly_int _
  split
  · exact raisesOnly_int _
  split <;> trivial

theorem floatAttribute_stays (x : Float) (name : String) :
    AttributeStays allowed (floatAttribute x name) := by
  unfold floatAttribute
  split
  · exact raisesOnly_float _
  split
  · exact raisesOnly_float _
  split <;> trivial

theorem RaisesOnly.attributeAt (h : RaisesOnly allowed v) (name : String) :
    AttributeStays allowed (v.attributeAt name) := by
  cases v with
  | object o => exact h.hostAttribute name
  | bool b => exact intAttribute_stays _ name
  | int n => exact intAttribute_stays n name
  | float x => exact floatAttribute_stays x name
  | string | list | tuple => exact methodsOnly_stays _ name
  | undefined | null | mapping => trivial

/-! ### Operations -/

end Value

/-- The outcome is good, or the fault is an allowed exception of a host object, or none of a host
    object's. -/
def Stays {α : Type} (allowed : HostError → Prop) (good : α → Prop) : Except EvalFault α → Prop
  | .ok a => good a
  | .error fault => ∀ e, fault.host? = some e → allowed e

theorem Stays.bind {α β : Type} {allowed : HostError → Prop} {good : α → Prop} {good' : β → Prop}
    {x : Except EvalFault α} {f : α → Except EvalFault β} (h : Stays allowed good x)
    (hnext : ∀ a, good a → Stays allowed good' (f a)) : Stays allowed good' (x >>= f) := by
  cases x with
  | ok a => exact hnext a h
  | error fault => exact h

/-- A fault of no host object is within every set. -/
theorem Stays.of_none {α : Type} {allowed : HostError → Prop} {good : α → Prop} {fault : EvalFault}
    (h : fault.host? = none) : Stays allowed good (.error fault) := by
  intro e he
  rw [h] at he
  cases he

namespace Value

variable {allowed : HostError → Prop} {v a b : Value}

/-- The value of an operation raises nothing else. -/
abbrev ValueStays (allowed : HostError → Prop) : Except EvalFault Value → Prop :=
  Stays allowed (RaisesOnly allowed)

/-- A truth value is good. -/
abbrev BoolStays (allowed : HostError → Prop) : Except EvalFault Bool → Prop :=
  Stays allowed fun _ => True

theorem readAttribute_stays (h : RaisesOnly allowed v) (name : String) :
    ValueStays allowed ((v.readAttribute name).mapError .property) := by
  have hattribute := h.attributeAt name
  unfold readAttribute
  split
  · exact .of_none rfl
  · cases hfound : v.attributeAt name with
    | absent => exact raisesOnly_undefined
    | data w =>
      rw [hfound] at hattribute
      exact hattribute
    | method => exact .of_none rfl
    | failing e =>
      rw [hfound] at hattribute
      intro e' he'
      cases he'
      exact hattribute

/-- A property that is no entry of a mapping is the length or an attribute. -/
theorem lengthOrAttribute_stays (h : RaisesOnly allowed v) (name : String) :
    ValueStays allowed ((match (if name = "length" then v.length? else none) with
      | some (.ok n) => .ok (.int n)
      | some (.error e) => .error (.hostFailed e)
      | none => v.readAttribute name : Except PropertyFault Value).mapError .property) := by
  have hlength : ∀ e, (if name = "length" then v.length? else none) = some (.error e) →
      allowed e := by
    intro e he
    split at he
    · cases v with
      | object o => exact h e (.object (.length he))
      | _ => cases he
    · cases he
  generalize (if name = "length" then v.length? else none) = answer? at hlength ⊢
  cases answer? with
  | none => exact readAttribute_stays h name
  | some answer =>
    cases answer with
    | ok n => exact raisesOnly_int n
    | error e =>
      intro e' he'
      cases he'
      exact hlength e rfl

theorem propertyValue_stays (h : RaisesOnly allowed v) (name : String) :
    ValueStays allowed (v.propertyValue name) := by
  cases v with
  | undefined | null => exact raisesOnly_undefined
  | mapping entries =>
    unfold propertyValue property
    simp only
    cases hfound : find? entries (.string name) with
    | some w => exact h.find? hfound
    | none =>
      show RaisesOnly allowed (if name = "length" then _ else _)
      split
      · exact raisesOnly_int _
      · exact raisesOnly_undefined
  | bool | int | float | string | list | tuple | object => exact lengthOrAttribute_stays h name

theorem asked_stays (h : RaisesOnly allowed v) : BoolStays allowed v.asked := by
  unfold asked
  cases htruth : v.truth with
  | ok holds => trivial
  | error e =>
    intro e' he'
    cases he'
    exact h e (raises_of_truth htruth).1

theorem compared_stays (ha : RaisesOnly allowed a) (hb : RaisesOnly allowed b) :
    BoolStays allowed (compared a b) := by
  unfold compared
  cases hsame : same a b with
  | ok holds => trivial
  | error e =>
    intro e' he'
    cases he'
    exact (raises_of_same a hsame).elim (ha e) (hb e)

theorem decides_stays (h : RaisesOnly allowed v) (op : LogicalOp) :
    BoolStays allowed (v.decides op) :=
  (asked_stays h).bind fun _ _ => trivial

theorem negated_stays (v : Value) : ValueStays allowed v.negated := by
  unfold negated
  split
  · exact raisesOnly_number _
  · exact .of_none rfl

theorem unary_stays (h : RaisesOnly allowed v) (op : UnaryOp) :
    ValueStays allowed (v.unary op) := by
  cases op with
  | not => exact (asked_stays h).bind fun holds _ => raisesOnly_bool (!holds)
  | neg | other => exact negated_stays v

theorem displayed_stays (v : Value) : Stays allowed (fun _ => True) v.displayed := by
  unfold displayed
  cases v.display with
  | ok text => trivial
  | error fault => exact .of_none rfl

theorem arithmeticResult_stays (result : Except ArithmeticFault Number) :
    ValueStays allowed (arithmeticResult result) := by
  cases result with
  | ok n => exact raisesOnly_number n
  | error fault => exact .of_none rfl

theorem add_stays (ha : RaisesOnly allowed a) (hb : RaisesOnly allowed b) :
    ValueStays allowed (a.add b) := by
  unfold add
  have htexts : ValueStays allowed (do
      let left ← a.displayed
      return .string (left ++ (← b.displayed))) :=
    (displayed_stays a).bind fun left _ => (displayed_stays b).bind fun right _ =>
      raisesOnly_string (left ++ right)
  split
  · exact .of_none rfl
  · split
    · exact arithmeticResult_stays _
    · split
      · exact htexts
      · exact htexts
      · refine raisesOnly_list.2 fun v hv => ?_
        exact (List.mem_append.1 hv).elim (raisesOnly_list.1 ha v) (raisesOnly_list.1 hb v)
      · exact .of_none rfl

theorem onNumbers_stays (f : Number → Number → Except ArithmeticFault Number) (a b : Value) :
    ValueStays allowed (onNumbers f a b) := by
  unfold onNumbers
  split
  · exact arithmeticResult_stays _
  · exact .of_none rfl

theorem ordered_stays (wanted : Ordering → Bool) (a b : Value) :
    ValueStays allowed (ordered wanted a b) := by
  unfold ordered
  split
  · exact raisesOnly_bool _
  · split
    · exact raisesOnly_bool _
    · exact .of_none rfl

theorem binary_stays (op : BinaryOp) (ha : RaisesOnly allowed a) (hb : RaisesOnly allowed b) :
    ValueStays allowed (binary op a b) := by
  cases op with
  | add => exact add_stays ha hb
  | sub | mul | div | mod => exact onNumbers_stays _ a b
  | eq => exact (compared_stays ha hb).bind fun holds _ => raisesOnly_bool holds
  | ne => exact (compared_stays ha hb).bind fun holds _ => raisesOnly_bool (!holds)
  | lt | le | gt | ge => exact ordered_stays _ a b
  | other text => exact .of_none rfl

theorem host?_noPlace (kind : Kind) (shown : Except TooManyDigits String) :
    (noPlace kind shown).host? = none := by
  cases shown <;> rfl

theorem itemAt_stays (ha : RaisesOnly allowed a) (b : Value) :
    ValueStays allowed (a.itemAt b) := by
  unfold itemAt
  split
  · next items n hitems _ =>
    show RaisesOnly allowed (if 0 ≤ n then _ else _)
    split
    · cases hfound : items[n.toNat]? with
      | none => exact raisesOnly_undefined
      | some item => exact ha.places hitems item (List.mem_of_getElem? hfound)
    · exact raisesOnly_undefined
  · exact .of_none (host?_noPlace a.kind _)

theorem propertyOrItem_stays (ha : RaisesOnly allowed a) (b : Value) :
    ValueStays allowed (a.propertyOrItem b) := by
  cases b with
  | string name => exact propertyValue_stays ha name
  | _ => exact itemAt_stays ha _

theorem indexValue_stays (ha : RaisesOnly allowed a) (hb : RaisesOnly allowed b) :
    ValueStays allowed (a.indexValue b) := by
  have hplain := propertyOrItem_stays ha b
  cases a with
  | undefined | null => exact raisesOnly_undefined
  | mapping entries =>
    unfold indexValue
    simp only
    cases hfault : b.keyFault? with
    | none =>
      show RaisesOnly allowed ((find? entries b).getD .undefined)
      cases hfound : find? entries b with
      | none => exact raisesOnly_undefined
      | some w => exact ha.find? hfound
    | some fault =>
      cases fault with
      | unfit kind => exact .of_none rfl
      | host e =>
        intro e' he'
        cases he'
        exact hb e (raises_of_keyFault? b hfault)
  | bool | int | float | string | list | tuple | object => exact hplain

end Value

end TextTemplate
