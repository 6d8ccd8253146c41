import Mathlib.Data.List.Forall2
import Mathlib.Logic.Relator
import TextTemplate.Expr.Eval

/-! # Values that differ in private attributes

  Two values are alike if they are equal but for host objects in them, and these
  have the same public attributes, again with values that are alike.  The private
  attributes, whose names start with an underscore, may differ in every way.  Which
  object stands for which is a relation between identities (`twins`).

  Whatever the language does with values that are alike gives results that are
  alike, and the same fault if there is one (`Alike.binary`, `Alike.unary`,
  `Alike.propertyValue`, `Alike.indexValue`).  Only equality looks at identities,
  so only there the relation has to be one to one (`same_eq_of_alike`).
-/

namespace TextTemplate

/-! ### The relation -/

/-- The name is closed to templates. -/
def IsPrivate (name : String) : Prop := name.startsWith "_" = true

instance (name : String) : Decidable (IsPrivate name) := inferInstanceAs (Decidable (_ = true))

/-- Two objects have attributes of one sort under a name, with values in the relation. -/
inductive Attribute.Alike (R : Value → Value → Prop) : Attribute → Attribute → Prop where
  | absent : Alike R .absent .absent
  | data {v v' : Value} : R v v' → Alike R (.data v) (.data v')
  | method : Alike R .method .method
  | failing (e : HostError) : Alike R (.failing e) (.failing e)

namespace Value

/-- Both parts of two entries are in the relation. -/
inductive EntryAlike (R : Value → Value → Prop) : Value × Value → Value × Value → Prop where
  | mk {k k' v v' : Value} : R k k' → R v v' → EntryAlike R (k, v) (k', v')

/-- What two host objects answer for themselves is the same, apart from their attributes. -/
structure AnswersAlike (o o' : HostObject Value) : Prop where
  className : o.className = o'.className
  text : o.text = o'.text
  exact : o.exact = o'.exact
  truth : o.truth = o'.truth
  equality : o.equality = o'.equality
  hash : o.hashFailure? = o'.hashFailure?
  length : o.length? = o'.length?

/-- The values are equal, except that twins among the host objects may differ in private
    attributes. -/
inductive Alike (twins : Nat → Nat → Prop) : Value → Value → Prop where
  | undefined : Alike twins .undefined .undefined
  | null : Alike twins .null .null
  | bool (b : Bool) : Alike twins (.bool b) (.bool b)
  | int (n : Int) : Alike twins (.int n) (.int n)
  | float (x : Float) : Alike twins (.float x) (.float x)
  | string (s : String) : Alike twins (.string s) (.string s)
  | list {items items' : List Value} :
      List.Forall₂ (Alike twins) items items' → Alike twins (.list items) (.list items')
  | tuple {items items' : List Value} :
      List.Forall₂ (Alike twins) items items' → Alike twins (.tuple items) (.tuple items')
  | mapping {entries entries' : List (Value × Value)} :
      List.Forall₂ (EntryAlike (Alike twins)) entries entries' →
      Alike twins (.mapping entries) (.mapping entries')
  | object {o o' : HostObject Value} :
      twins o.identity o'.identity → AnswersAlike o o' →
      Option.Rel (List.Forall₂ (Alike twins)) o.items? o'.items? →
      (∀ name, ¬ IsPrivate name →
        Attribute.Alike (Alike twins) (o.attributeAt name) (o'.attributeAt name)) →
      Alike twins (.object o) (.object o')

end Value

/-- Both runs succeed, with results in the relation, or both fail in the same way. -/
inductive SameOutcome {ε α β : Type} (R : α → β → Prop) : Except ε α → Except ε β → Prop where
  | ok {a : α} {b : β} : R a b → SameOutcome R (.ok a) (.ok b)
  | error (fault : ε) : SameOutcome R (.error fault) (.error fault)

namespace SameOutcome

variable {ε ε' α α' β β' : Type} {R : α → β → Prop} {S : α' → β' → Prop}

theorem bind {x : Except ε α} {y : Except ε β} {f : α → Except ε α'} {g : β → Except ε β'}
    (h : SameOutcome R x y) (hnext : ∀ a b, R a b → SameOutcome S (f a) (g b)) :
    SameOutcome S (x >>= f) (y >>= g) := by
  cases h with
  | ok hab => exact hnext _ _ hab
  | error fault => exact .error fault

/-- What goes on the same way from related results is the same in both runs. -/
theorem bind_eq {x : Except ε α} {y : Except ε β} {f : α → Except ε α'} {g : β → Except ε α'}
    (h : SameOutcome R x y) (hnext : ∀ a b, R a b → f a = g b) : x >>= f = y >>= g := by
  cases h with
  | ok hab => exact hnext _ _ hab
  | error fault => rfl

theorem imp {R' : α → β → Prop} {x : Except ε α} {y : Except ε β} (h : SameOutcome R x y)
    (hR : ∀ a b, R a b → R' a b) : SameOutcome R' x y := by
  cases h with
  | ok hab => exact .ok (hR _ _ hab)
  | error fault => exact .error fault

theorem mapError {x : Except ε α} {y : Except ε β} (h : SameOutcome R x y) (f : ε → ε') :
    SameOutcome R (x.mapError f) (y.mapError f) := by
  cases h with
  | ok hab => exact .ok hab
  | error fault => exact .error (f fault)

end SameOutcome

namespace Value

variable {twins : Nat → Nat → Prop} {v v' a a' b b' : Value}

/-! ### Lists side by side -/

section

variable {α β : Type} {R : α → β → Prop} {xs : List α} {ys : List β}

/-- Tests that agree find elements in the relation. -/
theorem find?_rel (h : List.Forall₂ R xs ys) {p : α → Bool} {q : β → Bool}
    (hpq : ∀ x y, R x y → p x = q y) : Option.Rel R (xs.find? p) (ys.find? q) := by
  induction h with
  | nil => exact .none
  | cons hxy _ ih =>
    rw [List.find?_cons, List.find?_cons, hpq _ _ hxy]
    split
    · exact .some hxy
    · exact ih

theorem getElem?_rel (h : List.Forall₂ R xs ys) (i : Nat) : Option.Rel R xs[i]? ys[i]? := by
  induction h generalizing i with
  | nil => exact .none
  | cons hxy _ ih =>
    by_cases hi : i = 0
    · subst hi
      exact .some hxy
    · obtain ⟨j, rfl⟩ := Nat.exists_eq_succ_of_ne_zero hi
      simp only [Nat.succ_eq_add_one, List.getElem?_cons_succ]
      exact ih j

theorem isEmpty_eq_of_forall₂ (h : List.Forall₂ R xs ys) : xs.isEmpty = ys.isEmpty := by
  cases h with
  | nil => rfl
  | cons _ _ => rfl

end

theorem map_rel {α α' β β' : Type} {R : α → β → Prop} {S : α' → β' → Prop} {x : Option α}
    {y : Option β} (h : Option.Rel R x y) {f : α → α'} {g : β → β'}
    (hf : ∀ a b, R a b → S (f a) (g b)) : Option.Rel S (x.map f) (y.map g) := by
  cases h with
  | some hab => exact .some (hf _ _ hab)
  | none => exact .none

/-- What is found in both runs, or `undefined` in both. -/
theorem getD_alike {x y : Option Value} (h : Option.Rel (Alike twins) x y) :
    Alike twins (x.getD .undefined) (y.getD .undefined) := by
  cases h with
  | some hxy => exact hxy
  | none => exact .undefined

/-! ### What can be seen of a value -/

namespace Alike

theorem kind (h : Alike twins v v') : v.kind = v'.kind := by
  cases h with
  | object _ hanswers _ _ => simp only [Value.kind, hanswers.className]
  | _ => rfl

theorem isUndefined (h : Alike twins v v') : v.isUndefined = v'.isUndefined := by
  cases h <;> rfl

theorem number? (h : Alike twins v v') : v.number? = v'.number? := by
  cases h <;> rfl

theorem place? (h : Alike twins v v') : v.place? = v'.place? := by
  cases h <;> rfl

theorem isTruthy (h : Alike twins v v') : v.isTruthy = v'.isTruthy := by
  cases h with
  | list hitems => simp only [Value.isTruthy, isEmpty_eq_of_forall₂ hitems]
  | tuple hitems => simp only [Value.isTruthy, isEmpty_eq_of_forall₂ hitems]
  | mapping hentries => simp only [Value.isTruthy, isEmpty_eq_of_forall₂ hentries]
  | object _ hanswers _ _ => simp only [Value.isTruthy, hanswers.truth]
  | _ => rfl

theorem truth (h : Alike twins v v') : v.truth = v'.truth := by
  have hinterrupt : v.interrupt? = v'.interrupt? := by
    cases h with
    | object _ hanswers _ _ => simp only [Value.interrupt?, hanswers.truth]
    | _ => rfl
  unfold Value.truth
  rw [hinterrupt, h.isTruthy]

theorem asked (h : Alike twins v v') : v.asked = v'.asked := by
  unfold Value.asked
  rw [h.truth]

theorem length? (h : Alike twins v v') : v.length? = v'.length? := by
  cases h with
  | list hitems => simp only [Value.length?, hitems.length_eq]
  | tuple hitems => simp only [Value.length?, hitems.length_eq]
  | mapping hentries => simp only [Value.length?, hentries.length_eq]
  | object _ hanswers _ _ => exact hanswers.length
  | _ => rfl

theorem places? (h : Alike twins v v') :
    Option.Rel (List.Forall₂ (Alike twins)) v.places? v'.places? := by
  cases h with
  | string s =>
    refine .some ?_
    induction s.toList with
    | nil => exact .nil
    | cons c rest ih => exact .cons (.string _) ih
  | list hitems => exact .some hitems
  | tuple hitems => exact .some hitems
  | _ => exact .none

/-- A loop runs through items that are alike. -/
theorem items? (h : Alike twins v v') :
    Option.Rel (List.Forall₂ (Alike twins)) v.items? v'.items? := by
  have hplaces := h.places?
  cases h with
  | mapping hentries =>
    refine .some ?_
    clear hplaces
    induction hentries with
    | nil => exact .nil
    | cons hentry _ ih =>
      obtain ⟨hkey, -⟩ := hentry
      exact .cons hkey ih
  | object _ _ hitems _ => exact hitems
  | _ => exact hplaces

end Alike

/-! ### Texts -/

mutual

/-- Values that are alike have the same exact form. -/
theorem literal_eq_of_alike : ∀ (v : Value) {v' : Value}, Alike twins v v' →
    v.literal = v'.literal
  | .undefined, _, .undefined => rfl
  | .null, _, .null => rfl
  | .bool _, _, .bool _ => rfl
  | .int _, _, .int _ => rfl
  | .float _, _, .float _ => rfl
  | .string _, _, .string _ => rfl
  | .list items, _, .list h => by rw [literal, literal, literals_eq_of_alike items h]
  | .tuple items, _, .tuple h => by rw [literal, literal, literals_eq_of_alike items h]
  | .mapping entries, _, .mapping h => by
    rw [literal, literal, entryLiterals_eq_of_alike entries h]
  | .object o, _, .object _ hanswers _ _ => by rw [literal, literal, hanswers.exact]

theorem literals_eq_of_alike : ∀ (items : List Value) {items' : List Value},
    List.Forall₂ (Alike twins) items items' → literals items = literals items'
  | [], _, .nil => rfl
  | item :: rest, _, .cons hitem hrest => by
    rw [literals, literals, literal_eq_of_alike item hitem, literals_eq_of_alike rest hrest]

theorem entryLiterals_eq_of_alike : ∀ (entries : List (Value × Value))
    {entries' : List (Value × Value)},
    List.Forall₂ (EntryAlike (Alike twins)) entries entries' →
    entryLiterals entries = entryLiterals entries'
  | [], _, .nil => rfl
  | (key, value) :: rest, _, .cons (.mk hkey hvalue) hrest => by
    rw [entryLiterals, entryLiterals, literal_eq_of_alike key hkey,
      literal_eq_of_alike value hvalue, entryLiterals_eq_of_alike rest hrest]

end

mutual

/-- Values that are alike are put out alike. -/
theorem display_eq_of_alike : ∀ (v : Value) {v' : Value}, Alike twins v v' →
    v.display = v'.display
  | .undefined, _, .undefined => rfl
  | .null, _, .null => rfl
  | .bool _, _, .bool _ => rfl
  | .int _, _, .int _ => rfl
  | .float _, _, .float _ => rfl
  | .string _, _, .string _ => rfl
  | .list items, _, .list h => by rw [display, display, displays_eq_of_alike items h]
  | .tuple items, _, .tuple h => by rw [display, display, displays_eq_of_alike items h]
  | .mapping entries, _, .mapping h => by
    rw [display, display]
    exact literal_eq_of_alike (.mapping entries) (.mapping h)
  | .object o, _, .object _ hanswers _ _ => by rw [display, display, hanswers.text]

theorem displays_eq_of_alike : ∀ (items : List Value) {items' : List Value},
    List.Forall₂ (Alike twins) items items' → displays items = displays items'
  | [], _, .nil => rfl
  | item :: rest, _, .cons hitem hrest => by
    rw [displays, displays, display_eq_of_alike item hitem, displays_eq_of_alike rest hrest]

end

theorem displayed_eq_of_alike (h : Alike twins v v') : v.displayed = v'.displayed := by
  unfold displayed
  rw [display_eq_of_alike v h]

/-! ### Equality and keys -/

/-- Twins are the same objects in one run if they are in the other. -/
theorem identity_eq_of_twins (htwins : Relator.BiUnique twins) {i i' j j' : Nat}
    (hi : twins i i') (hj : twins j j') : (i == j) = (i' == j') := by
  obtain ⟨hleft, hright⟩ := htwins
  have hiff : i = j ↔ i' = j' := by
    constructor
    · intro h
      subst h
      exact hright hi hj
    · intro h
      subst h
      exact hleft hi hj
  by_cases h : i = j
  · simp [h, hiff.1 h]
  · have h' : i' ≠ j' := fun h' => h (hiff.2 h')
    simp [h, h']

/-- Values that are alike are one thing in both runs or in none. -/
theorem identical_eq_of_alike (htwins : Relator.BiUnique twins) (ha : Alike twins a a')
    (hb : Alike twins b b') : identical a b = identical a' b' := by
  cases ha with
  | object hidentity =>
    cases hb with
    | object hidentity' => exact identity_eq_of_twins htwins hidentity hidentity'
    | _ => rfl
  | float x => cases hb <;> rfl
  | _ => rfl

theorem Alike.quantity? (h : Alike twins v v') : v.quantity? = v'.quantity? := by
  cases h with
  | object _ hanswers _ _ => simp only [Value.quantity?, hanswers.equality]
  | _ => rfl

theorem Alike.incomparable? (h : Alike twins v v') : v.incomparable? = v'.incomparable? := by
  cases h with
  | object _ hanswers _ _ => simp only [Value.incomparable?, hanswers.equality]
  | _ => rfl

theorem sameScalar_eq_of_alike (htwins : Relator.BiUnique twins) (ha : Alike twins a a')
    (hb : Alike twins b b') : sameScalar a b = sameScalar a' b' := by
  have hquantity := ha.quantity?
  have hquantity' := hb.quantity?
  have hidentical := identical_eq_of_alike htwins ha hb
  cases ha with
  | undefined | null | string => cases hb <;> simp only [sameScalar, hquantity', hidentical]
  | _ => simp only [sameScalar, hquantity, hquantity', hidentical]

theorem compareScalar_eq_of_alike (htwins : Relator.BiUnique twins) (ha : Alike twins a a')
    (hb : Alike twins b b') : compareScalar a b = compareScalar a' b' := by
  unfold compareScalar
  rw [ha.incomparable?, hb.incomparable?, sameScalar_eq_of_alike htwins ha hb]

/-- Keys of which one is no tuple are compared as a whole. -/
theorem sameKey_of_ne_tuple (ha : ∀ items, a ≠ .tuple items) :
    sameKey a b = (identical a b || sameScalar a b) := by
  cases a with
  | tuple items => exact absurd rfl (ha items)
  | _ => rw [sameKey]; exact fun _ _ h => by cases h

theorem sameKey_eq_of_ne_tuple (htwins : Relator.BiUnique twins) (ha : Alike twins a a')
    (hb : Alike twins b b') (hnone : ∀ items, a ≠ .tuple items)
    (hnone' : ∀ items, a' ≠ .tuple items) : sameKey a b = sameKey a' b' := by
  rw [sameKey_of_ne_tuple hnone, sameKey_of_ne_tuple hnone', identical_eq_of_alike htwins ha hb,
    sameScalar_eq_of_alike htwins ha hb]

mutual

/-- Keys are one in both runs or in none. -/
theorem sameKey_eq_of_alike (htwins : Relator.BiUnique twins) : ∀ (a : Value) {a' b b' : Value},
    Alike twins a a' → Alike twins b b' → sameKey a b = sameKey a' b'
  | .tuple items, _, _, _, .tuple h, hb => by
    have hscalar := sameScalar_eq_of_alike htwins (.tuple h) hb
    have hidentical := identical_eq_of_alike htwins (.tuple h) hb
    cases hb with
    | tuple h' =>
      simp only [sameKey]
      exact sameKeys_eq_of_alike htwins items h h'
    | _ => simp only [sameKey, hscalar, hidentical]
  | .undefined, _, _, _, h@.undefined, hb => sameKey_eq_of_ne_tuple htwins h hb nofun nofun
  | .null, _, _, _, h@.null, hb => sameKey_eq_of_ne_tuple htwins h hb nofun nofun
  | .bool _, _, _, _, h@(.bool _), hb => sameKey_eq_of_ne_tuple htwins h hb nofun nofun
  | .int _, _, _, _, h@(.int _), hb => sameKey_eq_of_ne_tuple htwins h hb nofun nofun
  | .float _, _, _, _, h@(.float _), hb => sameKey_eq_of_ne_tuple htwins h hb nofun nofun
  | .string _, _, _, _, h@(.string _), hb => sameKey_eq_of_ne_tuple htwins h hb nofun nofun
  | .list _, _, _, _, h@(.list _), hb => sameKey_eq_of_ne_tuple htwins h hb nofun nofun
  | .mapping _, _, _, _, h@(.mapping _), hb => sameKey_eq_of_ne_tuple htwins h hb nofun nofun
  | .object _, _, _, _, h@(.object _ _ _ _), hb => sameKey_eq_of_ne_tuple htwins h hb nofun nofun

theorem sameKeys_eq_of_alike (htwins : Relator.BiUnique twins) :
    ∀ (xs : List Value) {xs' ys ys' : List Value},
    List.Forall₂ (Alike twins) xs xs' → List.Forall₂ (Alike twins) ys ys' →
    sameKeys xs ys = sameKeys xs' ys'
  | [], _, _, _, .nil, .nil => rfl
  | [], _, _, _, .nil, .cons _ _ => rfl
  | _ :: _, _, _, _, .cons _ _, .nil => rfl
  | x :: xs, _, _, _, .cons hx hxs, .cons hy hys => by
    simp only [sameKeys, sameKey_eq_of_alike htwins x hx hy, sameKeys_eq_of_alike htwins xs hxs hys]

end

/-- The same key finds entries that are alike. -/
theorem findEntry_alike (htwins : Relator.BiUnique twins) {entries entries' : List (Value × Value)}
    (h : List.Forall₂ (EntryAlike (Alike twins)) entries entries') (hkey : Alike twins a a') :
    Option.Rel (EntryAlike (Alike twins)) (entries.find? fun e => sameKey a e.1)
      (entries'.find? fun e => sameKey a' e.1) := by
  apply find?_rel h
  rintro _ _ ⟨hkey', -⟩
  exact sameKey_eq_of_alike htwins a hkey hkey'

/-- Values of which the first is no list, tuple or mapping are compared as a whole. -/
theorem same_eq_of_scalar (htwins : Relator.BiUnique twins) (ha : Alike twins a a')
    (hb : Alike twins b b') (hsame : same a b = compareScalar a b)
    (hsame' : same a' b' = compareScalar a' b') : same a b = same a' b' := by
  rw [hsame, hsame', compareScalar_eq_of_alike htwins ha hb]

mutual

/-- Equality gives the same answer in both runs. -/
theorem same_eq_of_alike (htwins : Relator.BiUnique twins) : ∀ (a : Value) {a' b b' : Value},
    Alike twins a a' → Alike twins b b' → same a b = same a' b'
  | .list items, _, _, _, .list h, hb => by
    have hscalar := compareScalar_eq_of_alike htwins (.list h) hb
    cases hb with
    | list h' =>
      simp only [same, h.length_eq, h'.length_eq, sameItems_eq_of_alike htwins items h h']
    | _ => simp only [same, hscalar]
  | .tuple items, _, _, _, .tuple h, hb => by
    have hscalar := compareScalar_eq_of_alike htwins (.tuple h) hb
    cases hb with
    | tuple h' =>
      simp only [same]
      exact sameItems_eq_of_alike htwins items h h'
    | _ => simp only [same, hscalar]
  | .mapping entries, _, _, _, .mapping h, hb => by
    have hscalar := compareScalar_eq_of_alike htwins (.mapping h) hb
    cases hb with
    | mapping h' =>
      simp only [same, h.length_eq, h'.length_eq, sameEntries_eq_of_alike htwins entries h h']
    | _ => simp only [same, hscalar]
  | .undefined, _, _, _, h@.undefined, hb => same_eq_of_scalar htwins h hb rfl rfl
  | .null, _, _, _, h@.null, hb => same_eq_of_scalar htwins h hb rfl rfl
  | .bool _, _, _, _, h@(.bool _), hb => same_eq_of_scalar htwins h hb rfl rfl
  | .int _, _, _, _, h@(.int _), hb => same_eq_of_scalar htwins h hb rfl rfl
  | .float _, _, _, _, h@(.float _), hb => same_eq_of_scalar htwins h hb rfl rfl
  | .string _, _, _, _, h@(.string _), hb => same_eq_of_scalar htwins h hb rfl rfl
  | .object _, _, _, _, h@(.object _ _ _ _), hb => same_eq_of_scalar htwins h hb rfl rfl

theorem sameItems_eq_of_alike (htwins : Relator.BiUnique twins) :
    ∀ (xs : List Value) {xs' ys ys' : List Value},
    List.Forall₂ (Alike twins) xs xs' → List.Forall₂ (Alike twins) ys ys' →
    sameItems xs ys = sameItems xs' ys'
  | [], _, _, _, .nil, .nil => rfl
  | [], _, _, _, .nil, .cons _ _ => rfl
  | _ :: _, _, _, _, .cons _ _, .nil => rfl
  | x :: xs, _, _, _, .cons hx hxs, .cons hy hys => by
    simp only [sameItems, identical_eq_of_alike htwins hx hy, same_eq_of_alike htwins x hx hy,
      sameItems_eq_of_alike htwins xs hxs hys]

theorem sameEntries_eq_of_alike (htwins : Relator.BiUnique twins) :
    ∀ (entries : List (Value × Value)) {entries' other other' : List (Value × Value)},
    List.Forall₂ (EntryAlike (Alike twins)) entries entries' →
    List.Forall₂ (EntryAlike (Alike twins)) other other' →
    sameEntries entries other = sameEntries entries' other'
  | [], _, _, _, .nil, _ => rfl
  | (key, value) :: rest, (key', _) :: _, other, other', .cons (.mk hkey hvalue) hrest, hother => by
    have hfound := findEntry_alike htwins hother hkey
    simp only [sameEntries, sameEntries_eq_of_alike htwins rest hrest hother]
    generalize other.find? (fun entry => sameKey key entry.1) = found at hfound ⊢
    generalize other'.find? (fun entry => sameKey key' entry.1) = found' at hfound ⊢
    cases hfound with
    | none => rfl
    | some hentry =>
      obtain ⟨-, hvalue'⟩ := hentry
      simp only [identical_eq_of_alike htwins hvalue hvalue',
        same_eq_of_alike htwins value hvalue hvalue']

end

/-- The same key finds values that are alike. -/
theorem find?_alike (htwins : Relator.BiUnique twins) {entries entries' : List (Value × Value)}
    (h : List.Forall₂ (EntryAlike (Alike twins)) entries entries') (hkey : Alike twins a a') :
    Option.Rel (Alike twins) (find? entries a) (find? entries' a') := by
  apply map_rel (findEntry_alike htwins h hkey)
  rintro _ _ ⟨-, hvalue⟩
  exact hvalue

mutual

/-- What keeps values that are alike from being keys is the same. -/
theorem keyFault?_eq_of_alike : ∀ (v : Value) {v' : Value}, Alike twins v v' →
    v.keyFault? = v'.keyFault?
  | .tuple items, _, .tuple h => by rw [keyFault?, keyFault?, firstKeyFault?_eq_of_alike items h]
  | .object _, _, .object _ hanswers _ _ => by rw [keyFault?, keyFault?, hanswers.hash]
  | .list _, _, .list _ => rfl
  | .mapping _, _, .mapping _ => rfl
  | .undefined, _, .undefined => rfl
  | .null, _, .null => rfl
  | .bool _, _, .bool _ => rfl
  | .int _, _, .int _ => rfl
  | .float _, _, .float _ => rfl
  | .string _, _, .string _ => rfl

theorem firstKeyFault?_eq_of_alike : ∀ (items : List Value) {items' : List Value},
    List.Forall₂ (Alike twins) items items' → firstKeyFault? items = firstKeyFault? items'
  | [], _, .nil => rfl
  | item :: rest, _, .cons hitem hrest => by
    rw [firstKeyFault?, firstKeyFault?, keyFault?_eq_of_alike item hitem,
      firstKeyFault?_eq_of_alike rest hrest]

end

/-! ### Properties -/

/-- The attributes of a whole number are numbers and methods. -/
theorem intAttribute_alike (n : Int) (name : String) :
    Attribute.Alike (Alike twins) (intAttribute n name) (intAttribute n name) := by
  unfold intAttribute
  split
  · exact .data (.int n)
  split
  · exact .data (.int 0)
  split
  · exact .data (.int 1)
  split
  · exact .method
  · exact .absent

theorem floatAttribute_alike (x : Float) (name : String) :
    Attribute.Alike (Alike twins) (floatAttribute x name) (floatAttribute x name) := by
  unfold floatAttribute
  split
  · exact .data (.float x)
  split
  · exact .data (.float 0)
  split
  · exact .method
  · exact .absent

theorem methodsOnly_alike (methods : List String) (name : String) :
    Attribute.Alike (Alike twins) (methodsOnly methods name) (methodsOnly methods name) := by
  unfold methodsOnly
  split
  · exact .method
  · exact .absent

namespace Alike

/-- Under a public name values that are alike have attributes that are alike. -/
theorem attributeAt (h : Alike twins v v') {name : String} (hname : ¬ IsPrivate name) :
    Attribute.Alike (Alike twins) (v.attributeAt name) (v'.attributeAt name) := by
  cases h with
  | bool b => exact intAttribute_alike _ name
  | int n => exact intAttribute_alike n name
  | float x => exact floatAttribute_alike x name
  | string s => exact methodsOnly_alike _ name
  | list _ => exact methodsOnly_alike _ name
  | tuple _ => exact methodsOnly_alike _ name
  | object _ _ _ hpublic => exact hpublic name hname
  | undefined => exact .absent
  | null => exact .absent
  | mapping _ => exact .absent

/-- Reading an attribute gives the same in both runs: a private one is refused whatever it holds. -/
theorem readAttribute (h : Alike twins v v') (name : String) :
    SameOutcome (Alike twins) (v.readAttribute name) (v'.readAttribute name) := by
  unfold Value.readAttribute
  -- The name is looked at before the attribute.
  by_cases hname : IsPrivate name
  · have hstart : name.startsWith "_" = true := hname
    rw [if_pos hstart, if_pos hstart]
    exact .error _
  · have hstart : ¬ name.startsWith "_" = true := hname
    rw [if_neg hstart, if_neg hstart]
    have hfound := h.attributeAt hname
    generalize v.attributeAt name = found at hfound ⊢
    generalize v'.attributeAt name = found' at hfound ⊢
    cases hfound with
    | absent => exact .ok .undefined
    | data hv => exact .ok hv
    | method => exact .error _
    | failing e => exact .error _

/-- A property that is no entry of a mapping is the length or an attribute. -/
theorem lengthOrAttribute (h : Alike twins v v') (name : String) :
    SameOutcome (Alike twins)
      (match (if name = "length" then v.length? else none) with
        | some (.ok n) => .ok (.int n)
        | some (.error e) => .error (.hostFailed e)
        | none => v.readAttribute name)
      (match (if name = "length" then v'.length? else none) with
        | some (.ok n) => .ok (.int n)
        | some (.error e) => .error (.hostFailed e)
        | none => v'.readAttribute name) := by
  rw [h.length?]
  split
  · exact .ok (.int _)
  · exact .error _
  · exact h.readAttribute name

theorem property (htwins : Relator.BiUnique twins) (h : Alike twins v v') (name : String) :
    SameOutcome (Alike twins) (v.property name) (v'.property name) := by
  cases h with
  | undefined => exact .ok .undefined
  | null => exact .ok .undefined
  | mapping hentries =>
    unfold Value.property
    simp only
    have hfound := find?_alike htwins hentries (.string name)
    generalize find? _ (.string name) = found at hfound ⊢
    generalize find? _ (.string name) = found' at hfound ⊢
    cases hfound with
    | some hv => exact .ok hv
    | none =>
      simp only [hentries.length_eq]
      split
      · exact .ok (.int _)
      · exact .ok .undefined
  | bool b => exact (Alike.bool b).lengthOrAttribute name
  | int n => exact (Alike.int n).lengthOrAttribute name
  | float x => exact (Alike.float x).lengthOrAttribute name
  | string s => exact (Alike.string s).lengthOrAttribute name
  | list hitems => exact (Alike.list hitems).lengthOrAttribute name
  | tuple hitems => exact (Alike.tuple hitems).lengthOrAttribute name
  | object hidentity hanswers hitems hpublic =>
    exact (Alike.object hidentity hanswers hitems hpublic).lengthOrAttribute name

theorem propertyValue (htwins : Relator.BiUnique twins) (h : Alike twins v v') (name : String) :
    SameOutcome (Alike twins) (v.propertyValue name) (v'.propertyValue name) :=
  (h.property htwins name).mapError _

end Alike

/-! ### Operations -/

/-- What a truth value that is the same in both runs is made into is alike. -/
theorem ofBool_alike (outcome : Except EvalFault Bool) (f : Bool → Bool) :
    SameOutcome (Alike twins) (do return .bool (f (← outcome)))
      (do return .bool (f (← outcome))) := by
  cases outcome with
  | error fault => exact .error fault
  | ok b => exact .ok (.bool (f b))

/-- A number is alike in both runs. -/
theorem arithmeticResult_alike (result : Except ArithmeticFault Number) :
    SameOutcome (Alike twins) (arithmeticResult result) (arithmeticResult result) := by
  cases result with
  | error fault => exact .error _
  | ok n =>
    cases n with
    | int n => exact .ok (.int n)
    | float x => exact .ok (.float x)

namespace Alike

/-- The output forms of two values, one after the other. -/
theorem displayedTogether (ha : Alike twins a a') (hb : Alike twins b b') :
    SameOutcome (Alike twins)
      (do
        let left ← a.displayed
        return .string (left ++ (← b.displayed)))
      (do
        let left ← a'.displayed
        return .string (left ++ (← b'.displayed))) := by
  rw [displayed_eq_of_alike ha, displayed_eq_of_alike hb]
  cases a'.displayed with
  | error fault => exact .error fault
  | ok left =>
    cases b'.displayed with
    | error fault => exact .error fault
    | ok right => exact .ok (.string _)

theorem add (ha : Alike twins a a') (hb : Alike twins b b') :
    SameOutcome (Alike twins) (a.add b) (a'.add b') := by
  have htexts := displayedTogether ha hb
  have hkinds : SameOutcome (Alike twins)
      (.error (.notAddable a.kind b.kind) : Except EvalFault Value)
      (.error (.notAddable a'.kind b'.kind)) := by
    rw [ha.kind, hb.kind]
    exact .error _
  unfold Value.add
  rw [ha.isUndefined, hb.isUndefined, ha.number?, hb.number?]
  -- From here on the operation goes by the kinds of its operands, which are the same.
  by_cases hundefined : (a'.isUndefined || b'.isUndefined) = true
  · rw [if_pos hundefined, if_pos hundefined]
    exact .error _
  rw [if_neg hundefined, if_neg hundefined]
  split
  · exact arithmeticResult_alike _
  · cases ha with
    | string s => exact htexts
    | list hxs =>
      cases hb with
      | string t => exact htexts
      | list hys => exact .ok (.list (List.rel_append hxs hys))
      | _ => exact hkinds
    | _ =>
      cases hb with
      | string t => exact htexts
      | _ => exact hkinds

theorem onNumbers (f : Number → Number → Except ArithmeticFault Number) (ha : Alike twins a a')
    (hb : Alike twins b b') :
    SameOutcome (Alike twins) (Value.onNumbers f a b) (Value.onNumbers f a' b') := by
  unfold Value.onNumbers
  rw [ha.number?, hb.number?, ha.kind, hb.kind]
  split
  · exact arithmeticResult_alike _
  · exact .error _

/-- The order of two values that are no texts is that of their numbers. -/
theorem orderedNumbers (wanted : Ordering → Bool) (ha : Alike twins a a')
    (hb : Alike twins b b') :
    SameOutcome (Alike twins)
      (match a.number?, b.number? with
        | some m, some n => .ok (.bool ((m.compare? n).any wanted))
        | _, _ => .error (.notComparable a.kind b.kind) : Except EvalFault Value)
      (match a'.number?, b'.number? with
        | some m, some n => .ok (.bool ((m.compare? n).any wanted))
        | _, _ => .error (.notComparable a'.kind b'.kind)) := by
  rw [ha.number?, hb.number?, ha.kind, hb.kind]
  split
  · exact .ok (.bool _)
  · exact .error _

theorem ordered (wanted : Ordering → Bool) (ha : Alike twins a a') (hb : Alike twins b b') :
    SameOutcome (Alike twins) (Value.ordered wanted a b) (Value.ordered wanted a' b') := by
  have hnumbers := ha.orderedNumbers wanted hb
  cases ha with
  | string s =>
    cases hb with
    | string t => exact .ok (.bool _)
    | _ => exact hnumbers
  | _ => exact hnumbers

/-- An operation gives the same in both runs. -/
theorem binary (htwins : Relator.BiUnique twins) (op : BinaryOp) (ha : Alike twins a a')
    (hb : Alike twins b b') :
    SameOutcome (Alike twins) (Value.binary op a b) (Value.binary op a' b') := by
  cases op with
  | add => exact ha.add hb
  | sub => exact ha.onNumbers _ hb
  | mul => exact ha.onNumbers _ hb
  | div => exact ha.onNumbers _ hb
  | mod => exact ha.onNumbers _ hb
  | eq =>
    simp only [Value.binary, Value.compared, same_eq_of_alike htwins a ha hb]
    exact ofBool_alike _ id
  | ne =>
    simp only [Value.binary, Value.compared, same_eq_of_alike htwins a ha hb]
    exact ofBool_alike _ not
  | lt => exact ha.ordered _ hb
  | le => exact ha.ordered _ hb
  | gt => exact ha.ordered _ hb
  | ge => exact ha.ordered _ hb
  | other text => exact .error _

/-- The number of a value is negated, if it has one. -/
theorem negated (h : Alike twins v v') :
    SameOutcome (Alike twins) v.negated v'.negated := by
  unfold Value.negated
  rw [h.number?, h.kind]
  split
  · exact arithmeticResult_alike (.ok _)
  · exact .error _

theorem unary (op : UnaryOp) (h : Alike twins v v') :
    SameOutcome (Alike twins) (v.unary op) (v'.unary op) := by
  cases op with
  | not =>
    simp only [Value.unary, h.asked]
    exact ofBool_alike _ not
  | neg => exact h.negated
  | other text => exact h.negated

theorem decides (op : LogicalOp) (h : Alike twins v v') : v.decides op = v'.decides op := by
  unfold Value.decides
  rw [h.asked]

theorem itemAt (ha : Alike twins a a') (hb : Alike twins b b') :
    SameOutcome (Alike twins) (Value.itemAt a b) (Value.itemAt a' b') := by
  unfold Value.itemAt
  rw [hb.place?, literal_eq_of_alike b hb, ha.kind]
  have hitems := ha.places?
  generalize a.places? = items at hitems ⊢
  generalize a'.places? = items' at hitems ⊢
  -- Without items or without a place the key is shown, which is the same in both runs.
  cases hitems with
  | none => exact .error _
  | some hitems =>
    cases b'.place? with
    | none => exact .error _
    | some n =>
      by_cases hn : 0 ≤ n
      · simp only [if_pos hn]
        exact .ok (getD_alike (getElem?_rel hitems n.toNat))
      · simp only [if_neg hn]
        exact .ok .undefined

theorem propertyOrItem (htwins : Relator.BiUnique twins) (ha : Alike twins a a')
    (hb : Alike twins b b') :
    SameOutcome (Alike twins) (a.propertyOrItem b) (a'.propertyOrItem b') := by
  have hitem := ha.itemAt hb
  cases hb with
  | string name => exact ha.propertyValue htwins name
  | _ => exact hitem

/-- An access by place or key gives the same in both runs. -/
theorem indexValue (htwins : Relator.BiUnique twins) (ha : Alike twins a a')
    (hb : Alike twins b b') :
    SameOutcome (Alike twins) (a.indexValue b) (a'.indexValue b') := by
  have hplain := ha.propertyOrItem htwins hb
  cases ha with
  | undefined => exact .ok .undefined
  | null => exact .ok .undefined
  | mapping hentries =>
    unfold Value.indexValue
    simp only [keyFault?_eq_of_alike b hb]
    split
    · exact .ok (getD_alike (find?_alike htwins hentries hb))
    · exact .error _
  | _ => exact hplain

end Alike

end Value

end TextTemplate
