import TextTemplate.Proofs.Number.Numeral
import TextTemplate.Value.Text

/-! # Which values have a text

  A value has both of its texts unless a whole number with too many digits is the
  value or stands in it.  Nothing else that a value may hold is in the way: no
  double, no text, no host object, and no depth.

  A message shows the exact form, unless the value is nested deeper than messages
  can show it (`agrees_literalWithin`, by recursion on the value).
-/

namespace TextTemplate

/-- Two steps fail if the first one does, or the second one after it. -/
theorem error_of_bind {ε α β : Type} {first : Except ε α} {second : α → Except ε β} {fault : ε}
    (h : (first >>= second) = .error fault) :
    first = .error fault ∨ ∃ a, first = .ok a ∧ second a = .error fault := by
  cases first with
  | error other => exact .inl (congrArg Except.error (Except.error.inj h))
  | ok a => exact .inr ⟨a, rfl, h⟩

namespace Value

/-- The first value is the second one or stands in it, at any depth. -/
inductive Part (p : Value) : Value → Prop where
  | self : Part p p
  | listItem {items : List Value} {v : Value} : v ∈ items → Part p v → Part p (.list items)
  | tupleItem {items : List Value} {v : Value} : v ∈ items → Part p v → Part p (.tuple items)
  | key {entries : List (Value × Value)} {k v : Value} :
      (k, v) ∈ entries → Part p k → Part p (.mapping entries)
  | entry {entries : List (Value × Value)} {k v : Value} :
      (k, v) ∈ entries → Part p v → Part p (.mapping entries)

/-- A whole number with too many digits is the value or stands in it. -/
def HoldsLong (v : Value) : Prop := ∃ n, Part (.int n) v ∧ Numeral.IsLong n

theorem HoldsLong.imp {v w : Value} (h : HoldsLong v) (hpart : ∀ p, Part p v → Part p w) :
    HoldsLong w := by
  obtain ⟨n, hn, hlong⟩ := h
  exact ⟨n, hpart _ hn, hlong⟩

/-! ### The exact form -/

mutual

/-- A value without an exact form holds a long number. -/
theorem holdsLong_of_literal {fault : TooManyDigits} : ∀ v : Value, v.literal = .error fault →
    HoldsLong v
  | .undefined, h => by cases h
  | .null, h => by cases h
  | .bool _, h => by cases h
  | .int n, h => ⟨n, .self, Numeral.write_eq_error_iff.1 h⟩
  | .float _, h => by cases h
  | .string _, h => by cases h
  | .list items, h => by
    rw [literal] at h
    rcases error_of_bind h with hitems | ⟨_, _, hdone⟩
    · obtain ⟨v, hv, hlong⟩ := holdsLong_of_literals items hitems
      exact hlong.imp fun _ => .listItem hv
    · cases hdone
  | .tuple items, h => by
    rw [literal] at h
    rcases error_of_bind h with hitems | ⟨shown, _, hdone⟩
    · obtain ⟨v, hv, hlong⟩ := holdsLong_of_literals items hitems
      exact hlong.imp fun _ => .tupleItem hv
    · split at hdone
      · cases hdone
      · cases hdone
  | .mapping entries, h => by
    rw [literal] at h
    rcases error_of_bind h with hentries | ⟨_, _, hdone⟩
    · obtain ⟨k, v, hmem, hkey | hvalue⟩ := holdsLong_of_entryLiterals entries hentries
      · exact hkey.imp fun _ => .key hmem
      · exact hvalue.imp fun _ => .entry hmem
    · cases hdone
  | .object _, h => by cases h

/-- If some values do not all have an exact form, one of them holds a long number. -/
theorem holdsLong_of_literals {fault : TooManyDigits} : ∀ items : List Value,
    literals items = .error fault → ∃ v ∈ items, HoldsLong v
  | [], h => by cases h
  | item :: rest, h => by
    rw [literals] at h
    rcases error_of_bind h with hfirst | ⟨_, _, hrest⟩
    · exact ⟨item, List.mem_cons_self, holdsLong_of_literal item hfirst⟩
    · rcases error_of_bind hrest with hrest | ⟨_, _, hdone⟩
      · obtain ⟨v, hv, hlong⟩ := holdsLong_of_literals rest hrest
        exact ⟨v, List.mem_cons_of_mem _ hv, hlong⟩
      · cases hdone

/-- If some entries do not all have an exact form, a key or value of theirs holds a long number. -/
theorem holdsLong_of_entryLiterals {fault : TooManyDigits} : ∀ entries : List (Value × Value),
    entryLiterals entries = .error fault →
      ∃ k v, (k, v) ∈ entries ∧ (HoldsLong k ∨ HoldsLong v)
  | [], h => by cases h
  | (key, value) :: rest, h => by
    rw [entryLiterals] at h
    rcases error_of_bind h with hkey | ⟨_, _, h⟩
    · exact ⟨key, value, List.mem_cons_self, .inl (holdsLong_of_literal key hkey)⟩
    rcases error_of_bind h with hvalue | ⟨_, _, h⟩
    · exact ⟨key, value, List.mem_cons_self, .inr (holdsLong_of_literal value hvalue)⟩
    rcases error_of_bind h with hrest | ⟨_, _, h⟩
    · obtain ⟨k, v, hmem, hlong⟩ := holdsLong_of_entryLiterals rest hrest
      exact ⟨k, v, List.mem_cons_of_mem _ hmem, hlong⟩
    · cases h

end

/-! ### The form in the output -/

mutual

/-- A value that cannot be put out holds a long number. -/
theorem holdsLong_of_display {fault : TooManyDigits} : ∀ v : Value, v.display = .error fault →
    HoldsLong v
  | .undefined, h => by cases h
  | .null, h => by cases h
  | .bool _, h => by cases h
  | .int n, h => ⟨n, .self, Numeral.write_eq_error_iff.1 h⟩
  | .float x, h => by
    rw [display] at h
    split at h
    · next n hwhole =>
      exact absurd (Numeral.write_eq_error_iff.1 h) (Number.not_isLong_of_wholeFloat? hwhole)
    · cases h
  | .string _, h => by cases h
  | .list items, h => by
    rw [display] at h
    rcases error_of_bind h with hitems | ⟨_, _, hdone⟩
    · obtain ⟨v, hv, hlong⟩ := holdsLong_of_displays items hitems
      exact hlong.imp fun _ => .listItem hv
    · cases hdone
  | .tuple items, h => by
    rw [display] at h
    rcases error_of_bind h with hitems | ⟨_, _, hdone⟩
    · obtain ⟨v, hv, hlong⟩ := holdsLong_of_displays items hitems
      exact hlong.imp fun _ => .tupleItem hv
    · cases hdone
  | .mapping entries, h => by
    rw [display] at h
    exact holdsLong_of_literal (.mapping entries) h
  | .object _, h => by cases h

/-- If some values cannot all be put out, one of them holds a long number. -/
theorem holdsLong_of_displays {fault : TooManyDigits} : ∀ items : List Value,
    displays items = .error fault → ∃ v ∈ items, HoldsLong v
  | [], h => by cases h
  | item :: rest, h => by
    rw [displays] at h
    rcases error_of_bind h with hfirst | ⟨_, _, hrest⟩
    · exact ⟨item, List.mem_cons_self, holdsLong_of_display item hfirst⟩
    · rcases error_of_bind hrest with hrest | ⟨_, _, hdone⟩
      · obtain ⟨v, hv, hlong⟩ := holdsLong_of_displays rest hrest
        exact ⟨v, List.mem_cons_of_mem _ hv, hlong⟩
      · cases hdone

end

/-! ### The form in a message -/

/-- Lists, tuples and mappings are in each other, more than so many. -/
inductive NestedBeyond : Nat → Value → Prop where
  | list (items : List Value) : NestedBeyond 0 (.list items)
  | tuple (items : List Value) : NestedBeyond 0 (.tuple items)
  | mapping (entries : List (Value × Value)) : NestedBeyond 0 (.mapping entries)
  | listItem {n : Nat} {items : List Value} {v : Value} :
      v ∈ items → NestedBeyond n v → NestedBeyond (n + 1) (.list items)
  | tupleItem {n : Nat} {items : List Value} {v : Value} :
      v ∈ items → NestedBeyond n v → NestedBeyond (n + 1) (.tuple items)
  | key {n : Nat} {entries : List (Value × Value)} {k v : Value} :
      (k, v) ∈ entries → NestedBeyond n k → NestedBeyond (n + 1) (.mapping entries)
  | entry {n : Nat} {entries : List (Value × Value)} {k v : Value} :
      (k, v) ∈ entries → NestedBeyond n v → NestedBeyond (n + 1) (.mapping entries)

/-- What can be shown is as it is without a bound, unless it is too deep. -/
def Agrees {α : Type} (deep : Prop) (bounded : Except ShowFault α)
    (free : Except TooManyDigits α) : Prop :=
  match bounded with
  | .ok a => free = .ok a
  | .error .tooManyDigits => free = .error .tooManyDigits
  | .error .tooDeep => deep

theorem Agrees.mono {α : Type} {deep deep' : Prop} {x : Except ShowFault α}
    {y : Except TooManyDigits α} (h : Agrees deep x y) (hdeep : deep → deep') :
    Agrees deep' x y := by
  cases x with
  | ok a => exact h
  | error fault =>
    cases fault with
    | tooManyDigits => exact h
    | tooDeep => exact hdeep h

theorem Agrees.bind {α β : Type} {deep deep' deep'' : Prop} {x : Except ShowFault α}
    {y : Except TooManyDigits α} {f : α → Except ShowFault β} {g : α → Except TooManyDigits β}
    (hx : Agrees deep x y) (hf : ∀ a, Agrees deep' (f a) (g a)) (hdeep : deep → deep'')
    (hdeep' : deep' → deep'') : Agrees deep'' (x >>= f) (y >>= g) := by
  cases x with
  | ok a =>
    obtain rfl : y = .ok a := hx
    exact (hf a).mono hdeep'
  | error fault =>
    cases fault with
    | tooManyDigits =>
      obtain rfl : y = .error .tooManyDigits := hx
      rfl
    | tooDeep => exact hdeep hx

theorem Agrees.ok {α : Type} {deep : Prop} (a : α) : Agrees deep (.ok a) (.ok a) := rfl

theorem agrees_mapError {α : Type} {deep : Prop} (x : Except TooManyDigits α) :
    Agrees deep (x.mapError fun _ => .tooManyDigits) x := by
  cases x with
  | ok a => rfl
  | error fault => rfl

/-- What is shown inside a value is shown unless it is too deep there, or the value is itself. -/
theorem Agrees.enter {α : Type} (deep : Nat → Prop) {f : Nat → Except ShowFault α}
    {y : Except TooManyDigits α} {levels : Nat} (hzero : deep 0)
    (hf : ∀ inside, Agrees (deep (inside + 1)) (f inside) y) :
    Agrees (deep levels) (Value.enter levels >>= f) y := by
  cases levels with
  | zero => exact hzero
  | succ inside => exact hf inside

mutual

/-- A message shows the exact form of a value, unless this is nested too deep. -/
theorem agrees_literalWithin : ∀ (levels : Nat) (v : Value),
    Agrees (NestedBeyond levels v) (literalWithin levels v) v.literal
  | levels, .list items => by
    rw [literalWithin, literal]
    refine .enter (NestedBeyond · (.list items)) (.list items) fun inside => ?_
    refine (agrees_literalsWithin inside items).bind (fun _ => .ok _) ?_ False.elim
    rintro ⟨v, hv, hdeep⟩
    exact .listItem hv hdeep
  | levels, .tuple items => by
    rw [literalWithin, literal]
    refine .enter (NestedBeyond · (.tuple items)) (.tuple items) fun inside => ?_
    refine (agrees_literalsWithin inside items).bind (fun shown => ?_) ?_ False.elim
    · split <;> exact .ok _
    · rintro ⟨v, hv, hdeep⟩
      exact .tupleItem hv hdeep
  | levels, .mapping entries => by
    rw [literalWithin, literal]
    refine .enter (NestedBeyond · (.mapping entries)) (.mapping entries) fun inside => ?_
    refine (agrees_entryLiteralsWithin inside entries).bind (fun _ => .ok _) ?_ False.elim
    rintro ⟨k, v, hmem, hkey | hvalue⟩
    · exact .key hmem hkey
    · exact .entry hmem hvalue
  | _, .undefined => .ok _
  | _, .null => .ok _
  | _, .bool _ => .ok _
  | _, .int n => agrees_mapError (Numeral.write n)
  | _, .float _ => .ok _
  | _, .string s => .ok (Text.quote s)
  | _, .object o => .ok o.exact

theorem agrees_literalsWithin : ∀ (levels : Nat) (items : List Value),
    Agrees (∃ v ∈ items, NestedBeyond levels v) (literalsWithin levels items) (literals items)
  | _, [] => .ok _
  | levels, item :: rest => by
    rw [literalsWithin, literals]
    refine (agrees_literalWithin levels item).bind (fun first => ?_)
      (fun hdeep => ⟨item, List.mem_cons_self, hdeep⟩) id
    refine (agrees_literalsWithin levels rest).bind (fun _ => .ok _) ?_ False.elim
    rintro ⟨v, hv, hdeep⟩
    exact ⟨v, List.mem_cons_of_mem _ hv, hdeep⟩

theorem agrees_entryLiteralsWithin : ∀ (levels : Nat) (entries : List (Value × Value)),
    Agrees (∃ k v, (k, v) ∈ entries ∧ (NestedBeyond levels k ∨ NestedBeyond levels v))
      (entryLiteralsWithin levels entries) (entryLiterals entries)
  | _, [] => .ok _
  | levels, (key, value) :: rest => by
    rw [entryLiteralsWithin, entryLiterals]
    refine (agrees_literalWithin levels key).bind (fun shownKey => ?_)
      (fun hdeep => ⟨key, value, List.mem_cons_self, .inl hdeep⟩) id
    refine (agrees_literalWithin levels value).bind (fun shownValue => ?_)
      (fun hdeep => ⟨key, value, List.mem_cons_self, .inr hdeep⟩) id
    refine (agrees_entryLiteralsWithin levels rest).bind (fun _ => .ok _) ?_ False.elim
    rintro ⟨k, v, hmem, hdeep⟩
    exact ⟨k, v, List.mem_cons_of_mem _ hmem, hdeep⟩

end

end Value

end TextTemplate
