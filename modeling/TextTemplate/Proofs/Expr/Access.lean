import TextTemplate.Expr.Eval

/-! # Properties and indexes

  What a point reads is also read by an index that holds the name as a text.  Both
  ask the value for the same property unless it is a mapping, and a mapping answers
  both with its entry.  So they hide the same attributes (`indexValue_hides_iff`), and
  there is one difference only: a mapping without a key `length` tells a point how
  many keys it has, and an index nothing (`property_index_alike`).
-/

namespace TextTemplate

namespace Value

variable {v : Value} {entries : List (Value × Value)} {n : String}

/-! ### Values that are no mappings -/

/-- For a value that is no mapping, a text as the index means a property. -/
theorem indexValue_string (h : ∀ entries, v ≠ .mapping entries) (n : String) :
    v.indexValue (.string n) = v.propertyValue n := by
  cases v with
  | mapping entries => exact absurd rfl (h entries)
  | undefined | null | bool | int | float | string | list | tuple | object => rfl

/-- The value has an attribute of the name that templates do not see: a private one, or a method.
    A length is no attribute, and nothing has none. -/
def Hides (v : Value) (n : String) : Prop :=
  v ≠ .undefined ∧ v ≠ .null ∧ (n = "length" → v.length? = none) ∧
    (n.startsWith "_" = true ∨ v.attributeAt n = .method)

/-- An attribute is read unless it is private or a method, or the value fails. -/
theorem readAttribute_eq_error_iff {fault : PropertyFault} : v.readAttribute n = .error fault ↔
    n.startsWith "_" = true ∧ fault = .isPrivate n ∨
    n.startsWith "_" = false ∧ v.attributeAt n = .method ∧ fault = .isCallable n ∨
    ∃ e, n.startsWith "_" = false ∧ v.attributeAt n = .failing e ∧ fault = .hostFailed e := by
  unfold readAttribute
  cases hprivate : n.startsWith "_" with
  | true => simp [eq_comm]
  | false => cases hattribute : v.attributeAt n <;> simp [eq_comm]

/-- What has a length answers with it, and everything else with an attribute. -/
theorem property_plain (hundefined : v ≠ .undefined) (hnull : v ≠ .null)
    (hmapping : ∀ entries, v ≠ .mapping entries) (n : String) : v.property n
      = match if n = "length" then v.length? else none with
        | some (.ok count) => .ok (.int count)
        | some (.error e) => .error (.hostFailed e)
        | none => v.readAttribute n := by
  cases v with
  | undefined => exact absurd rfl hundefined
  | null => exact absurd rfl hnull
  | mapping entries => exact absurd rfl (hmapping entries)
  | bool | int | float | string | list | tuple | object => rfl

/-- A point with the name of a hidden attribute fails with one of two faults, and these faults mean
    nothing else. -/
theorem property_hides_iff (h : ∀ entries, v ≠ .mapping entries) (n : String) :
    v.Hides n ↔ v.property n = .error (.isPrivate n) ∨ v.property n = .error (.isCallable n) := by
  by_cases hundefined : v = .undefined
  · subst hundefined
    simp [Hides, property]
  by_cases hnull : v = .null
  · subst hnull
    simp [Hides, property]
  have hlength : (n = "length" → v.length? = none) ↔
      (if n = "length" then v.length? else none) = none := by
    by_cases hn : n = "length" <;> simp [hn]
  rw [property_plain hundefined hnull h, Hides, hlength]
  cases (if n = "length" then v.length? else none) with
  | some answer => cases answer <;> simp
  | none =>
    simp only [readAttribute_eq_error_iff]
    cases n.startsWith "_" <;> simp [hundefined, hnull]

/-- The same of an index with the name. -/
theorem indexValue_hides_iff (h : ∀ entries, v ≠ .mapping entries) (n : String) :
    v.Hides n ↔ v.indexValue (.string n) = .error (.property (.isPrivate n)) ∨
      v.indexValue (.string n) = .error (.property (.isCallable n)) := by
  rw [indexValue_string h, property_hides_iff h, propertyValue]
  cases v.property n with
  | error denied =>
    show _ ↔ Except.error (EvalFault.property denied) = _ ∨
      Except.error (EvalFault.property denied) = _
    simp only [Except.error.injEq, EvalFault.property.injEq]
  | ok value => exact ⟨nofun, nofun⟩

/-! ### Mappings -/

/-- A mapping answers a point with its entry, or with the number of its keys. -/
theorem propertyValue_mapping (entries : List (Value × Value)) (n : String) :
    (Value.mapping entries).propertyValue n = match find? entries (.string n) with
      | some v => .ok v
      | none => .ok (if n = "length" then .int entries.length else .undefined) := by
  rw [propertyValue, property]
  cases find? entries (.string n) <;> rfl

/-- A mapping answers an index with its entry. -/
theorem indexValue_mapping (entries : List (Value × Value)) (n : String) :
    (Value.mapping entries).indexValue (.string n)
      = .ok ((find? entries (.string n)).getD .undefined) := rfl

/-- The value is a mapping with these entries, of which none has the name as its key, and the name
    asks how many there are. -/
def CountsKeys (v : Value) (n : String) (entries : List (Value × Value)) : Prop :=
  v = .mapping entries ∧ n = "length" ∧ find? entries (.string n) = none

theorem CountsKeys.propertyValue_eq (h : v.CountsKeys n entries) :
    v.propertyValue n = .ok (.int entries.length) := by
  obtain ⟨rfl, rfl, hnone⟩ := h
  rw [propertyValue_mapping, hnone]
  rfl

theorem CountsKeys.indexValue_eq (h : v.CountsKeys n entries) :
    v.indexValue (.string n) = .ok .undefined := by
  obtain ⟨rfl, rfl, hnone⟩ := h
  rw [indexValue_mapping, hnone]
  rfl

/-- A point and an index differ only where keys are counted. -/
theorem propertyValue_eq_indexValue_iff (v : Value) (n : String) :
    v.propertyValue n = v.indexValue (.string n) ↔ ¬ ∃ entries, v.CountsKeys n entries := by
  constructor
  · rintro h ⟨entries, hcounts⟩
    rw [hcounts.propertyValue_eq, hcounts.indexValue_eq] at h
    cases h
  · intro h
    -- A mapping is asked for its entry in both ways, and every other value for its property.
    by_cases hmapping : ∃ entries, v = .mapping entries
    · obtain ⟨entries, rfl⟩ := hmapping
      rw [propertyValue_mapping, indexValue_mapping]
      cases hfound : find? entries (.string n) with
      | some value => rfl
      | none =>
        have hlength : n ≠ "length" := fun hn => h ⟨entries, rfl, hn, hfound⟩
        rw [if_neg hlength]
        rfl
    · rw [indexValue_string (not_exists.1 hmapping)]

end Value

namespace Expr

/-- Access by a point and by an index with the name as a text have the same outcome, except only for
    the length of a mapping that has no such key: the point gives the number of keys, the index
    `undefined`.  Of a value that is no mapping both hide the same attributes. -/
theorem property_index_alike (scope : Scope) (target : Expr) (n : String) :
    eval scope 0 (.property target n) = eval scope 0 (.index target (.literal (.string n))) ∧
    (∀ depth,
      (eval scope (depth + 1) (.property target n)
          = eval scope (depth + 1) (.index target (.literal (.string n))) ↔
        ¬ ∃ v entries, eval scope depth target = .ok v ∧ v.CountsKeys n entries) ∧
      ∀ v entries, eval scope depth target = .ok v → v.CountsKeys n entries →
        eval scope (depth + 1) (.property target n) = .ok (.int entries.length) ∧
        eval scope (depth + 1) (.index target (.literal (.string n))) = .ok .undefined) ∧
    ∀ v : Value, (∀ entries, v ≠ .mapping entries) →
      v.propertyValue n = v.indexValue (.string n) ∧
      (v.Hides n ↔ v.indexValue (.string n) = .error (.property (.isPrivate n)) ∨
        v.indexValue (.string n) = .error (.property (.isCallable n))) := by
  have hproperty : ∀ depth, eval scope (depth + 1) (.property target n)
      = eval scope depth target >>= fun v => v.propertyValue n := fun depth => by rw [eval]
  have hindex : ∀ depth, eval scope (depth + 1) (.index target (.literal (.string n)))
      = eval scope depth target >>= fun v => v.indexValue (.string n) := by
    intro depth
    rw [eval]
    simp only [eval]
    rfl
  refine ⟨rfl, fun depth => ⟨?_, ?_⟩, fun v hv => ?_⟩
  · rw [hproperty, hindex]
    cases eval scope depth target with
    | error fault => exact iff_of_true rfl nofun
    | ok v =>
      refine (Value.propertyValue_eq_indexValue_iff v n).trans (not_congr ?_)
      constructor
      · rintro ⟨entries, hcounts⟩
        exact ⟨v, entries, rfl, hcounts⟩
      · rintro ⟨v', entries, hv, hcounts⟩
        cases hv
        exact ⟨entries, hcounts⟩
  · intro v entries hv hcounts
    rw [hproperty, hindex, hv]
    exact ⟨hcounts.propertyValue_eq, hcounts.indexValue_eq⟩
  · exact ⟨(Value.indexValue_string hv n).symm, Value.indexValue_hides_iff hv n⟩

/-- A mapping with two keys, neither of which is `length`. -/
def twoKeys : List (Value × Value) := [(.string "a", .int 7), (.string "_b", .null)]

/-- The scope in which `m` is that mapping. -/
def twoKeysScope : Scope := .ofPairs [("m", .mapping twoKeys)]

theorem twoKeys_length : (Value.mapping twoKeys).CountsKeys "length" twoKeys ∧
    eval twoKeysScope 1 (.property (.name "m") "length") = .ok (.int 2) ∧
    eval twoKeysScope 1 (.index (.name "m") (.literal (.string "length"))) = .ok .undefined ∧
    (Value.string "text").propertyValue "length" = (Value.string "text").indexValue
      (.string "length") := by
  have hcounts : (Value.mapping twoKeys).CountsKeys "length" twoKeys := ⟨rfl, rfl, rfl⟩
  obtain ⟨-, hmapping, hother⟩ := property_index_alike twoKeysScope (.name "m") "length"
  obtain ⟨hproperty, hindex⟩ := (hmapping 0).2 (.mapping twoKeys) twoKeys rfl hcounts
  exact ⟨hcounts, hproperty, hindex, (hother (.string "text") nofun).1⟩

end Expr

end TextTemplate
