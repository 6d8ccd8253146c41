import TextTemplate.Data.Read

/-! # What data files hold

  Only an object gives a mapping, since no word is one (`isPlain_of_value?`), and
  the tokens of a file make up one node in the end (`isPlain_of_ofTokens`).  So the
  keys of a mapping that is read are texts, each of which is there once
  (`namesOnce_json`).
-/

namespace TextTemplate.Data

/-! ### Scalars -/

/-- Is the value no mapping? -/
def isPlain : Value → Bool
  | .mapping _ => false
  | _ => true

theorem isPlain_of_number? {negative : Bool} {s : List Char} {v : Value}
    (h : Word.number? negative s = some (.ok v)) : isPlain v = true := by
  unfold Word.number? at h
  dsimp only at h
  split at h
  · cases h
  · split at h
    · have hread := Option.some.inj h
      cases hdigits : Numeral.read (Word.digits s).1 with
      | ok n =>
        rw [hdigits] at hread
        obtain rfl := Except.ok.inj hread
        rfl
      | error fault =>
        rw [hdigits] at hread
        cases hread
    · obtain rfl := Except.ok.inj (Option.some.inj h)
      rfl

theorem isPlain_of_value? {word : List Char} {v : Value}
    (h : Word.value? word = some (.ok v)) : isPlain v = true := by
  unfold Word.value? at h
  split at h
  · obtain rfl := Except.ok.inj (Option.some.inj h)
    rfl
  · obtain rfl := Except.ok.inj (Option.some.inj h)
    rfl
  · obtain rfl := Except.ok.inj (Option.some.inj h)
    rfl
  · exact isPlain_of_number? h
  · exact isPlain_of_number? h

/-! ### Nodes -/

/-- A node that is a scalar is no mapping. -/
def Node.IsPlain : Node → Prop
  | .scalar value => ∀ v, value = .ok v → isPlain v = true
  | _ => True

theorem isPlain_of_put {node made : Node} {frames : List Frame}
    (h : Node.put node frames = .ok (.done made)) (hnode : node.IsPlain) : made.IsPlain := by
  unfold Node.put at h
  split at h
  · cases h
    exact hnode
  all_goals cases h

theorem not_done_of_openFrame {made : Node} {frame : Frame} {frames : List Frame} :
    Node.openFrame frame frames ≠ .ok (.done made) := by
  unfold Node.openFrame
  split
  · split <;> nofun
  · split <;> nofun
  · split <;> nofun
  · nofun

/-- What is complete with a token is no scalar mapping. -/
theorem isPlain_of_step {made : Node} {frames : List Frame} {t : Token}
    (h : Node.step frames t = .ok (.done made)) : made.IsPlain := by
  unfold Node.step at h
  split at h
  · cases h
  · exact absurd h not_done_of_openFrame
  · exact absurd h not_done_of_openFrame
  -- What closes a list or an object makes a node of it.
  · exact isPlain_of_put h trivial
  · exact isPlain_of_put h trivial
  · exact isPlain_of_put h trivial
  · exact isPlain_of_put h trivial
  · cases h
  · cases h
  · split at h <;> cases h
  · cases h
  · refine isPlain_of_put h fun v hv => ?_
    obtain rfl := Except.ok.inj hv
    rfl
  · split at h
    · next value hvalue =>
      refine isPlain_of_put h fun v hv => ?_
      rw [hv] at hvalue
      exact isPlain_of_value? hvalue
    · cases h
  · cases h

/-- The node that the tokens of a file make up is no scalar mapping. -/
theorem isPlain_of_ofTokens {frames : List Frame} {tokens : List Token} {node : Node}
    (h : Node.ofTokens (.within frames) tokens = .ok node) : node.IsPlain := by
  induction tokens generalizing frames with
  | nil => cases h
  | cons t rest ih =>
    rw [Node.ofTokens] at h
    cases hstep : Node.step frames t with
    | error fault =>
      rw [hstep] at h
      cases h
    | ok progress =>
      rw [hstep] at h
      cases progress with
      | within frames' => exact ih h
      | done made =>
        cases rest with
        | nil =>
          obtain rfl := Except.ok.inj h
          exact isPlain_of_step hstep
        | cons t' rest' => cases h

/-! ### Objects -/

/-- The keys of an object are its names. -/
theorem entryValues_eq {known : List String} {entries : List (String × Node)}
    {found : List (Value × Value)} (h : entryValues known entries = .ok found) :
    ∃ named : List (String × Value), found = named.map (fun v => (.string v.1, v.2)) ∧
      named.map (·.1) = entries.map (·.1) := by
  induction entries generalizing known found with
  | nil =>
    rw [entryValues] at h
    obtain rfl := Except.ok.inj h
    exact ⟨[], rfl, rfl⟩
  | cons entry rest ih =>
    obtain ⟨name, node⟩ := entry
    rw [entryValues] at h
    cases hv : node.value with
    | error fault => simp [hv, bind, Except.bind] at h
    | ok v =>
      by_cases hknown : name ∈ known
      · simp [hv, hknown, bind, Except.bind, throw, throwThe, MonadExceptOf.throw] at h
      · cases hrest : entryValues (name :: known) rest with
        | error fault => simp [hv, hknown, hrest, bind, Except.bind] at h
        | ok others =>
          obtain ⟨named, rfl, hnames⟩ := ih hrest
          refine ⟨(name, v) :: named, ?_, congrArg (name :: ·) hnames⟩
          simpa [hv, hknown, hrest, bind, Except.bind, pure, Except.pure] using h.symm

/-- A mapping that is read has texts as its keys, each of them once. -/
theorem named_of_read {text : String} {entries : List (Value × Value)}
    (h : read text = .ok (.mapping entries)) :
    ∃ named : List (String × Value), entries = named.map (fun v => (.string v.1, v.2)) ∧
      (named.map (·.1)).Nodup := by
  unfold read at h
  split at h
  · split at h
    · cases h
    · cases hnode : Node.ofTokens (.within []) (Token.scan (dropMark text.toList)) with
      | error fault =>
        rw [hnode] at h
        cases h
      | ok node =>
        rw [hnode] at h
        have hvalue : node.value = .ok (.mapping entries) := h
        have hplain := isPlain_of_ofTokens hnode
        -- A scalar is no mapping and a list is a list, so the node is an object.
        cases node with
        | scalar value =>
          cases value with
          | ok v =>
            obtain rfl : v = .mapping entries := by simpa [Node.value] using hvalue
            cases hplain _ rfl
          | error fault =>
            cases fault
            simp [Node.value] at hvalue
        | list items =>
          rw [Node.value] at hvalue
          cases hitems : itemValues items <;> simp [hitems, Except.map] at hvalue
        | object parts =>
          rw [Node.value] at hvalue
          cases hparts : entryValues [] parts with
          | error fault => simp [hparts, Except.map] at hvalue
          | ok found =>
            obtain rfl : found = entries := by simpa [hparts, Except.map] using hvalue
            obtain ⟨named, rfl, hnames⟩ := entryValues_eq hparts
            refine ⟨named, rfl, ?_⟩
            rw [hnames]
            exact (nodup_names_of_entryValues hparts).1
  · cases h

/-- The names of entries whose keys are texts. -/
theorem named_map (pairs : List (String × Value)) :
    named (pairs.map fun v => (.string v.1, v.2)) = pairs := by
  unfold named
  rw [List.filterMap_map]
  exact List.filterMap_some

theorem namesOnce_json : Reader.NamesOnce json := by
  intro text entries h
  unfold json at h
  cases hread : read text with
  | error fault =>
    rw [hread] at h
    cases h
  | ok data =>
    rw [hread] at h
    obtain rfl : data = .mapping entries := Except.ok.inj h
    obtain ⟨pairs, rfl, hnodup⟩ := named_of_read hread
    rwa [named_map]

end TextTemplate.Data
