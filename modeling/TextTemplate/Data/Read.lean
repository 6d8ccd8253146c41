import TextTemplate.Data.Node
import TextTemplate.Data.Reader
import TextTemplate.Value.Equality

/-! # Values from JSON texts

  A reader of data files that takes JSON texts.  A text without any data means
  `null`.

  Of several faults the one told is that of the characters, then that of the
  tokens and their arrangement, then that of the names and numbers, in the order
  of the text.  So where a value is given, no object in it has a name twice.
-/

namespace TextTemplate.Data

mutual

/-- The value of a node. -/
def Node.value : Node → Except Fault Value
  | .scalar (.ok v) => .ok v
  | .scalar (.error .tooManyDigits) => .error .tooManyDigits
  | .list items => (itemValues items).map .list
  | .object entries => (entryValues [] entries).map .mapping

/-- The values of a list's items. -/
def itemValues : List Node → Except Fault (List Value)
  | [] => .ok []
  | node :: rest => do return (← node.value) :: (← itemValues rest)

/-- The keys and values of an object's entries that follow those with the names `known`. -/
def entryValues (known : List String) :
    List (String × Node) → Except Fault (List (Value × Value))
  | [] => .ok []
  | (name, node) :: rest => do
    let v ← node.value
    if known.contains name then throw (.malformed .repeatedName)
    return (.string name, v) :: (← entryValues (name :: known) rest)

end

/-- Entries that give values have names that differ from each other and from the known ones. -/
theorem nodup_names_of_entryValues {known : List String} {entries : List (String × Node)}
    {found : List (Value × Value)} (h : entryValues known entries = .ok found) :
    (entries.map (·.1)).Nodup ∧ ∀ name ∈ entries.map (·.1), name ∉ known := by
  induction entries generalizing known found with
  | nil => simp
  | cons entry rest ih =>
    obtain ⟨name, node⟩ := entry
    rw [entryValues] at h
    cases hv : node.value with
    | error fault => simp [hv, bind, Except.bind] at h
    | ok v =>
      by_cases hknown : name ∈ known
      · simp [hv, hknown, bind, Except.bind, throw, throwThe, MonadExceptOf.throw] at h
      · cases hrest : entryValues (name :: known) rest with
        | error fault => simp [hv, hknown, hrest, bind, Except.bind] at h
        | ok others =>
          obtain ⟨hnodup, hnew⟩ := ih hrest
          have hname : name ∉ rest.map (·.1) := fun hmem => hnew name hmem List.mem_cons_self
          refine ⟨List.nodup_cons.2 ⟨hname, hnodup⟩, fun other hmem => ?_⟩
          rcases List.mem_cons.1 hmem with rfl | hother
          · exact hknown
          · exact fun hold => hnew other hother (List.mem_cons_of_mem _ hold)

/-- A text without the byte order mark in front of it. -/
def dropMark : List Char → List Char
  | '\uFEFF' :: rest => rest
  | s => s

/-- The value that a whole text gives. -/
def read (text : String) : Except Fault Value :=
  if text.toList.all isAllowed then
    match Token.scan (dropMark text.toList) with
    | [] => .ok .null
    | tokens => do (← Node.ofTokens (.within []) tokens).value
  else .error (.malformed .unprintable)

/-- The fault as one of a reader. -/
def Fault.readFault : Fault → ReadFault
  | .malformed m => .malformed m.className m.message
  | .tooDeep => .raised "RecursionError"
  | .tooManyDigits => .raised "ValueError"

/-- The reader of JSON texts. -/
def json : Reader := fun text => (read text).mapError Fault.readFault

end TextTemplate.Data
