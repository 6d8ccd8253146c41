import TextTemplate.Value.Basic

/-! # Readers of data files

  Settings and variables are kept in files, and a reader makes a value of the text
  of such a file.  Which texts it takes and what they mean is the reader's own
  matter.  A program that is given one only tells the reader's errors about a text
  from whatever else may go wrong in it.
-/

namespace TextTemplate.Data

/-- Why a reader gives no value. -/
inductive ReadFault where
  /-- The text is malformed: the class of the reader's error about it, and its words. -/
  | malformed (className message : String)
  /-- Reading raises an exception of this class, which is none of the reader's errors. -/
  | raised (className : String)
  deriving Repr, DecidableEq

/-- A reader of data files: the value of a text. -/
abbrev Reader := String → Except ReadFault Value

/-- The keys that are texts, with their values. -/
def named (entries : List (Value × Value)) : List (String × Value) :=
  entries.filterMap fun
    | (.string name, v) => some (name, v)
    | _ => none

/-- No mapping that the reader gives has a name twice. -/
def Reader.NamesOnce (reader : Reader) : Prop :=
  ∀ (text : String) (entries : List (Value × Value)), reader text = .ok (.mapping entries) →
    ((named entries).map (·.1)).Nodup

end TextTemplate.Data
