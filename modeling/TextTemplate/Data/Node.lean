import TextTemplate.Data.Fault
import TextTemplate.Data.Token
import TextTemplate.Data.Word

/-! # Trees of data files

  The tokens of a data file are taken one after the other into the innermost
  list or object that is open; what closes it makes it a part of the next one.
  A comma may follow the last part.

  The colon behind a name stands in the name's line, and not far from it.
-/

namespace TextTemplate.Data

/-- What a data file says, before its numbers and names are checked. -/
inductive Node where
  | scalar (value : Except TooManyDigits Value)
  | list (items : List Node)
  | object (entries : List (String × Node))

/-- A list or an object that is open, with the parts that it has so far, the last one first. -/
inductive Frame where
  /-- An item or the end comes next. -/
  | list (items : List Node)
  /-- A comma or the end comes next. -/
  | listItem (items : List Node)
  /-- A name or the end comes next. -/
  | object (entries : List (String × Node))
  /-- The colon behind a name comes next. -/
  | name (entries : List (String × Node)) (name : String) (place : Place)
  /-- The value of a name comes next. -/
  | colon (entries : List (String × Node)) (name : String)
  /-- A comma or the end comes next. -/
  | entry (entries : List (String × Node))

/-- What has been read of a data file. -/
inductive Progress where
  /-- The lists and objects that are open, the innermost first.  If there is none, nothing has been
      read. -/
  | within (frames : List Frame)
  /-- All of it. -/
  | done (node : Node)

namespace Node

/-- How deep lists and objects may be nested. -/
def maxDepth : Nat := 480

/-- How many characters after its start a name's colon may stand at most. -/
def maxNameSize : Nat := 1024

/-- Is the colon at the second place that of a name at the first one? -/
def colonFits (name colon : Place) : Bool :=
  name.line == colon.line && colon.position ≤ name.position + maxNameSize

/-- Takes a node where a value comes next. -/
def put (node : Node) : List Frame → Except Fault Progress
  | [] => .ok (.done node)
  | .list items :: outer => .ok (.within (.listItem (node :: items) :: outer))
  | .colon entries name :: outer => .ok (.within (.entry ((name, node) :: entries) :: outer))
  | _ => .error (.malformed .misplaced)

/-- Opens a list or an object where a value comes next. -/
def openFrame (frame : Frame) (frames : List Frame) : Except Fault Progress :=
  match frames with
  | [] | .list _ :: _ | .colon _ _ :: _ =>
    if frames.length < maxDepth then .ok (.within (frame :: frames)) else .error .tooDeep
  | _ => .error (.malformed .misplaced)

/-- Takes a token. -/
def step (frames : List Frame) (t : Token) : Except Fault Progress :=
  match t.piece, frames with
  | .nothing, _ => .error (.malformed .noToken)
  | .openList, _ => openFrame (.list []) frames
  | .openObject, _ => openFrame (.object []) frames
  | .closeList, .list items :: outer | .closeList, .listItem items :: outer =>
    put (.list items.reverse) outer
  | .closeObject, .object entries :: outer | .closeObject, .entry entries :: outer =>
    put (.object entries.reverse) outer
  | .comma, .listItem items :: outer => .ok (.within (.list items :: outer))
  | .comma, .entry entries :: outer => .ok (.within (.object entries :: outer))
  | .colon, .name entries name place :: outer =>
    if colonFits place t.place then .ok (.within (.colon entries name :: outer))
    else .error (.malformed .misplaced)
  | .text s, .object entries :: outer => .ok (.within (.name entries s t.place :: outer))
  | .text s, _ => put (.scalar (.ok (.string s))) frames
  | .word s, _ => match Word.value? s with
    | some value => put (.scalar value) frames
    | none => .error (.malformed .misplaced)
  | _, _ => .error (.malformed .misplaced)

/-- The node that the rest of the tokens completes. -/
def ofTokens : Progress → List Token → Except Fault Node
  | .done node, [] => .ok node
  | .done _, t :: _ => .error (.malformed (if t.piece = .nothing then .noToken else .misplaced))
  | .within _, [] => .error (.malformed .misplaced)
  | .within frames, t :: rest => do ofTokens (← step frames t) rest

end Node

end TextTemplate.Data
