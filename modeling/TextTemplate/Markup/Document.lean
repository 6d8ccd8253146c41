import TextTemplate.Markup.Directive
import TextTemplate.Markup.Node

/-! # From a text to a tree

  Tags open and close sequences of nodes.  A builder takes one token after the
  other; it holds the sequence that is being filled and a frame for each open
  directive around it.  At most `maxNesting` frames are open at once.

  A block is registered under its name when its tag is read, and its body is
  filled until the block is closed.  Blocks are numbered in the order in which
  they are opened, and the register holds their numbers.

  What is doubtful but allowed is reported as a remark: an unknown directive
  that is ignored, a block name that is used again, a second ancestor.
-/

namespace TextTemplate.Markup

/-! ### Rules -/

/-- What a second block of one name is. -/
inductive Duplicates where
  /-- The block that counts from then on. -/
  | last
  /-- An error. -/
  | error
  deriving Repr, DecidableEq

def Duplicates.text : Duplicates → String
  | .last => "last"
  | .error => "error"

/-- The names of the policies, as messages list them. -/
def Duplicates.names : String := ", ".intercalate ([last, error].map text)

/-- The policy of a name. -/
def Duplicates.ofText? (name : String) : Option Duplicates := [last, error].find? (·.text == name)

/-- What the message about a name of no policy says. -/
def Duplicates.unknownText (name : String) : String :=
  "Unknown duplicate_blocks policy '" ++ name ++ "'. Expected one of: " ++ names

/-- How strictly a text is read. -/
structure Rules where
  /-- Are unknown directives errors? -/
  strict : Bool
  duplicates : Duplicates
  deriving Repr, DecidableEq

/-- The most lenient rules. -/
def Rules.default : Rules := ⟨false, .last⟩

/-! ### Results -/

/-- A template's text, read. -/
structure Document where
  root : List Node
  blocks : Blocks
  /-- The name of the template that this one extends. -/
  parent? : Option String

/-- What is doubtful about a text. -/
inductive Remark where
  | unknownDirective (keyword : String) (location : Location)
  | blockRedefined (name : String) (location : Location)
  | parentReplaced (old new : String)
  deriving Repr, DecidableEq

/-- The text of a remark about the named template. -/
def Remark.message (template : String) : Remark → String
  | .unknownDirective keyword l =>
    "Ignoring unknown directive '" ++ keyword ++ "' at " ++ l.text ++
      (if template.isEmpty then "" else " in template " ++ Text.quote template)
  | .blockRedefined name l =>
    "Block '" ++ name ++ "' redefined at " ++ l.text ++ "; lookups will use the last definition"
  | .parentReplaced old new =>
    "Template extends both '" ++ old ++ "' and '" ++ new ++ "'; using '" ++ new ++ "'"

/-! ### Frames -/

/-- The node that a frame becomes when it is closed. -/
inductive Header where
  | branch (place : Branch) (condition? : Option String)
  | loop (name source : String)
  | block (name : String)
  deriving Repr, DecidableEq

/-- The node with this header and a body. -/
def Header.node (body : List Node) : Header → Node
  | .branch place condition? => .branch place condition? body
  | .loop name source => .loop name source body
  | .block name => .block name body

/-- What the frame is called while it is open. -/
def Header.kind : Header → FrameKind
  | .branch .otherwise _ => .otherwise
  | .branch _ _ => .branch
  | .loop _ _ => .loop
  | .block _ => .block

/-- An open directive. -/
structure Frame where
  header : Header
  /-- Where its tag stands. -/
  location : Location
  /-- The nodes before it in the sequence around it, the last one first. -/
  before : List Node
  /-- How many blocks had been opened before it: the number of the block if it opens one. -/
  number : Nat

/-- What has been read of a text. -/
structure Builder where
  /-- The open directives, the innermost first. -/
  frames : List Frame
  /-- The nodes of the innermost sequence, the last one first. -/
  nodes : List Node
  /-- The number of the block that counts for each name. -/
  numbers : List (String × Nat)
  /-- The bodies of the blocks by their numbers; an open block has none of its nodes yet. -/
  bodies : List (List Node)
  parent? : Option String

namespace Builder

/-- Nothing has been read. -/
def empty : Builder := ⟨[], [], [], [], none⟩

/-- Adds a node to the innermost sequence. -/
def add (b : Builder) (node : Node) : Builder := { b with nodes := node :: b.nodes }

/-- Registers a new block, which counts for its name from now on. -/
def register (b : Builder) (name : String) : Builder :=
  { b with
    numbers := Pairs.put b.numbers (name, b.bodies.length)
    bodies := b.bodies ++ [[]] }

/-- The builder with one more frame.  A block is registered. -/
def enter (b : Builder) (header : Header) (location : Location) : Builder :=
  let inside : Builder := { b with
    frames := ⟨header, location, b.nodes, b.bodies.length⟩ :: b.frames
    nodes := [] }
  match header with
  | .block name => inside.register name
  | _ => inside

/-- Opens a directive. -/
def open_ (b : Builder) (header : Header) (location : Location) : Except Cause Builder :=
  if b.frames.length < maxNesting then .ok (b.enter header location) else .error .tooDeep

/-- The builder without its innermost frame, which becomes a node.  A block gets its body. -/
def leave (b : Builder) (f : Frame) (outer : List Frame) : Builder :=
  let body := b.nodes.reverse
  { b with
    frames := outer
    nodes := f.header.node body :: f.before
    bodies := match f.header with
      | .block _ => b.bodies.set f.number body
      | _ => b.bodies }

/-- Closes the innermost directive, which has to be of one of the given kinds. -/
def close (b : Builder) (closer : Closer) (kinds : List FrameKind) :
    Except Cause (Header × Builder) :=
  match b.frames with
  | [] => .error (.nothingOpen closer)
  | f :: outer =>
    if f.header.kind ∈ kinds then .ok (f.header, b.leave f outer)
    else .error (.cannotClose closer f.header.kind)

/-- Closes a branch and opens the next one of its conditional. -/
def branch (b : Builder) (closer : Closer) (header : Header) (location : Location) :
    Except Cause Builder := do
  let (closed, b) ← b.close closer [.branch, .otherwise]
  if closed.kind = .otherwise then throw (.afterElse closer)
  b.open_ header location

/-- The blocks by name, as far as they have been read. -/
def blocks (b : Builder) : Blocks :=
  b.numbers.map fun entry => (entry.1, b.bodies[entry.2]?.getD [])

/-- Opens a block.  A second block of one name is an error or doubtful. -/
def openBlock (rules : Rules) (b : Builder) (name : String) (location : Location) :
    List Remark × Except Cause Builder :=
  let again := b.numbers.any (·.1 == name)
  if again && rules.duplicates == .error then ([], .error (.duplicateBlock name))
  else
    (if again then [.blockRedefined name location] else [],
      b.open_ (.block name) location)

/-- Takes the name of the ancestor.  Another name given before is replaced, which is doubtful. -/
def extend (b : Builder) (name : String) : List Remark × Builder :=
  (match b.parent? with
    | some old => if old = name then [] else [.parentReplaced old name]
    | none => [],
    { b with parent? := some name })

/-- Takes a directive. -/
def directive (rules : Rules) (b : Builder) (d : Directive) (location : Location) :
    List Remark × Except Cause Builder :=
  match d with
  | .startIf condition => ([], b.open_ (.branch .first (some condition)) location)
  | .elseIf condition => ([], b.branch .elseIf (.branch .next (some condition)) location)
  | .otherwise => ([], b.branch .otherwise (.branch .otherwise none) location)
  | .endIf => ([], (b.close .endIf [.branch, .otherwise]).map (·.2))
  | .startFor name source => ([], b.open_ (.loop name source) location)
  | .endFor => ([], (b.close .endFor [.loop]).map (·.2))
  | .startBlock name => b.openBlock rules name location
  | .endBlock name? => ([], do
    match ← b.close .endBlock [.block] with
    | (.block opened, b) =>
      match name? with
      | some given => if given = opened then return b else throw (.nameMismatch given opened)
      | none => return b
    | (_, b) => return b)
  | .extends_ name => let (remarks, b) := b.extend name; (remarks, .ok b)
  | .unknown keyword =>
    if rules.strict then ([], .error (.unknownDirective keyword))
    else ([.unknownDirective keyword location], .ok b)

/-- Takes a token. -/
def token (rules : Rules) (b : Builder) (t : Token) : List Remark × Except Fault Builder :=
  match t.kind with
  | .text => ([], .ok (b.add (.text t.value)))
  | .tag .output => ([], .ok (b.add (.output t.value)))
  | .tag .directive =>
    match Directive.read t.value with
    | .error cause => ([], .error ⟨cause, t.location⟩)
    | .ok d =>
      let (remarks, result) := b.directive rules d t.location
      (remarks, result.mapError (⟨·, t.location⟩))

/-- Takes tokens, up to the first at fault. -/
def tokens (rules : Rules) (b : Builder) : List Token → List Remark × Except Fault Builder
  | [] => ([], .ok b)
  | t :: rest =>
    match b.token rules t with
    | (remarks, .error fault) => (remarks, .error fault)
    | (remarks, .ok b) =>
      let (more, result) := tokens rules b rest
      (remarks ++ more, result)

/-- The finished document; every directive has to be closed. -/
def finish (b : Builder) : Except Fault Document :=
  match b.frames with
  | f :: _ => .error ⟨.unclosed f.header.kind, f.location⟩
  | [] => .ok ⟨b.nodes.reverse, b.blocks, b.parent?⟩

end Builder

/-! ### Reading a text -/

/-- The outcome of reading a text, with what is doubtful about the part that was read. -/
structure Reading where
  remarks : List Remark
  result : Except Fault Document

namespace Document

/-- The document that tokens make up. -/
def ofTokens (rules : Rules) (tokens : List Token) : Reading :=
  let (remarks, result) := Builder.empty.tokens rules tokens
  ⟨remarks, result.bind Builder.finish⟩

/-- The document that a text writes. -/
def read (rules : Rules) (text : String) : Reading :=
  match Token.scan text with
  | .error fault => ⟨[], .error fault⟩
  | .ok tokens => ofTokens rules tokens

end Document

end TextTemplate.Markup
