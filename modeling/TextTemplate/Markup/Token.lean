import TextTemplate.Markup.Fault
import TextTemplate.Text.Blank
import TextTemplate.Text.Search

/-! # Tokens of a template

  A template's text is plain text with tags in it: `{{ … }}` writes a value,
  `{% … %}` is a directive.  `Token.tokenize` cuts a text into plain
  stretches and tags.  The nearest opening marker starts a tag, and the nearest
  closing marker of its kind after the opening one ends it, whatever stands
  between them.

  Lines and columns are counted on the way.  One counter goes through the text
  once, from each place that is asked for to the next one.
-/

namespace TextTemplate.Markup

/-- What a token is. -/
inductive TokenKind where
  /-- A stretch of plain text. -/
  | text
  | tag (kind : TagKind)
  deriving Repr, DecidableEq

/-- The name of a kind of token, as a description of it shows it. -/
def TokenKind.className : TokenKind → String
  | .text => "TEXT"
  | .tag .output => "VARIABLE"
  | .tag .directive => "DIRECTIVE"

/-- A token with the place where it starts. -/
structure Token where
  kind : TokenKind
  /-- The plain text as it is, or a tag's content without its markers and the blanks around it. -/
  value : String
  position : Nat
  location : Location
  deriving Repr, DecidableEq

/-- The end of a text. -/
structure EndToken where
  position : Nat
  location : Location
  deriving Repr, DecidableEq

/-! ### Lines and columns -/

/-- How far a text has been gone through, in which line that is, and where this line starts. -/
structure Counter where
  line : Nat
  lineStart : Nat
  countedTo : Nat
  /-- The text from there on. -/
  ahead : List Char

namespace Counter

/-- Nothing of a text has been gone through yet. -/
def start (text : List Char) : Counter := ⟨1, 0, 0, text⟩

/-- Goes past a character. -/
def pass (k : Counter) : Counter :=
  match k.ahead with
  | [] => k
  | c :: rest =>
    if c = '\n' then ⟨k.line + 1, k.countedTo + 1, k.countedTo + 1, rest⟩
    else ⟨k.line, k.lineStart, k.countedTo + 1, rest⟩

/-- Goes past so many characters. -/
def advance (k : Counter) : (steps : Nat) → Counter
  | 0 => k
  | steps + 1 => k.pass.advance steps

/-- Goes on to a position, unless it has come so far already. -/
def goOn (k : Counter) (position : Nat) : Counter := k.advance (position - k.countedTo)

/-- The place of a position in the line that the counter is in. -/
def place (k : Counter) (position : Nat) : Location := ⟨k.line, position - k.lineStart + 1⟩

end Counter

namespace Token

/-! ### The next tag -/

/-- The plain text before the first opening marker, the kind of tag that it opens, and the text
    after the marker. -/
def cutAtOpening : List Char → Option (List Char × TagKind × List Char)
  | '{' :: '{' :: rest => some ([], .output, rest)
  | '{' :: '%' :: rest => some ([], .directive, rest)
  | c :: rest => (cutAtOpening rest).map fun cut => (c :: cut.1, cut.2)
  | [] => none

/-- The two characters of a tag's opening marker. -/
def opening : TagKind → List Char
  | .output => ['{', '{']
  | .directive => ['{', '%']

/-- The two characters of a tag's closing marker. -/
def closing : TagKind → List Char
  | .output => ['}', '}']
  | .directive => ['%', '}']

/-- A tag's content, and the text after its closing marker. -/
def cutAtClosing : TagKind → List Char → Option (List Char × List Char)
  | .output => Text.cutAt '}' '}'
  | .directive => Text.cutAt '%' '}'

/-- A cut at an opening marker loses nothing but the marker. -/
theorem append_of_cutAtOpening {s before after : List Char} {kind : TagKind}
    (h : cutAtOpening s = some (before, kind, after)) : s = before ++ opening kind ++ after := by
  fun_induction cutAtOpening s generalizing before with
  | case1 rest => cases h; rfl
  | case2 rest => cases h; rfl
  | case3 c rest _ _ ih =>
    obtain ⟨⟨_, _, _⟩, hcut, heq⟩ := Option.map_eq_some_iff.1 h
    cases heq
    simp [← ih hcut]
  | case4 => cases h

/-- What follows an opening marker is at least two characters shorter than the text. -/
theorem length_after_cutAtOpening {s before after : List Char} {kind : TagKind}
    (h : cutAtOpening s = some (before, kind, after)) : after.length + 2 ≤ s.length := by
  rw [append_of_cutAtOpening h]
  cases kind <;> simp [opening]

/-- What follows a closing marker is shorter than the text. -/
theorem length_after_cutAtClosing {s content after : List Char} {kind : TagKind}
    (h : cutAtClosing kind s = some (content, after)) : after.length + 2 ≤ s.length := by
  cases kind <;> exact Text.length_after_cutAt h

/-! ### Scanning -/

/-- The token of a plain text at a position, if it is not empty. -/
def stretch (k : Counter) (position : Nat) (s : List Char) : List Token × Counter :=
  if s.isEmpty then ([], k)
  else
    let k := k.goOn position
    ([⟨.text, String.ofList s, position, k.place position⟩], k)

/-- The tokens of what stands in a text from a position on, and the end of the text. -/
def tokenizeFrom (k : Counter) (position : Nat) (s : List Char) :
    Except Fault (List Token × EndToken) :=
  match _hOpen : cutAtOpening s with
  | none =>
    let (front, k) := stretch k position s
    let stop := position + s.length
    .ok (front, ⟨stop, (k.goOn stop).place stop⟩)
  | some (before, kind, inside) =>
    let (front, k) := stretch k position before
    let tagPosition := position + before.length
    let k := k.goOn tagPosition
    match _hClose : cutAtClosing kind inside with
    | none => .error ⟨.unterminated kind, k.place tagPosition⟩
    | some (content, rest) => do
      let tag : Token :=
        ⟨.tag kind, String.ofList (Text.trimChars content), tagPosition, k.place tagPosition⟩
      let (tokens, stop) ← tokenizeFrom k (tagPosition + content.length + 4) rest
      return (front ++ tag :: tokens, stop)
termination_by s.length
decreasing_by
  have := length_after_cutAtOpening _hOpen
  have := length_after_cutAtClosing _hClose
  omega

/-- The tokens of a text, and its end. -/
def tokenize (text : String) : Except Fault (List Token × EndToken) :=
  tokenizeFrom (.start text.toList) 0 text.toList

/-- The tokens of a text, which say what stands in it. -/
def scan (text : String) : Except Fault (List Token) := (tokenize text).map (·.1)

/-! ### Descriptions -/

/-- How a token is described: its class, its text in quotes, its place. -/
def description (className value : String) (location : Location) : String :=
  "Token(" ++ className ++ ", " ++ Text.quote value ++ ", " ++ location.text ++ ")"

/-- The description of a token. -/
def describe (t : Token) : String := description t.kind.className t.value t.location

end Token

/-- The description of a text's end. -/
def EndToken.describe (t : EndToken) : String := Token.description "EOF" "" t.location

end TextTemplate.Markup
