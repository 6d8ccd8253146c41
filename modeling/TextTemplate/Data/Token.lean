import TextTemplate.Data.Quoted

/-! # Tokens of data files

  A data file is cut into brackets, marks, quoted texts and words.  Blanks, ends
  of lines and comments, from a `#` to the end of the line, stand between them
  and mean nothing.  A tab is a blank only inside brackets.

  Where no token starts, the row of tokens ends with a sign of that: what stands
  before may already be wrong in another way.
-/

namespace TextTemplate.Data

/-- What a token is. -/
inductive Piece where
  | openList | closeList | openObject | closeObject | comma | colon
  | text (s : String)
  | word (s : List Char)
  /-- The place of something that is no token. -/
  | nothing
  deriving Repr, DecidableEq

/-- A token with the place where it starts. -/
structure Token where
  piece : Piece
  place : Place
  deriving Repr, DecidableEq

namespace Token

/-- The bracket or the mark that a character is. -/
def mark? : Char → Option Piece
  | '[' => some .openList
  | ']' => some .closeList
  | '{' => some .openObject
  | '}' => some .closeObject
  | ',' => some .comma
  | ':' => some .colon
  | _ => none

/-- How many brackets are open behind a mark, of those that were open before it. -/
def depthAfter (depth : Nat) : Piece → Nat
  | .openList | .openObject => depth + 1
  | .closeList | .closeObject => depth - 1
  | _ => depth

/-- Does the character mean nothing between two tokens, with so many brackets open? -/
def separates (depth : Nat) (c : Char) : Bool :=
  c == ' ' || isLineEnd c || (c == '\t' && depth != 0)

/-- Does the character end a comment? -/
def endsComment (c : Char) : Bool := c == '\n' || c == '\x85'

/-- Can the character stand in a word? -/
def isWordPart (c : Char) : Bool := !isInlineBlank c && !isLineEnd c && (mark? c).isNone

/-- The tokens of a text that starts at a place with so many brackets open. -/
def scanFrom (depth : Nat) (place : Place) : List Char → List Token
  | [] => []
  | c :: rest =>
    if separates depth c then scanFrom depth (place.next c) rest
    else if c = '#' then
      let comment := rest.takeWhile (!endsComment ·)
      scanFrom depth (place.after (c :: comment)) (rest.drop comment.length)
    else if c = '"' then
      match _hRead : Quoted.read? place rest with
      | none => [⟨.nothing, place⟩]
      | some quoted =>
        ⟨.text (String.ofList quoted.content), place⟩ :: scanFrom depth quoted.place quoted.rest
    else match mark? c with
      | some mark => ⟨mark, place⟩ :: scanFrom (depthAfter depth mark) (place.next c) rest
      | none =>
        if c = '\t' then [⟨.nothing, place⟩]
        else
          let more := rest.takeWhile isWordPart
          ⟨.word (c :: more), place⟩ ::
            scanFrom depth (place.after (c :: more)) (rest.drop more.length)
termination_by s => s.length
decreasing_by
  all_goals simp only [List.length_drop, List.length_cons]
  any_goals omega
  have := Quoted.length_rest_of_readFrom? _hRead
  omega

/-- The tokens of a text. -/
def scan (s : List Char) : List Token := scanFrom 0 .start s

end Token

end TextTemplate.Data
