import TextTemplate.Text.Blank
import TextTemplate.Text.DecimalDigit

/-! # Tokens of an expression

  The words of an expression: numbers, quoted texts, names, operators and
  symbols.  `Token.scan` cuts a text into tokens from left to right.  At each
  place the first class that fits decides: white space, a number, a quoted
  text, an operator of two characters, one of one character, a symbol, a name.

  A token knows the stretch of text that it takes; only white space stands
  between two of them.
-/

namespace TextTemplate

/-- Why a text is no expression. -/
inductive SyntaxCause where
  | unterminatedString
  | unexpectedCharacter (c : Char)
  /-- The text holds no token at all. -/
  | emptyText
  | unexpectedToken (text : String)
  | unexpectedEnd
  | missingPropertyName
  | unclosedIndex
  | unclosedGroup
  | unclosedList
  deriving Repr, DecidableEq

/-- What a message says about the cause. -/
def SyntaxCause.message : SyntaxCause → String
  | .unterminatedString => "Unterminated string literal"
  | .unexpectedCharacter c => "Unexpected character '" ++ String.singleton c ++ "'"
  | .emptyText => "Empty expression"
  | .unexpectedToken text => "Unexpected token '" ++ text ++ "'"
  | .unexpectedEnd => "Unexpected end of expression"
  | .missingPropertyName => "Expected property name after '.'"
  | .unclosedIndex => "Expected ']' after index"
  | .unclosedGroup => "Expected ')' after grouped expression"
  | .unclosedList => "Expected ',' or ']' in list literal"

/-- Why reading an expression fails. -/
inductive ReadFault where
  /-- The text breaks a rule of the language, at a position. -/
  | malformed (cause : SyntaxCause) (position : Nat)
  /-- A whole number has too many digits. -/
  | tooManyDigits
  /-- Brackets or signs are nested too deep. -/
  | tooDeep
  deriving Repr, DecidableEq

/-! ### Lexemes -/

/-- The words with a fixed value. -/
inductive Keyword where
  | yes | no | null
  deriving Repr, DecidableEq

def Keyword.text : Keyword → String
  | .yes => "true"
  | .no => "false"
  | .null => "null"

/-- The operators. -/
inductive Operator where
  | and | or | eq | ne | le | ge | lt | gt | add | sub | mul | div | mod | not
  deriving Repr, DecidableEq

def Operator.text : Operator → String
  | .and => "&&"
  | .or => "||"
  | .eq => "=="
  | .ne => "!="
  | .le => "<="
  | .ge => ">="
  | .lt => "<"
  | .gt => ">"
  | .add => "+"
  | .sub => "-"
  | .mul => "*"
  | .div => "/"
  | .mod => "%"
  | .not => "!"

/-- The symbols. -/
inductive Symbol where
  | openParen | closeParen | openBracket | closeBracket | dot | comma
  deriving Repr, DecidableEq

def Symbol.text : Symbol → String
  | .openParen => "("
  | .closeParen => ")"
  | .openBracket => "["
  | .closeBracket => "]"
  | .dot => "."
  | .comma => ","

/-- What a token says. -/
inductive Lexeme where
  /-- Digits, with a point among them if there is a fraction. -/
  | number (digits : String)
  /-- A quoted text, without its marks and escapes. -/
  | string (content : String)
  | keyword (k : Keyword)
  | name (n : String)
  | operator (op : Operator)
  | symbol (s : Symbol)
  deriving Repr, DecidableEq

namespace Lexeme

/-- The lexeme's class, as a description of it shows it. -/
def className : Lexeme → String
  | .number _ => "NUMBER"
  | .string _ => "STRING"
  | .keyword _ => "KEYWORD"
  | .name _ => "IDENTIFIER"
  | .operator _ => "OPERATOR"
  | .symbol _ => "SYMBOL"

/-- The lexeme's text. -/
def text : Lexeme → String
  | .number digits => digits
  | .string content => content
  | .keyword k => k.text
  | .name n => n
  | .operator op => op.text
  | .symbol s => s.text

end Lexeme

/-- A lexeme with the stretch of text that it takes, from `start` up to `stop`. -/
structure Token where
  lexeme : Lexeme
  start : Nat
  stop : Nat
  deriving Repr, DecidableEq

namespace Token

/-! ### The lexeme at the front of a text -/

/-- The character that an escape stands for: a control character, else the escaped one. -/
def unescape : Char → Char
  | 'n' => '\n'
  | 't' => '\t'
  | 'r' => '\r'
  | c => c

/-- The content of a quoted text whose opening mark has been read, and how many characters it
    takes up to and with its closing mark. -/
def stringBody (mark : Char) : List Char → Option (List Char × Nat)
  | [] => none
  | c :: rest =>
    if c = mark then some ([], 1)
    else if c = '\\' then
      match rest with
      | [] => none
      | e :: rest => (stringBody mark rest).map fun b => (unescape e :: b.1, b.2 + 2)
    else (stringBody mark rest).map fun b => (c :: b.1, b.2 + 1)

/-- Can the character start a name? -/
def startsName (c : Char) : Bool :=
  ('A' ≤ c && c ≤ 'Z') || ('a' ≤ c && c ≤ 'z') || c == '_' || c == '$'

/-- Can the character stand inside a name? -/
def continuesName (c : Char) : Bool := startsName c || ('0' ≤ c && c ≤ '9')

/-- The keyword or name with these characters. -/
def word (n : String) : Lexeme :=
  if n = "true" then .keyword .yes
  else if n = "false" then .keyword .no
  else if n = "null" then .keyword .null
  else .name n

/-- The operator of two characters. -/
def operator2? : Char → Char → Option Operator
  | '&', '&' => some .and
  | '|', '|' => some .or
  | '=', '=' => some .eq
  | '!', '=' => some .ne
  | '<', '=' => some .le
  | '>', '=' => some .ge
  | _, _ => none

/-- The operator of one character. -/
def operator1? : Char → Option Operator
  | '<' => some .lt
  | '>' => some .gt
  | '+' => some .add
  | '-' => some .sub
  | '*' => some .mul
  | '/' => some .div
  | '%' => some .mod
  | '!' => some .not
  | _ => none

/-- The symbol of one character. -/
def symbol? : Char → Option Symbol
  | '(' => some .openParen
  | ')' => some .closeParen
  | '[' => some .openBracket
  | ']' => some .closeBracket
  | '.' => some .dot
  | ',' => some .comma
  | _ => none

/-- The digits of a number, the first of which has been read: a run of digits, and a fraction if
    a point and a digit follow. -/
def numberTail (rest : List Char) : List Char :=
  let whole := rest.takeWhile Text.isDecimalDigit
  match rest.drop whole.length with
  | '.' :: d :: more =>
    if Text.isDecimalDigit d then whole ++ '.' :: d :: more.takeWhile Text.isDecimalDigit else whole
  | _ => whole

/-- The lexeme at the front of `c :: rest`, none for white space, and how many characters of
    `rest` belong to it. -/
def front (c : Char) (rest : List Char) : Except SyntaxCause (Option Lexeme × Nat) :=
  if Text.isBlank c then .ok (none, (rest.takeWhile Text.isBlank).length)
  else if Text.isDecimalDigit c then
    let more := numberTail rest
    .ok (some (.number (String.ofList (c :: more))), more.length)
  else if c = '"' ∨ c = '\'' then
    match stringBody c rest with
    | some (content, width) => .ok (some (.string (String.ofList content)), width)
    | none => .error .unterminatedString
  else match rest.head?.bind (operator2? c) with
    | some op => .ok (some (.operator op), 1)
    | none => match operator1? c with
      | some op => .ok (some (.operator op), 0)
      | none => match symbol? c with
        | some s => .ok (some (.symbol s), 0)
        | none =>
          if startsName c then
            let more := rest.takeWhile continuesName
            .ok (some (word (String.ofList (c :: more))), more.length)
          else .error (.unexpectedCharacter c)

/-! ### Scanning -/

/-- The tokens of a text that starts at `position`. -/
def scanFrom (position : Nat) : List Char → Except ReadFault (List Token)
  | [] => .ok []
  | c :: rest =>
    match front c rest with
    | .error cause => .error (.malformed cause position)
    | .ok (lexeme?, width) => do
      let stop := position + 1 + width
      let tokens ← scanFrom stop (rest.drop width)
      match lexeme? with
      | some lexeme => return ⟨lexeme, position, stop⟩ :: tokens
      | none => return tokens
termination_by s => s.length
decreasing_by simp only [List.length_drop, List.length_cons]; omega

/-- The tokens of a text. -/
def scan (text : String) : Except ReadFault (List Token) := scanFrom 0 text.toList

/-! ### Descriptions -/

/-- How a token is described: its class, its text as it is, its position. -/
def description (className text : String) (position : Nat) : String :=
  "Token(" ++ className ++ ", '" ++ text ++ "', pos=" ++ Nat.repr position ++ ")"

/-- The description of a token. -/
def describe (t : Token) : String := description t.lexeme.className t.lexeme.text t.start

/-- The description of the end of a text of the given length. -/
def describeEnd (length : Nat) : String := description "EOF" "" length

end Token

end TextTemplate
