import TextTemplate.Expr.Basic
import TextTemplate.Expr.Token

/-! # Reading expressions

  From tokens to an expression.  From the loosest to the tightest:

    a || b        a && b        a == b   a != b
    a < b   a <= b   a > b   a >= b
    a + b   a - b        a * b   a / b   a % b
    !a   -a        a.name   a[b]
    numbers, texts, keywords, names, `(a)`, `[a, b]`

  Operators between operands associate to the left.  Each level is a reader
  built from the reader of the next tighter one; what stands in brackets is
  read by a reader that may open one bracket less.

  A reader consumes at least one token, so every loop ends.  One that fails says
  which tokens it has not taken by then.
-/

namespace TextTemplate

/-- An expression read from the front of some tokens, and the tokens after it. -/
structure Phrase (tokens : List Token) where
  expr : Expr
  rest : List Token
  shorter : rest.length < tokens.length

/-- Why reading stops before the end of an expression, and the tokens that are not taken by then. -/
structure Halt where
  fault : ReadFault
  ahead : List Token

/-- Reads one expression from the front of some tokens. -/
abbrev Reader := (tokens : List Token) → Except Halt (Phrase tokens)

namespace Reader

/-- Where the next token starts; `stop` is where the text ends. -/
def positionOf (stop : Nat) : List Token → Nat
  | [] => stop
  | t :: _ => t.start

/-- The tokens ahead do not go on as the language wants it. -/
def misplaced (cause : SyntaxCause) (stop : Nat) (ahead : List Token) : Halt :=
  ⟨.malformed cause (positionOf stop ahead), ahead⟩

/-! ### Operators between operands -/

/-- Goes on from a left operand: as long as an operator of the level follows, it joins what has
    been read with the next operand. -/
def joinAll (operand : Reader) (join? : Lexeme → Option (Expr → Expr → Expr)) (left : Expr)
    (tokens : List Token) :
    Except Halt { p : Expr × List Token // p.2.length ≤ tokens.length } :=
  match tokens with
  | [] => .ok ⟨(left, []), Nat.le_refl _⟩
  | t :: after =>
    match join? t.lexeme with
    | none => .ok ⟨(left, t :: after), Nat.le_refl _⟩
    | some join => do
      let right ← operand after
      have := right.shorter
      let ⟨joined, _⟩ ← joinAll operand join? (join left right.expr) right.rest
      return ⟨joined, by simp only [List.length_cons]; omega⟩
termination_by tokens.length
decreasing_by simp only [List.length_cons]; omega

/-- A level of operators that associate to the left. -/
def chain (join? : Lexeme → Option (Expr → Expr → Expr)) (operand : Reader) : Reader :=
  fun tokens => do
    let first ← operand tokens
    have := first.shorter
    let ⟨joined, _⟩ ← joinAll operand join? first.expr first.rest
    return ⟨joined.1, joined.2, by omega⟩

/-- The operators of a level, as ways to join two operands. -/
def joinBinary (ops : List (Operator × BinaryOp)) : Lexeme → Option (Expr → Expr → Expr)
  | .operator op => (ops.find? (·.1 == op)).map fun o => (Expr.binary · o.2 ·)
  | _ => none

/-- One logical operator, as a way to join two operands. -/
def joinLogical (op : Operator) (logical : LogicalOp) : Lexeme → Option (Expr → Expr → Expr)
  | .operator o => if o = op then some (Expr.logical · logical ·) else none
  | _ => none

/-- The levels of operators between operands, the loosest first. -/
def levels : List (Lexeme → Option (Expr → Expr → Expr)) :=
  [joinLogical .or .or,
   joinLogical .and .and,
   joinBinary [(.eq, .eq), (.ne, .ne)],
   joinBinary [(.lt, .lt), (.le, .le), (.gt, .gt), (.ge, .ge)],
   joinBinary [(.add, .add), (.sub, .sub)],
   joinBinary [(.mul, .mul), (.div, .div), (.mod, .mod)]]

/-! ### Operators in front of an operand -/

/-- The sign that a lexeme is. -/
def sign? : Lexeme → Option UnaryOp
  | .operator .not => some .not
  | .operator .sub => some .neg
  | _ => none

/-- Any number of signs up to a limit, and their operand. -/
def signed (operand : Reader) : (limit : Nat) → Reader
  | limit, tokens =>
    match tokens with
    | [] => operand []
    | t :: after =>
      match sign? t.lexeme with
      | none => operand (t :: after)
      | some op =>
        match limit with
        | 0 => .error ⟨.tooDeep, after⟩
        | limit + 1 => do
          let inner ← signed operand limit after
          have := inner.shorter
          return ⟨.unary op inner.expr, inner.rest, by simp only [List.length_cons]; omega⟩

/-! ### Operators after an operand -/

/-- The property name that a lexeme gives after a point. -/
def propertyName? : Lexeme → Option String
  | .name n => some n
  | .keyword k => some k.text
  | _ => none

/-- Goes on from a target: properties and indexes, as long as they follow. -/
def accessAll (inner : Reader) (stop : Nat) (target : Expr) (tokens : List Token) :
    Except Halt { p : Expr × List Token // p.2.length ≤ tokens.length } :=
  match tokens with
  | ⟨.symbol .dot, _, _⟩ :: after =>
    match after with
    | [] => .error (misplaced .missingPropertyName stop [])
    | t :: rest =>
      match propertyName? t.lexeme with
      | none => .error (misplaced .missingPropertyName stop (t :: rest))
      | some n => do
        let ⟨p, _⟩ ← accessAll inner stop (.property target n) rest
        return ⟨p, by simp only [List.length_cons]; omega⟩
  | ⟨.symbol .openBracket, _, _⟩ :: after => do
    let key ← inner after
    have := key.shorter
    match h : key.rest with
    | ⟨.symbol .closeBracket, _, _⟩ :: rest =>
      have : rest.length < key.rest.length := by simp [h]
      let ⟨p, _⟩ ← accessAll inner stop (.index target key.expr) rest
      return ⟨p, by simp only [List.length_cons]; omega⟩
    | rest => .error (misplaced .unclosedIndex stop rest)
  | tokens => .ok ⟨(target, tokens), Nat.le_refl _⟩
termination_by tokens.length
decreasing_by all_goals (simp only [List.length_cons]; omega)

/-- An operand with what is read from it. -/
def accessed (inner : Reader) (stop : Nat) (operand : Reader) : Reader := fun tokens => do
  let first ← operand tokens
  have := first.shorter
  let ⟨p, _⟩ ← accessAll inner stop first.expr first.rest
  return ⟨p.1, p.2, by omega⟩

/-! ### Operands -/

/-- The value of a number's digits: with a point a double, else a whole number. -/
def numberValue (digits : String) : Except ReadFault Value :=
  let whole := digits.toList.takeWhile (· != '.')
  match digits.toList.drop whole.length with
  | [] => match Numeral.read whole with
    | .ok n => .ok (.int n)
    | .error .tooManyDigits => .error .tooManyDigits
  | _ :: fraction =>
    let digits := Text.numeralValue (whole ++ fraction)
    .ok (.float (Binary64.ofDecimal false digits (-fraction.length)))

def keywordValue : Keyword → Value
  | .yes => .bool true
  | .no => .bool false
  | .null => .null

/-- The items of a list up to its closing bracket, at least one. -/
def listItems (inner : Reader) (stop : Nat) (tokens : List Token) :
    Except Halt { p : List Expr × List Token // p.2.length < tokens.length } := do
  let item ← inner tokens
  have := item.shorter
  match h : item.rest with
  | ⟨.symbol .closeBracket, _, _⟩ :: rest =>
    have : rest.length < item.rest.length := by simp [h]
    return ⟨([item.expr], rest), by dsimp only; omega⟩
  | ⟨.symbol .comma, _, _⟩ :: rest =>
    have : rest.length < item.rest.length := by simp [h]
    let ⟨p, _⟩ ← listItems inner stop rest
    return ⟨(item.expr :: p.1, p.2), by dsimp only; omega⟩
  | rest => .error (misplaced .unclosedList stop rest)
termination_by tokens.length
decreasing_by omega

/-- A number, text, keyword, name, group or list. -/
def operand (inner : Reader) (stop : Nat) : Reader
  | [] => .error (misplaced .unexpectedEnd stop [])
  | t :: after =>
    let done (e : Expr) : Except Halt (Phrase (t :: after)) :=
      .ok ⟨e, after, by simp⟩
    match t.lexeme with
    | .number digits => match numberValue digits with
      | .ok v => done (.literal v)
      | .error fault => .error ⟨fault, after⟩
    | .string content => done (.literal (.string content))
    | .keyword k => done (.literal (keywordValue k))
    | .name n => done (.name n)
    | .symbol .openParen => do
      let e ← inner after
      have := e.shorter
      match h : e.rest with
      | ⟨.symbol .closeParen, _, _⟩ :: rest =>
        have : rest.length < e.rest.length := by simp [h]
        return ⟨.group e.expr, rest, by simp only [List.length_cons]; omega⟩
      | rest => .error (misplaced .unclosedGroup stop rest)
    | .symbol .openBracket =>
      match after with
      | ⟨.symbol .closeBracket, _, _⟩ :: rest =>
        .ok ⟨.list [], rest, by simp only [List.length_cons]; omega⟩
      | after => do
        let ⟨p, _⟩ ← listItems inner stop after
        return ⟨.list p.1, p.2, by simp only [List.length_cons]; omega⟩
    | lexeme => .error (misplaced (.unexpectedToken lexeme.text) stop (t :: after))

/-! ### The whole language -/

/-- How many brackets may be open at once. -/
def maxBrackets : Nat := 85

/-- How many signs may stand in front of an operand. -/
def maxSigns : Nat := 900

/-- An expression of any level, with at most so many brackets open at once. -/
def expression (stop : Nat) : (brackets : Nat) → Reader
  | 0 => fun tokens => .error ⟨.tooDeep, tokens⟩
  | brackets + 1 =>
    let inner := expression stop brackets
    levels.foldr chain (signed (accessed inner stop (operand inner stop)) maxSigns)

end Reader

namespace Expr

/-- The expression that all the tokens of a text of length `stop` make up. -/
def ofTokens (stop : Nat) (tokens : List Token) : Except ReadFault Expr :=
  if tokens.isEmpty then .error (.malformed .emptyText 0)
  else match Reader.expression stop (Reader.maxBrackets + 1) tokens with
    | .error halt => .error halt.fault
    | .ok phrase => match phrase.rest with
      | [] => .ok phrase.expr
      | t :: _ => .error (.malformed (.unexpectedToken t.lexeme.text) t.start)

/-- The expression that a text writes. -/
def read (text : String) : Except ReadFault Expr := do
  ofTokens text.length (← Token.scan text)

end Expr

namespace ReadFault

/-- What a message says about the fault. -/
def message : ReadFault → String
  | .malformed cause position =>
    "Parse error at position " ++ Nat.repr position ++ ": " ++ cause.message
  | .tooManyDigits => "Exceeds the limit (4300 digits) for integer string conversion"
  | .tooDeep => "maximum recursion depth exceeded"

end ReadFault

end TextTemplate
