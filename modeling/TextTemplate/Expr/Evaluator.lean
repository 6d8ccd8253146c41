import TextTemplate.Expr.Eval

/-! # Evaluators

  An evaluator evaluates one text after the other.  It reads each text only once:
  it remembers the expression, or that the text is malformed.  A text with a whole
  number that has too many digits is not remembered.

  It reads with one cursor over tokens.  A text that cannot be cut into tokens
  leaves the cursor on the text before it, and one that cannot be read leaves it
  where reading stopped.
-/

namespace TextTemplate

/-- The answers to some calls, each of which leaves a state to the next one, and the last state. -/
def inTurn {σ α β : Type} (call : σ → α → β × σ) (s : σ) : List α → List β × σ
  | [] => ([], s)
  | a :: rest =>
    let (answer, s) := call s a
    let (answers, s) := inTurn call s rest
    (answer :: answers, s)

namespace Expr

/-! ### Cursors -/

/-- The tokens of the last text that could be cut into tokens, and how many of them are taken. -/
structure Cursor where
  tokens : List Token
  /-- Where the text ends. -/
  stop : Nat
  taken : Nat

namespace Cursor

/-- The cursor before any text. -/
def new : Cursor := ⟨[], 0, 0⟩

/-- The tokens that are not taken. -/
def ahead (c : Cursor) : List Token := c.tokens.drop c.taken

/-- Takes an expression from the tokens ahead; where there is none, what has been read by then is
    taken. -/
def takeExpression (c : Cursor) : Except ReadFault Expr × Cursor :=
  let keep (rest : List Token) : Cursor := { c with taken := c.tokens.length - rest.length }
  match Reader.expression c.stop (Reader.maxBrackets + 1) c.ahead with
  | .error halt => (.error halt.fault, keep halt.ahead)
  | .ok phrase => (.ok phrase.expr, keep phrase.rest)

/-- Takes the expression that all the tokens ahead make up. -/
def takeAll (c : Cursor) : Except ReadFault Expr × Cursor :=
  if c.ahead.isEmpty then (.error (.malformed .emptyText 0), c)
  else
    let (outcome, c) := c.takeExpression
    match outcome, c.ahead with
    | .ok _, t :: _ => (.error (.malformed (.unexpectedToken t.lexeme.text) t.start), c)
    | outcome, _ => (outcome, c)

/-- Reads the expression that a text writes. -/
def read (c : Cursor) (text : String) : Except ReadFault Expr × Cursor :=
  match Token.scan text with
  | .error fault => (.error fault, c)
  | .ok tokens => { c with tokens := tokens, stop := text.length, taken := 0 }.takeAll

end Cursor

/-! ### Evaluators -/

/-- What evaluating has left behind. -/
structure Evaluator where
  cursor : Cursor
  /-- The texts that are known, with their expressions; a malformed text has none. -/
  known : List (String × Option Expr)

namespace Evaluator

/-- An evaluator that knows no text. -/
def new : Evaluator := ⟨.new, []⟩

/-- The expression of a known text. -/
def find? (evaluator : Evaluator) (text : String) : Option (Option Expr) :=
  (evaluator.known.find? (·.1 == text)).map (·.2)

/-- The expression of a text, unless it is malformed; that it is so is reported when it is read. -/
def compile (evaluator : Evaluator) (text : String) :
    Except TooManyDigits (Option Expr × Option Remark) × Evaluator :=
  match evaluator.find? text with
  | some e? => (.ok (e?, none), evaluator)
  | none =>
    let (outcome, cursor) := evaluator.cursor.read text
    match outcome with
    | .ok e => (.ok (some e, none), ⟨cursor, (text, some e) :: evaluator.known⟩)
    | .error .tooManyDigits => (.error .tooManyDigits, { evaluator with cursor := cursor })
    | .error fault =>
      (.ok (none, some (.malformed text fault)), ⟨cursor, (text, none) :: evaluator.known⟩)

/-- The value of a text: `undefined`, with a remark, if it has none.  The remark on a malformed text
    is made once. -/
def evaluate (evaluator : Evaluator) (scope : Scope) (text : String) :
    Except Escape (Value × Option Remark) × Evaluator :=
  let (outcome, evaluator) := evaluator.compile text
  (match outcome with
    | .error .tooManyDigits => .error .tooManyDigits
    | .ok (none, remark?) => .ok (.undefined, remark?)
    | .ok (some e, _) => settle text (e.eval scope maxDepth), evaluator)

end Evaluator

end Expr

end TextTemplate
