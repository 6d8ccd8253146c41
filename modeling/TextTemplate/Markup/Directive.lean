import TextTemplate.Expr.Token
import TextTemplate.Markup.Token

/-! # Directives

  The content of a directive tag, taken apart.  It starts with a keyword, which
  ends where a word ends, so that `if(a)` is `if` with `(a)`; what follows is
  the keyword's business.  A keyword that the language does not have gives the
  directive `unknown`.
-/

namespace TextTemplate.Markup

/-- A directive. -/
inductive Directive where
  /-- `if`: starts a run of branches. -/
  | startIf (condition : String)
  /-- `else if`: the next branch. -/
  | elseIf (condition : String)
  /-- `else`: the branch that is taken if no other is. -/
  | otherwise
  | endIf
  /-- `for name in source`. -/
  | startFor (name source : String)
  | endFor
  | startBlock (name : String)
  /-- `endblock`, with the name of the block that it means, if it gives one. -/
  | endBlock (name? : Option String)
  /-- `extends`: names the template's ancestor. -/
  | extends_ (name : String)
  | unknown (keyword : String)
  deriving Repr, DecidableEq

namespace Directive

/-! ### Words -/

/-- Can the character start a keyword? -/
def startsKeyword (c : Char) : Bool :=
  ('A' ≤ c && c ≤ 'Z') || ('a' ≤ c && c ≤ 'z') || c == '_'

/-- Can the character stand inside a keyword? -/
def continuesKeyword (c : Char) : Bool := startsKeyword c || ('0' ≤ c && c ≤ '9')

/-- The keyword at the front of a trimmed text, and the trimmed rest.  A text that starts with no
    letter has its first word for a keyword. -/
def splitKeyword (content : List Char) : List Char × List Char :=
  match content with
  | [] => ([], [])
  | c :: rest =>
    if startsKeyword c then
      let more := rest.takeWhile continuesKeyword
      (c :: more, Text.trimChars (rest.drop more.length))
    else Text.splitWord content

/-- Is the text a name as expressions have it? -/
def isName : List Char → Bool
  | [] => false
  | c :: rest => TextTemplate.Token.startsName c && rest.all TextTemplate.Token.continuesName

/-- A text without the pair of quote marks around it, and trimmed again. -/
def unquote (s : List Char) : List Char :=
  match s with
  | [] => []
  | mark :: rest =>
    if (mark = '\'' ∨ mark = '"') ∧ rest.getLast? = some mark then Text.trimChars rest.dropLast
    else s

/-! ### Reading -/

/-- What follows `else`. -/
def readElse (rest : List Char) : Except Cause Directive :=
  if rest.isEmpty then .ok .otherwise
  else
    let (keyword, condition) := splitKeyword rest
    if keyword ≠ ['i', 'f'] then .error (.textAfterElse (String.ofList rest))
    else if condition.isEmpty then .error .elseIfWithoutCondition
    else .ok (.elseIf (String.ofList condition))

/-- What follows `for`.  The first ` in ` divides it, also one at its start; it never ends the
    text, which is trimmed, so there always is a source. -/
def readFor (rest : List Char) : Except Cause Directive :=
  match Text.cutAtWord [' ', 'i', 'n', ' '] (' ' :: rest) with
  | none => .error .forWithoutIn
  | some (before, source) =>
    let name := Text.trimChars before
    if isName name then
      .ok (.startFor (String.ofList name) (String.ofList (Text.trimChars source)))
    else .error (.badLoopVariable (String.ofList name))

/-- The directive of a tag's trimmed content, or what is wrong with its form. -/
def read (content : String) : Except Cause Directive :=
  let (keyword, rest) := splitKeyword content.toList
  let text := String.ofList rest
  match String.ofList keyword with
  | "if" => if rest.isEmpty then .error .ifWithoutCondition else .ok (.startIf text)
  | "else" => readElse rest
  | "endif" => .ok .endIf
  | "for" => readFor rest
  | "endfor" => .ok .endFor
  | "block" => if rest.isEmpty then .error .blockWithoutName else .ok (.startBlock text)
  | "endblock" => .ok (.endBlock (if rest.isEmpty then none else some text))
  | "extends" =>
    let name := unquote rest
    if name.isEmpty then .error .extendsWithoutName else .ok (.extends_ (String.ofList name))
  | keyword => .ok (.unknown keyword)

end Directive

end TextTemplate.Markup
