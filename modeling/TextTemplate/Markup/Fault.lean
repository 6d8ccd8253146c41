import TextTemplate.Text.Quoted

/-! # Errors of a template's text

  Why a text is no template, and at which line and column.  A text can break
  the form of a single tag, or the order in which tags open and close.
-/

namespace TextTemplate

/-- A line and a column, both counted from one. -/
structure Location where
  line : Nat
  column : Nat
  deriving Repr, DecidableEq

namespace Location

/-- A place as messages show it. -/
def text (l : Location) : String := Nat.repr l.line ++ ":" ++ Nat.repr l.column

end Location

namespace Markup

/-- The kinds of tags: those that write a value, and directives. -/
inductive TagKind where
  | output | directive
  deriving Repr, DecidableEq

/-- What an open directive is called until it is closed. -/
inductive FrameKind where
  /-- A branch that another branch may follow. -/
  | branch
  /-- The branch that is taken if no other is. -/
  | otherwise
  | loop
  | block
  deriving Repr, DecidableEq

def FrameKind.text : FrameKind → String
  | .branch => "if"
  | .otherwise => "else"
  | .loop => "for"
  | .block => "block"

/-- The directives that close what another one opened. -/
inductive Closer where
  | otherwise | elseIf | endIf | endFor | endBlock
  deriving Repr, DecidableEq

def Closer.text : Closer → String
  | .otherwise => "else"
  | .elseIf => "else if"
  | .endIf => "endif"
  | .endFor => "endfor"
  | .endBlock => "endblock"

/-- How many directives may be open at once. -/
def maxNesting : Nat := 100

/-- Why a text is no template. -/
inductive Cause where
  /-- A tag is not closed. -/
  | unterminated (tag : TagKind)
  | ifWithoutCondition
  | elseIfWithoutCondition
  | textAfterElse (text : String)
  | forWithoutIn
  | badLoopVariable (name : String)
  | blockWithoutName
  | extendsWithoutName
  /-- A directive of an unknown kind, where such directives are not ignored. -/
  | unknownDirective (keyword : String)
  /-- Nothing is open that a directive could close. -/
  | nothingOpen (closer : Closer)
  /-- What is open is not what the directive closes. -/
  | cannotClose (closer : Closer) (opened : FrameKind)
  /-- A branch after the one that is taken if no other is. -/
  | afterElse (closer : Closer)
  /-- A block is closed under another name than its own. -/
  | nameMismatch (given opened : String)
  | duplicateBlock (name : String)
  | tooDeep
  /-- A directive is still open at the end. -/
  | unclosed (kind : FrameKind)
  deriving Repr, DecidableEq

namespace Cause

/-- Is the form of a tag at fault, and not the order of tags? -/
def isForm : Cause → Bool
  | .unterminated _ | .ifWithoutCondition | .elseIfWithoutCondition | .textAfterElse _
  | .forWithoutIn | .badLoopVariable _ | .blockWithoutName | .extendsWithoutName
  | .unknownDirective _ => true
  | _ => false

/-- What a message says about the cause. -/
def message : Cause → String
  | .unterminated .output => "unterminated variable tag"
  | .unterminated .directive => "unterminated directive tag"
  | .ifWithoutCondition => "'if' requires an expression"
  | .elseIfWithoutCondition => "'else if' requires an expression"
  | .textAfterElse text => "unexpected text after 'else': " ++ Text.quote text
  | .forWithoutIn => "'for' requires the 'in' keyword"
  | .badLoopVariable name => "invalid loop variable " ++ Text.quote name
  | .blockWithoutName => "'block' requires a name"
  | .extendsWithoutName => "'extends' requires a template name"
  | .unknownDirective keyword => "unknown directive '" ++ keyword ++ "'"
  | .nothingOpen closer => "'" ++ closer.text ++ "' without matching opening directive"
  | .cannotClose closer kind => "'" ++ closer.text ++ "' cannot close '" ++ kind.text ++ "'"
  | .afterElse closer => "'" ++ closer.text ++ "' after 'else'"
  | .nameMismatch given opened =>
    "'endblock " ++ given ++ "' does not match open block '" ++ opened ++ "'"
  | .duplicateBlock name => "duplicate block '" ++ name ++ "'"
  | .tooDeep => "directives nested deeper than " ++ Nat.repr maxNesting ++ " levels"
  | .unclosed kind => "unclosed '" ++ kind.text ++ "' directive"

end Cause

/-- An error of a template's text and where it stands. -/
structure Fault where
  cause : Cause
  location : Location
  deriving Repr, DecidableEq

end Markup

/-! ### Messages -/

/-- The message of an error of a template: what is wrong, where, and in which template, as far as
    place and name are known.  A line without a column shows that there is none. -/
def errorText (message template : String) (line? column? : Option Nat) : String :=
  let place := match line? with
    | some line => " at " ++ Nat.repr line ++ ":" ++ column?.elim "None" Nat.repr
    | none => ""
  message ++ place ++ (if template.isEmpty then "" else " in template '" ++ template ++ "'")

/-- The message of an error in the text of the named template. -/
def Markup.Fault.text (f : Fault) (template : String) : String :=
  errorText f.cause.message template (some f.location.line) (some f.location.column)

end TextTemplate
