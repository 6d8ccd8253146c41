import TextTemplate.Markup.Fault

/-! # Errors of loading a template

  A store answers the question for a template's text with the text or with one
  of several failures.  Each failure, an error in the text, a circle of
  ancestors and the failure of an ancestor make the template fail for good; a
  `LoadError` says which of them it was.
-/

namespace TextTemplate

/-! ### What stores answer -/

/-- Why a store has no text for a name. -/
inductive StoreFault where
  | notFound (name : String)
  /-- Reading failed, with the system's own words about it if it gave any. -/
  | unreadable (name : String) (detail? : Option String)
  deriving Repr, DecidableEq

/-- What a message says about the fault of a store. -/
def StoreFault.text : StoreFault → String
  | .notFound name => "Template not found: " ++ name
  | .unreadable name detail? =>
    "Failed to fetch template '" ++ name ++ "'" ++ detail?.elim "" (": " ++ ·)

/-- The classes of errors about templates. -/
inductive ErrorClass where
  /-- The form of a tag. -/
  | form
  /-- The order of tags. -/
  | order
  /-- What a template needs could not be loaded. -/
  | dependency
  deriving Repr, DecidableEq

/-- An exception that a store does not foresee. -/
structure Unforeseen where
  className : String
  /-- The exception as messages show it. -/
  text : String
  deriving Repr, DecidableEq

/-- An exception with a message. -/
def Unforeseen.ofMessage (className message : String) : Unforeseen :=
  ⟨className, className ++ "(" ++ Text.quote message ++ ")"⟩

/-- An error of the system, with the number that the system gives it. -/
def Unforeseen.ofSystem (number : Nat) (message : String) : Unforeseen :=
  ⟨"OSError", "OSError(" ++ Nat.repr number ++ ", " ++ Text.quote message ++ ")"⟩

/-- An error about a template that a store reports. -/
structure Reported where
  errorClass : ErrorClass
  /-- The name of the template, if one is given. -/
  template : String
  message : String
  /-- The place of the error, if one is given. -/
  line? : Option Nat
  column? : Option Nat
  deriving Repr, DecidableEq

/-- What a store answers. -/
inductive Fetched where
  | text (s : String)
  | fault (f : StoreFault)
  /-- The store itself waited too long for something. -/
  | timedOut
  /-- Fetching was called off. -/
  | cancelled
  /-- The store reports an error about a template itself. -/
  | reported (r : Reported)
  | unforeseen (u : Unforeseen)
  /-- An exception of which no error is made: it is none itself, or to show it raises another
      one. -/
  | escaping
  deriving Repr, DecidableEq

/-- Does the answer end a load without a text and without an error? -/
def Fetched.escapes : Fetched → Bool
  | .escaping => true
  | _ => false

/-! ### Errors -/

/-- Why a template could not be loaded. -/
inductive LoadError where
  | markup (fault : Markup.Fault)
  | reported (r : Reported)
  | store (fault : StoreFault)
  /-- The text did not arrive in time; the limit, if one was set. -/
  | timedOut (limit? : Option String)
  | cancelled
  | unforeseen (u : Unforeseen)
  /-- The template is its own ancestor, by this path. -/
  | circular (path : List String)
  | ancestorCancelled (ancestor : String)
  | ancestorFailed (ancestor : String) (error : LoadError)
  deriving Repr, DecidableEq

/-- The error that is made of a store's answer, if any is.  A limit is set on the answer or not. -/
def Fetched.error? (limit? : Option String) : Fetched → Option LoadError
  | .text _ | .escaping => none
  | .fault f => some (.store f)
  | .timedOut => some (.timedOut limit?)
  | .cancelled => some .cancelled
  | .reported r => some (.reported r)
  | .unforeseen u => some (.unforeseen u)

namespace LoadError

/-- The class of an error. -/
def errorClass : LoadError → ErrorClass
  | .markup fault => if fault.cause.isForm then .form else .order
  | .reported r => r.errorClass
  | _ => .dependency

/-- What is wrong, without the place and the template. -/
def message : LoadError → String
  | .markup fault => fault.cause.message
  | .reported r => r.message
  | .store fault => fault.text
  | .timedOut limit? => "fetch timed out after " ++ limit?.getD "None" ++ "s"
  | .cancelled => "loading was cancelled"
  | .unforeseen u => "unexpected error while loading template: " ++ u.text
  | .circular path => "circular extends: " ++ " -> ".intercalate path
  | .ancestorCancelled ancestor => "loading of ancestor '" ++ ancestor ++ "' was cancelled"
  | .ancestorFailed ancestor error => "ancestor '" ++ ancestor ++ "' failed: " ++ error.message

/-- The message about the named template. -/
def text (template : String) : LoadError → String
  | .markup fault => fault.text template
  | .reported r => errorText r.message r.template r.line? r.column?
  | error => errorText error.message template none none

end LoadError

end TextTemplate
