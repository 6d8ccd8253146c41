import TextTemplate.Number.Arithmetic

/-! # Host objects

  An object that the program which renders a template hands in among the
  variables.  It has named attributes, some of which are methods, and it answers
  for itself when it is asked for its truth, its length, its hash, or whether it
  is the same as another value.  Each of these answers may be an exception.

  An exception is asked for its text when it is reported, and that may raise
  another one.  Not every exception is an error: a request to end the program
  passes by whoever catches errors.
-/

namespace TextTemplate

/-! ### Exceptions -/

/-- What an exception says when it is asked for its text. -/
inductive ExceptionText where
  | shown (s : String)
  /-- Asking raises another exception, of this class. -/
  | fails (className : String)
  deriving Repr, DecidableEq

/-- Who catches an exception. -/
inductive Reach where
  /-- It says that an attribute is missing, so reading an attribute catches it. -/
  | missing
  /-- It is an error like others. -/
  | ordinary
  /-- It is no error, so nobody does. -/
  | interrupt
  deriving Repr, DecidableEq

/-- An exception that a host object raises. -/
structure HostError where
  className : String
  text : ExceptionText
  reach : Reach
  deriving Repr, DecidableEq

namespace HostError

/-- The exception's text; the empty one if it has none. -/
def shown (e : HostError) : String :=
  match e.text with
  | .shown s => s
  | .fails _ => ""

/-- Is it no error? -/
def isInterrupt (e : HostError) : Bool := e.reach == .interrupt

/-- The class of what goes on where errors are caught and reported: the exception itself if it is no
    error, or the one that its text raises. -/
def escape? (e : HostError) : Option String :=
  if e.isInterrupt then some e.className
  else match e.text with
    | .shown _ => none
    | .fails className => some className

end HostError

/-! ### Objects -/

/-- How a host object answers when it is asked for its truth. -/
inductive HostTruth where
  | truthy
  | falsy
  | fails (e : HostError)
  deriving Repr, DecidableEq

/-- How a host object answers when it is compared with another value. -/
inductive HostEquality where
  /-- It is the same as itself only. -/
  | identity
  /-- It is the same as what is or stands for this number. -/
  | worth (n : Number)
  | fails (e : HostError)

/-- An object of the host program, as a template sees it. -/
structure HostObject (V : Type) where
  /-- Tells the object from all others. -/
  identity : Nat
  className : String
  /-- Attributes that hold a value. -/
  attributes : List (String × V)
  /-- Attributes that can be called. -/
  methods : List String
  /-- Attributes whose reading fails. -/
  failing : List (String × HostError)
  /-- The object's text. -/
  text : String
  /-- The object's exact form. -/
  exact : String
  truth : HostTruth
  equality : HostEquality
  /-- What is raised if it has no hash. -/
  hashFailure? : Option HostError
  /-- The length of a sized object. -/
  length? : Option (Except HostError Nat)
  /-- What a loop over it runs through. -/
  items? : Option (List V)

end TextTemplate
