/-! # What is wrong with a data file

  A file of settings or variables either gives a value or one of these faults.
  Four of them say that the text is malformed, and differ in what notices it:
  the characters, the tokens, their arrangement, or the names of an object.
-/

namespace TextTemplate.Data

/-- What keeps a text from being data. -/
inductive Malformation where
  /-- It holds a character that no data file may hold. -/
  | unprintable
  /-- Something in it is no token, such as a quoted text without an end. -/
  | noToken
  /-- A token stands where it has no place, or one is missing. -/
  | misplaced
  /-- An object has a name twice. -/
  | repeatedName
  deriving Repr, DecidableEq

/-- The class of the error about a malformed text. -/
def Malformation.className : Malformation → String
  | .unprintable => "ReaderError"
  | .noToken => "ScannerError"
  | .misplaced => "ParserError"
  | .repeatedName => "DuplicateKeyError"

/-- What the error about a malformed text says. -/
def Malformation.message : Malformation → String
  | .unprintable => "special characters are not allowed"
  | .noToken => "found a character that starts no token"
  | .misplaced => "found a token in a place where it cannot stand"
  | .repeatedName => "found a key for the second time"

/-- Why a file gives no value. -/
inductive Fault where
  | malformed (m : Malformation)
  /-- Lists and objects are nested too deep. -/
  | tooDeep
  /-- A whole number has too many digits to be read. -/
  | tooManyDigits
  deriving Repr, DecidableEq

end TextTemplate.Data
