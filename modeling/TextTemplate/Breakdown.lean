import TextTemplate.Render
import TextTemplate.Text.Encoding

/-! # Breakdowns

  Failures that end the program without a message of its own: nothing in the
  user's files is simply wrong, but something in them cannot be handled.
-/

namespace TextTemplate

/-- Why the program breaks down. -/
inductive Breakdown where
  /-- A whole number has too many digits to be read or written. -/
  | tooManyDigits
  /-- A host object raised an exception of this class. -/
  | host (className : String)
  /-- A time limit is beyond the largest double. -/
  | limitTooLarge
  /-- Templates or data are nested too deep, or too many templates are needed. -/
  | tooDeep
  /-- A file of settings or variables is no text. -/
  | undecodable (fault : Text.DecodeFault)
  /-- The settings file holds no data: the class of the reader's error, and its words. -/
  | malformedSettings (className message : String)
  /-- The reader of data files raised an exception of this class. -/
  | reader (className : String)
  /-- A key in the settings file is no text. -/
  | keyNotText
  /-- A file of settings or variables cannot be opened. -/
  | unopenable
  /-- A directory stands where the settings file is looked for. -/
  | directoryForFile
  /-- The path of a file of settings or variables is too long. -/
  | pathTooLong
  /-- The path of the template directory holds a null character. -/
  | nullInPath
  deriving Repr, DecidableEq

/-- The breakdown that a failed rendering is. -/
def Render.Fault.breakdown : Render.Fault → Breakdown
  | .tooManyDigits => .tooManyDigits
  | .host className => .host className
  | .tooDeep => .tooDeep

end TextTemplate
