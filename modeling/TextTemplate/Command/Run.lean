import TextTemplate.Catalog.Run
import TextTemplate.Command.Arguments
import TextTemplate.Rendering
import TextTemplate.Settings

/-! # Rendering from the command line

  The settings are looked up first, then the variables, then the assignments on
  the command line, and then the template is loaded and rendered.  The first of
  these steps that fails ends the run with its message and writes no output.

  What is reported on the way goes to the error stream, line by line; unless all
  of it is asked for, only the warnings.

  The reader of data files and the codecs of template files come from outside, as
  the files do.
-/

namespace TextTemplate.Command

/-! ### Failures -/

/-- Why nothing is rendered. -/
inductive Failure where
  | noConfigFile (path : Path)
  | settings (path : Path) (problem : Settings.Problem)
  | noVariablesFile (path : Path)
  /-- A reader's words about the text of a file of variables. -/
  | malformedVariables (path : Path) (message : String)
  | variablesNoMapping (path : Path)
  /-- The option for an assignment was given with this, or with nothing. -/
  | noAssignment (text? : Option String)
  | emptyKey (text : String)
  | load (template : String) (error : LoadError)

/-- What the message about a failure says. -/
def Failure.message : Failure → String
  | .noConfigFile path => "Config file not found: " ++ path.text
  | .settings path problem => problem.message path
  | .noVariablesFile path => "Variables file not found: " ++ path.text
  | .malformedVariables path message =>
    "Failed to parse variables file " ++ path.text ++ ": " ++ message
  | .variablesNoMapping path => path.text ++ ": variables file must contain a mapping"
  | .noAssignment text? =>
    "Invalid --set value '" ++ text?.getD "[]" ++ "'. Expected 'KEY=VALUE'"
  | .emptyKey text => "Invalid --set value '" ++ text ++ "': empty key"
  | .load template error => error.text template

/-- The end of a run that gives nothing. -/
inductive Stop where
  | failure (f : Failure)
  | breakdown (b : Breakdown)

/-! ### Settings -/

/-- The name of the settings file that is looked for in the working directory. -/
def settingsFile : String := "chaintpl.yaml"

/-- A text that is given and not empty. -/
def given? (text? : Option String) : Option String := text?.filter (!·.isEmpty)

/-- The settings file that is asked for: by an option, or else by the environment. -/
def askedFile? (option? environment? : Option String) : Option Path :=
  ((given? option?).or (given? environment?)).map .ofText

/-- The settings for a run. -/
def resolveSettings {m : Type → Type} [Monad m] (reader : Data.Reader) (disk : Disk m)
    (environment? : Option String) (a : RenderArguments) : m (Except Stop Settings) := do
  let asked? := askedFile? a.config? environment?
  let path := asked?.getD (.ofRoot (disk.current ++ [settingsFile]))
  if asked?.isSome then
    match ← disk.look path with
    | .absent | .directory => return .error (.failure (.noConfigFile path))
    | _ => pure ()
  match ← Settings.load reader disk path with
  | .error (.invalid problem) => return .error (.failure (.settings path problem))
  | .error (.breakdown b) => return .error (.breakdown b)
  | .ok s => return .ok ((given? a.root?).elim s fun root => { s with directory := .ofText root })

/-! ### Variables -/

/-- Variables by their names. -/
abbrev Variables := List (String × Value)

/-- The variables that the data of a file gives. -/
def variablesOf (path : Path) : Value → Except Stop Variables
  | .null => .ok []
  | .mapping entries => .ok (Data.named entries)
  | _ => .error (.failure (.variablesNoMapping path))

/-- The variables that a file's bytes give. -/
def readVariables (reader : Data.Reader) (path : Path) (bytes : List UInt8) :
    Except Stop Variables :=
  match Text.ofBytes .utf8 bytes with
  | .error fault => .error (.breakdown (.undecodable fault))
  | .ok text => match reader text with
    | .error (.malformed _ message) => .error (.failure (.malformedVariables path message))
    | .error (.raised className) => .error (.breakdown (.reader className))
    | .ok data => variablesOf path data

/-- The variables of a file, if one is asked for. -/
def loadVariables {m : Type → Type} [Monad m] (reader : Data.Reader) (disk : Disk m)
    (file? : Option String) : m (Except Stop Variables) := do
  match (given? file?).map Path.ofText with
  | none => return .ok []
  | some path =>
    match ← disk.look path with
    | .absent | .directory => return .error (.failure (.noVariablesFile path))
    | .unreadable _ => return .error (.breakdown .unopenable)
    | .tooLong => return .error (.breakdown .pathTooLong)
    | .file bytes => return readVariables reader path bytes

/-- The variable that an assignment gives: the text before the first `=`, trimmed, is its name, and
    the text after it its value. -/
def readAssignment : Option String → Except Failure (String × Value)
  | none => .error (.noAssignment none)
  | some text => match cutAtEquals text with
    | (_, none) => .error (.noAssignment (some text))
    | (before, some value) =>
      let name := Text.trim before
      if name.isEmpty then .error (.emptyKey text) else .ok (name, .string value)

/-! ### Rendering -/

/-- A run's output, its error stream and its exit code. -/
structure Report where
  code : Nat
  output : String
  errors : String
  deriving Repr, DecidableEq

/-- A line about something that was reported. -/
def logLine (isWarning : Bool) (message : String) : String :=
  (if isWarning then "[WARNING] " else "[DEBUG] ") ++ message ++ "\n"

/-- The line about an event in the catalog, if it is to be told. -/
def eventLine? (verbose : Bool) (event : Catalog.Event) : Option String :=
  if verbose || event.isWarning then event.message?.map (logLine event.isWarning) else none

/-- The lines about remarks on rendering. -/
def remarkLines (verbose : Bool) (remarks : List Render.Remark) : List String :=
  remarks.filterMap fun remark =>
    if verbose || remark.isWarning then some (logLine remark.isWarning remark.message) else none

/-- The last line of a run that fails. -/
def errorLine (f : Failure) : String :=
  "Error: " ++ String.ofList (Text.trimRight f.message.toList) ++ "\n"

/-- The exit code of a run that fails. -/
def failureCode : Nat := 2

/-- A run that fails after some lines. -/
def Report.failed (lines : List String) (f : Failure) : Report :=
  ⟨failureCode, "", String.join (lines ++ [errorLine f])⟩

/-- Loads and renders a template. -/
def renderWith {m : Type → Type} [Monad m] (codecs : Codecs) (disk : Disk m) (s : Settings)
    (a : RenderArguments) (bindings : Variables) : m (Except Breakdown Report) := do
  if Path.hasNull ("/".intercalate s.directory.parts) then return .error .nullInPath
  match s.catalog with
  | .error .tooManyDigits => return .error .tooManyDigits
  | .ok c =>
    let c ← (c.request (.template a.name)).2.run ((s.store disk.current).fetch codecs disk)
      Catalog.maxJobs
    let lines := c.events.filterMap (eventLine? a.verbose)
    match c.answers with
    | (_, .ready chain) :: _ =>
      let (outcome, _) := Expr.Evaluator.new.render chain bindings
      match outcome with
      | .error fault => return .error fault.breakdown
      | .ok output =>
        return .ok ⟨0, output.text, String.join (lines ++ remarkLines a.verbose output.remarks)⟩
    | (_, .failed error) :: _ => return .ok (.failed lines (.load a.name error))
    | _ => return .error .tooDeep

/-- The report on a run that stops before it renders. -/
def Stop.report : Stop → Except Breakdown Report
  | .failure f => .ok (.failed [] f)
  | .breakdown b => .error b

/-- Runs the subcommand `render`. -/
def render {m : Type → Type} [Monad m] (reader : Data.Reader) (codecs : Codecs) (disk : Disk m)
    (environment? : Option String) (a : RenderArguments) : m (Except Breakdown Report) := do
  match ← resolveSettings reader disk environment? a with
  | .error stop => return stop.report
  | .ok s =>
    match ← loadVariables reader disk a.vars? with
    | .error stop => return stop.report
    | .ok bindings =>
      match a.assignments.mapM readAssignment with
      | .error failure => return .ok (.failed [] failure)
      | .ok assigned => renderWith codecs disk s a (bindings ++ assigned)

/-! ### Texts of the program's own -/

/-- The name of the program. -/
def programName : String := "chaintpl"

/-- What the program says about its version. -/
def versionLine : String := programName ++ " 0.1.0\n"

/-- How the program is used. -/
def usage : String :=
  "usage: " ++ programName ++ " [-h] [-v] render [-h] [--root DIR] [--config FILE]\n" ++
  "                [--vars FILE] [--set KEY=VALUE] [--verbose] name\n"

/-! ### The whole program -/

/-- Runs the program with its arguments.  The report is what it writes in the end, and its exit
    code. -/
def run {m : Type → Type} [Monad m] (reader : Data.Reader) (codecs : Codecs) (disk : Disk m)
    (environment? : Option String) (arguments : List String) : m (Except Breakdown Report) :=
  match Request.read arguments with
  | .help => return .ok ⟨0, usage, ""⟩
  | .version => return .ok ⟨0, versionLine, ""⟩
  | .misuse => return .ok ⟨failureCode, "", usage⟩
  | .render a => render reader codecs disk environment? a

end TextTemplate.Command
