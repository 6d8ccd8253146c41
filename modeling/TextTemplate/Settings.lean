import TextTemplate.Breakdown
import TextTemplate.Catalog.Basic
import TextTemplate.Data.Reader
import TextTemplate.FileStore

/-! # Settings

  Where templates are, how their files and tags are read, and how long a file
  may take.  A settings file holds an object with some of the six settings;
  what it does not give has its default.  A directory in it is taken from the
  directory of the file.

  What is wrong with a file is told by the first check that fails: unknown names
  first, then one setting after the other.
-/

namespace TextTemplate

/-- The settings of a program run. -/
structure Settings where
  directory : Path
  suffix : String
  encoding : String
  strict : Bool
  duplicates : Markup.Duplicates
  /-- How many seconds a file may take. -/
  timeout? : Option Number

namespace Settings

/-- The settings where nothing is given. -/
def default : Settings := ⟨⟨.here, ["templates"]⟩, "", "utf-8", false, .last, none⟩

/-! ### What can be wrong -/

/-- What is wrong with the data of a settings file. -/
inductive Problem where
  | notAMapping
  | unknownKeys (keys : List String)
  | notAString (key : String) (found : Value)
  | notABoolean (key : String) (found : Value)
  | noSuchPolicy (found : Value)
  | notPositive (found : Value)

/-- The value that is found where another one is wanted. -/
def Problem.found? : Problem → Option Value
  | .notAMapping | .unknownKeys _ => none
  | .notAString _ found | .notABoolean _ found | .noSuchPolicy found | .notPositive found =>
    some found

/-- The exact form of a value, if it has one. -/
def shown (v : Value) : String := v.literal.toOption.getD ""

/-- What the message about a file says. -/
def Problem.message (path : Path) (problem : Problem) : String :=
  path.text ++ ": " ++ match problem with
    | .notAMapping => "YAML must be a mapping"
    | .unknownKeys keys => "unknown keys: " ++ ", ".intercalate keys
    | .notAString key found => "'" ++ key ++ "' must be a string, got " ++ shown found
    | .notABoolean key found => "'" ++ key ++ "' must be a boolean, got " ++ shown found
    | .noSuchPolicy found =>
      "'duplicate_blocks' must be one of " ++ Markup.Duplicates.names ++ ", got " ++ shown found
    | .notPositive found => "'fetch_timeout' must be a positive number, got " ++ shown found

/-- Why a settings file gives no settings. -/
inductive Failure where
  | invalid (problem : Problem)
  | breakdown (b : Breakdown)

/-- The failure that a problem is.  A message shows what is found, so it cannot be written if what
    is found cannot. -/
def Problem.failure (problem : Problem) : Failure :=
  match problem.found?.map (Value.literalWithin Value.maxShown) with
  | some (.error .tooManyDigits) => .breakdown .tooManyDigits
  | some (.error .tooDeep) => .breakdown .tooDeep
  | _ => .invalid problem

/-! ### From data to settings -/

/-- The names of the settings. -/
def keys : List String :=
  ["template_dir", "suffix", "encoding", "strict_directives", "duplicate_blocks", "fetch_timeout"]

/-- The names in the data that are those of no setting, sorted. -/
def unknownKeys (entries : List (Value × Value)) : List String :=
  let found := ((Data.named entries).map (·.1)).filter fun key => !keys.contains key
  found.mergeSort fun a b => decide (a ≤ b)

/-- A setting that is a text. -/
def stringAt (entries : List (Value × Value)) (key fallback : String) : Except Problem String :=
  match Value.find? entries (.string key) with
  | none => .ok fallback
  | some (.string s) => .ok s
  | some found => .error (.notAString key found)

/-- A setting that is true or false. -/
def boolAt (entries : List (Value × Value)) (key : String) (fallback : Bool) :
    Except Problem Bool :=
  match Value.find? entries (.string key) with
  | none => .ok fallback
  | some (.bool b) => .ok b
  | some found => .error (.notABoolean key found)

/-- The policy for blocks of one name. -/
def policyAt (entries : List (Value × Value)) (key : String) (fallback : Markup.Duplicates) :
    Except Problem Markup.Duplicates :=
  match Value.find? entries (.string key) with
  | none => .ok fallback
  | some found =>
    match found with
    | .string name => match Markup.Duplicates.ofText? name with
      | some policy => .ok policy
      | none => .error (.noSuchPolicy found)
    | _ => .error (.noSuchPolicy found)

/-- A positive number of seconds, if one is given. -/
def timeoutAt (entries : List (Value × Value)) (key : String) : Except Problem (Option Number) :=
  match Value.find? entries (.string key) with
  | none | some .null => .ok none
  | some found => match found.number? with
    | some n =>
      if n.compare? (.int 0) = some .lt ∨ n.compare? (.int 0) = some .eq then
        .error (.notPositive found)
      else .ok (some n)
    | none => .error (.notPositive found)

/-- The settings that entries give, with the directory as it is written. -/
def ofEntries (entries : List (Value × Value)) : Except Problem Settings := do
  let unknown := unknownKeys entries
  if !unknown.isEmpty then throw (.unknownKeys unknown)
  let directory ← stringAt entries "template_dir" default.directory.text
  let suffix ← stringAt entries "suffix" default.suffix
  let encoding ← stringAt entries "encoding" default.encoding
  let strict ← boolAt entries "strict_directives" default.strict
  let duplicates ← policyAt entries "duplicate_blocks" default.duplicates
  let timeout? ← timeoutAt entries "fetch_timeout"
  return ⟨.ofText directory, suffix, encoding, strict, duplicates, timeout?⟩

/-- The same settings with the directory taken from that of a file, and the time limit as a
    double. -/
def placedAt (path : Path) (s : Settings) : Except Breakdown Settings := do
  let s := { s with directory := path.parent.join s.directory }
  match s.timeout? with
  | none => return s
  | some n => match n.toFloat with
    | .ok x => return { s with timeout? := some (.float x) }
    | .error _ => throw .limitTooLarge

/-- The entries that the data of a file is made of.  False and empty data has none. -/
def entriesOf : Value → Except Failure (List (Value × Value))
  | .mapping entries => .ok entries
  | .object o => match o.truth with
    | .falsy => .ok []
    | .truthy => .error (.invalid .notAMapping)
    | .fails e => .error (.breakdown (.host e.className))
  | data => if data.isTruthy then .error (.invalid .notAMapping) else .ok []

/-- Is the value a text? -/
def isText : Value → Bool
  | .string _ => true
  | _ => false

/-- The settings that the data of a file gives.  The names in it that are unknown are told, which
    takes that all keys are texts. -/
def ofValue (path : Path) (data : Value) : Except Failure Settings := do
  let entries ← entriesOf data
  if !entries.all (isText ·.1) then throw (.breakdown .keyNotText)
  let s ← (ofEntries entries).mapError Problem.failure
  (s.placedAt path).mapError .breakdown

/-! ### From a file -/

/-- The settings that a file's bytes give. -/
def ofBytes (reader : Data.Reader) (path : Path) (bytes : List UInt8) : Except Failure Settings :=
  match Text.ofBytes .utf8 bytes with
  | .error fault => .error (.breakdown (.undecodable fault))
  | .ok text => match reader text with
    | .ok data => ofValue path data
    | .error (.malformed className message) =>
      .error (.breakdown (.malformedSettings className message))
    | .error (.raised className) => .error (.breakdown (.reader className))

/-- The settings of a file; the defaults if there is none. -/
def load {m : Type → Type} [Monad m] (reader : Data.Reader) (disk : Disk m) (path : Path) :
    m (Except Failure Settings) := do
  match ← disk.look path with
  | .absent => return ofValue path .null
  | .directory => return .error (.breakdown .directoryForFile)
  | .unreadable _ => return .error (.breakdown .unopenable)
  | .tooLong => return .error (.breakdown .pathTooLong)
  | .file bytes => return ofBytes reader path bytes

/-! ### Use -/

/-- The rules by which texts are read. -/
def rules (s : Settings) : Markup.Rules := ⟨s.strict, s.duplicates⟩

/-- The time limit for files. -/
def limit? (s : Settings) : Except TooManyDigits (Option TimeLimit) :=
  match s.timeout? with
  | none => .ok none
  | some seconds => (TimeLimit.ofSeconds seconds).map some

/-- An empty catalog with these settings. -/
def catalog (s : Settings) : Except TooManyDigits Catalog :=
  s.limit?.map (Catalog.empty s.rules)

/-- The store of the template directory. -/
def store (s : Settings) (current : List String) : FileStore :=
  .ofDirectory current s.directory s.suffix s.encoding

end Settings

end TextTemplate
