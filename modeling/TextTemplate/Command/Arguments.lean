import TextTemplate.Text.DecimalDigit

/-! # Arguments

  What the command line asks for.  The arguments are first marked: words,
  options, and the separator `--`, after which all are words.  An option may be
  shortened as long as it stays unique, and may carry its value after `=`.  Then
  the marks are taken from left to right, by the program itself up to its
  subcommand and by the subcommand from there on.

  The separator is never a value: an option that carries it is given without one.
-/

namespace TextTemplate.Command

/-! ### Options -/

/-- What an option is for. -/
inductive OptionKind where
  | help | version | verbose | root | config | vars | assign
  deriving Repr, DecidableEq

/-- Does the option need a value? -/
def OptionKind.takesValue : OptionKind → Bool
  | .help | .version | .verbose => false
  | .root | .config | .vars | .assign => true

/-- Spellings of options. -/
abbrev Spellings := List (String × OptionKind)

/-- The options of the program itself. -/
def programOptions : Spellings :=
  [("-h", .help), ("--help", .help), ("-v", .version), ("--version", .version)]

/-- The options of the subcommand `render`. -/
def renderOptions : Spellings :=
  [("-h", .help), ("--help", .help), ("--root", .root), ("--config", .config), ("--vars", .vars),
   ("--set", .assign), ("--verbose", .verbose)]

/-! ### Marks -/

/-- An argument, recognised. -/
inductive Mark where
  | word (text : String)
  | separator
  /-- An option in one of its spellings, with the value that it carries. -/
  | option (o : OptionKind) (spelling : String) (value? : Option String)
  /-- What looks like an option and is none. -/
  | unknown
  deriving Repr, DecidableEq

/-- An argument cut at its first `=`. -/
def cutAtEquals (s : String) : String × Option String :=
  let before := s.toList.takeWhile (· != '=')
  let after := s.toList.drop before.length
  (String.ofList before, if after.isEmpty then none else some (String.ofList (after.drop 1)))

/-- A text without the line feed that ends it. -/
def dropLineFeed (s : List Char) : List Char :=
  if s.getLast? = some '\n' then s.dropLast else s

/-- Is the text a negative number, whole or with a point?  One line feed may follow it. -/
def isNegativeNumber (s : String) : Bool :=
  match dropLineFeed s.toList with
  | '-' :: rest =>
    let whole := rest.takeWhile Text.isDecimalDigit
    match rest.drop whole.length with
    | [] => !whole.isEmpty
    | '.' :: places => !places.isEmpty && places.all Text.isDecimalDigit
    | _ => false
  | _ => false

/-- The options that an argument may stand for if it is no full spelling, each with the value that
    it would carry.  A long option may be cut short; one of a single letter may have its value
    directly behind it. -/
def candidates (spellings : Spellings) (argument : String) : List Mark :=
  if argument.startsWith "--" then
    let (name, value?) := cutAtEquals argument
    (spellings.filter (·.1.startsWith name)).map fun (spelling, o) => .option o spelling value?
  else
    let letter := String.ofList (argument.toList.take 2)
    let behind := String.ofList (argument.toList.drop 2)
    (spellings.filter (·.1 == letter)).map fun (spelling, o) => .option o spelling (some behind)

/-- The mark of an argument before a separator; none if it could be several options. -/
def markOf? (spellings : Spellings) (argument : String) : Option Mark :=
  if !argument.startsWith "-" then some (.word argument)
  else match spellings.lookup argument with
    | some o => some (.option o argument none)
    | none =>
      if argument = "-" then some (.word argument)
      else
        let (name, value?) := cutAtEquals argument
        match value?, spellings.lookup name with
        | some value, some o => some (.option o name (some value))
        | _, _ => match candidates spellings argument with
          | [one] => some one
          | [] =>
            if isNegativeNumber argument || argument.toList.contains ' ' then some (.word argument)
            else some .unknown
          | _ => none

/-- The marks of all arguments. -/
def marks? (spellings : Spellings) : List String → Option (List Mark)
  | [] => some []
  | "--" :: rest => some (.separator :: rest.map .word)
  | argument :: rest => do
    let mark ← markOf? spellings argument
    return mark :: (← marks? spellings rest)

/-! ### What is asked for -/

/-- What `render` is given. -/
structure RenderArguments where
  name : String
  root? : Option String
  config? : Option String
  vars? : Option String
  /-- The values of the option for assignments, in their order; one may be given without. -/
  assignments : List (Option String)
  verbose : Bool
  deriving Repr, DecidableEq

/-- What the command line asks for. -/
inductive Request where
  | help
  | version
  | render (arguments : RenderArguments)
  /-- Nothing that the program offers. -/
  | misuse
  deriving Repr, DecidableEq

/-- Options of a single letter may stand together.  Do the letters name options? -/
def areLetters (spellings : Spellings) (letters : String) : Bool :=
  letters.toList.all fun c => (spellings.lookup (String.ofList ['-', c])).isSome

/-- Is the value that an option without values carries a row of further options? -/
def carriesOptions (spellings : Spellings) (spelling value : String) : Bool :=
  !spelling.startsWith "--" && !value.isEmpty && areLetters spellings value

/-- The value in the text that an option carries. -/
def carriedValue? (text : String) : Option String := if text = "--" then none else some text

/-- What has been read of the arguments of `render`. -/
structure Draft where
  name? : Option String
  root? : Option String
  config? : Option String
  vars? : Option String
  assignments : List (Option String)
  verbose : Bool
  /-- Was there anything that has no place? -/
  surplus : Bool
  deriving Repr, DecidableEq

namespace Draft

/-- Nothing has been read. -/
def empty : Draft := ⟨none, none, none, none, [], false, false⟩

/-- Takes what an option is given in place of what it was given before. -/
def setOption (d : Draft) (o : OptionKind) (value? : Option String) : Draft :=
  match o with
  | .root => { d with root? := value? }
  | .config => { d with config? := value? }
  | .vars => { d with vars? := value? }
  | .assign => { d with assignments := d.assignments ++ [value?] }
  | _ => d

/-- What the arguments ask for in the end. -/
def finish (d : Draft) : Request :=
  match d.name? with
  | none => .misuse
  | some name =>
    if d.surplus then .misuse
    else .render ⟨name, d.root?, d.config?, d.vars?, d.assignments, d.verbose⟩

/-- Takes the marks of the arguments of `render`.  The name may have a separator on either side. -/
def take (d : Draft) : List Mark → Request
  | [] => d.finish
  | .unknown :: rest => { d with surplus := true }.take rest
  | .separator :: .word name :: rest =>
    if d.name?.isNone then { d with name? := some name }.take rest
    else { d with surplus := true }.take rest
  | .separator :: rest => { d with surplus := true }.take rest
  | .word name :: .separator :: rest =>
    if d.name?.isNone then { d with name? := some name }.take rest
    else { d with surplus := true }.take rest
  | .word name :: rest =>
    if d.name?.isNone then { d with name? := some name }.take rest
    else { d with surplus := true }.take rest
  | .option o _ none :: .word value :: rest =>
    if o.takesValue then (d.setOption o (some value)).take rest
    else if o = .verbose then { d with verbose := true }.take (.word value :: rest)
    else .help
  | .option o _ none :: rest =>
    if o.takesValue then .misuse
    else if o = .verbose then { d with verbose := true }.take rest
    else .help
  | .option o spelling (some value) :: rest =>
    if o.takesValue then (d.setOption o (carriedValue? value)).take rest
    else if carriesOptions renderOptions spelling value then .help
    else .misuse
termination_by marks => marks.length

end Draft

/-- What the arguments of a subcommand ask for. -/
def readSubcommand (name : String) (arguments : List String) : Request :=
  if name = "render" then
    match marks? renderOptions arguments with
    | some marks => Draft.empty.take marks
    | none => .misuse
  else .misuse

/-- Takes the program's own options, up to the first word, which names the subcommand.  Behind
    something unknown nothing can be rendered any more. -/
def readProgram (surplus : Bool) : List Mark → List String → Request
  | .unknown :: marks, _ :: arguments => readProgram true marks arguments
  | .word name :: _, _ :: arguments =>
    match readSubcommand name arguments with
    | .render r => if surplus then .misuse else .render r
    | request => request
  | .option o spelling value? :: _, _ =>
    let accepted := match value? with
      | none => true
      | some value => carriesOptions programOptions spelling value
    if accepted then (if o = .version then .version else .help) else .misuse
  | _, _ => .misuse

/-- What the arguments of the program ask for. -/
def Request.read (arguments : List String) : Request :=
  match marks? programOptions arguments with
  | some marks => readProgram false marks arguments
  | none => .misuse

end TextTemplate.Command
