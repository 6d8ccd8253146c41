import TextTemplate.Command.Run
import TextTemplate.Proofs.Catalog.BrokenLine
import TextTemplate.Proofs.Expr.Spacing
import TextTemplate.Proofs.Settings.Following
import TextTemplate.Proofs.Value.Pairs

/-! # Where a run takes its settings and variables from

  What the command line and the environment ask for is told by relations that do
  not mention how it is looked up: which file the settings are those of
  (`SettingsFile`), which variables a file gives (`GivesVariables`) and which of
  them an argument assigns (`Assigns`).  Each step of a run keeps to them, or it
  fails and its failure is as it is told (`Failure.Holds`).

  The last assignment of a name counts, and any before the file
  (`find?_append_assigned`).
-/

namespace TextTemplate

/-! ### Bindings -/

namespace Bindings

/-- The last pair of a name counts. -/
theorem find?_ofPairs (pairs : List (String × Value)) (name : String) :
    (ofPairs pairs).find? name = (pairs.reverse.find? (·.1 == name)).map (·.2) := by
  unfold ofPairs find?
  rw [Pairs.find?_foldl_put]

end Bindings

namespace Command

/-! ### Settings -/

/-- A text that is not given counts as missing, and so does an empty one. -/
def IsMissing (text? : Option String) : Prop := text? = none ∨ text? = some ""

theorem given?_eq_none_iff {text? : Option String} : given? text? = none ↔ IsMissing text? := by
  cases text? with
  | none => simp [given?, IsMissing]
  | some text => simp [given?, IsMissing]

theorem given?_eq_some_iff {text? : Option String} {text : String} :
    given? text? = some text ↔ text? = some text ∧ text ≠ "" := by
  rw [given?, Option.filter_eq_some_iff]
  simp

section

variable (reader : Data.Reader) (codecs : Codecs) (tree : FileTree)
  (environment? : Option String) (a : RenderArguments)

/-- A file for the settings is asked for: by the option, or else by the environment. -/
inductive AsksForFile : Path → Prop
  | option {text : String} : a.config? = some text → text ≠ "" → AsksForFile (.ofText text)
  | environment {text : String} : IsMissing a.config? → environment? = some text → text ≠ "" →
      AsksForFile (.ofText text)

/-- The settings are those of the file that is asked for, or else of the one in the working
    directory, which need not be there. -/
inductive SettingsFile : Path → Prop
  | asked {path : Path} {bytes : List UInt8} : AsksForFile environment? a path →
      tree.disk.look path = .file bytes → SettingsFile path
  | default : IsMissing a.config? → IsMissing environment? →
      SettingsFile (.ofRoot (tree.current ++ ["chaintpl.yaml"]))

/-- The settings of a run: those of the file, with the directory that the command line names. -/
def Resolves (s : Settings) : Prop :=
  ∃ path found, SettingsFile tree environment? a path ∧
    Settings.load reader tree.disk path = .ok found ∧
    (IsMissing a.root? ∧ s = found ∨
      ∃ root, a.root? = some root ∧ root ≠ "" ∧ s = { found with directory := .ofText root })

/-! ### Variables -/

/-- A file of variables is asked for. -/
def AsksForVariables (path : Path) : Prop :=
  ∃ text, a.vars? = some text ∧ text ≠ "" ∧ path = .ofText text

/-- The file of variables is there, with this text. -/
def VariablesText (path : Path) (text : String) : Prop :=
  AsksForVariables a path ∧ ∃ bytes, tree.disk.look path = .file bytes ∧
    Text.ofBytes .utf8 bytes = .ok text

/-- The variables are the entries of the file whose keys are names; there are none if no file is
    asked for, or if it holds no data. -/
inductive GivesVariables : Variables → Prop
  | missing : IsMissing a.vars? → GivesVariables []
  | empty {path : Path} {text : String} : VariablesText tree a path text →
      reader text = .ok .null → GivesVariables []
  | mapping {path : Path} {text : String} {entries : List (Value × Value)} {named : Variables} :
      VariablesText tree a path text → reader text = .ok (.mapping entries) →
      (∀ name v, (name, v) ∈ named ↔ (.string name, v) ∈ entries) → (named.map (·.1)).Nodup →
      GivesVariables named

/-- An argument assigns a variable: what stands before the first `=` is its name, but for white
    space around it, and what stands behind is its value. -/
inductive Assigns : Option String → String × Value → Prop
  | mk {key value : String} : '=' ∉ key.toList → Text.trim key ≠ "" →
      Assigns (some (key ++ "=" ++ value)) (Text.trim key, .string value)

/-! ### Failures -/

/-- What a store holds, as a run sees it. -/
def storeOf (s : Settings) (name : String) : Fetched :=
  (Id.run ((s.store tree.current).fetch codecs tree.disk name)).fetched

/-- What a failure tells is so. -/
def Failure.Holds : Failure → Prop
  | .noConfigFile path => AsksForFile environment? a path ∧
      (tree.disk.look path = .absent ∨ tree.disk.look path = .directory)
  | .settings path problem => SettingsFile tree environment? a path ∧
      Settings.load reader tree.disk path = .error (.invalid problem)
  | .noVariablesFile path => AsksForVariables a path ∧
      (tree.disk.look path = .absent ∨ tree.disk.look path = .directory)
  | .malformedVariables path message => ∃ text className, VariablesText tree a path text ∧
      reader text = .error (.malformed className message)
  | .variablesNoMapping path => ∃ text data, VariablesText tree a path text ∧
      reader text = .ok data ∧ data ≠ .null ∧ ∀ entries, data ≠ .mapping entries
  | .noAssignment none => none ∈ a.assignments
  | .noAssignment (some text) => some text ∈ a.assignments ∧ '=' ∉ text.toList
  | .emptyKey text => some text ∈ a.assignments ∧ ∃ key value,
      text = key ++ "=" ++ value ∧ '=' ∉ key.toList ∧ Text.trim key = ""
  | .load template error => template = a.name ∧ ∃ s limit?, Resolves reader tree environment? a s ∧
      s.limit? = .ok limit? ∧
      Catalog.FailsWith s.rules limit? (storeOf codecs tree s) template error

/-- Of a run that stops, only a failure tells something. -/
def Stop.Holds : Stop → Prop
  | .failure f => f.Holds reader codecs tree environment? a
  | .breakdown _ => True

end

/-! ### Steps of a run -/

section Steps

variable {reader : Data.Reader} {codecs : Codecs} {tree : FileTree}
  {environment? : Option String} {a : RenderArguments}

/-- The path that is looked up is the one that is asked for, if any is. -/
theorem askedFile?_cases (environment? : Option String) (a : RenderArguments) :
    askedFile? a.config? environment? = none ∧ IsMissing a.config? ∧ IsMissing environment? ∨
    ∃ path, askedFile? a.config? environment? = some path ∧ AsksForFile environment? a path := by
  unfold askedFile?
  cases hoption : given? a.config? with
  | some text =>
    obtain ⟨hconfig, hne⟩ := given?_eq_some_iff.1 hoption
    exact .inr ⟨.ofText text, rfl, .option hconfig hne⟩
  | none =>
    have hmissing := given?_eq_none_iff.1 hoption
    cases henvironment : given? environment? with
    | some text =>
      obtain ⟨htext, hne⟩ := given?_eq_some_iff.1 henvironment
      exact .inr ⟨.ofText text, rfl, .environment hmissing htext hne⟩
    | none => exact .inl ⟨rfl, hmissing, given?_eq_none_iff.1 henvironment⟩

/-- The settings of a file are the run's, but for the directory that the command line names. -/
theorem loaded_gives {path : Path} (hfile : SettingsFile tree environment? a path) :
    Settings.Gives (Resolves reader tree environment? a)
      (Stop.Holds reader codecs tree environment? a)
      (match Id.run (Settings.load reader tree.disk path) with
        | .error (.invalid problem) => .error (.failure (.settings path problem))
        | .error (.breakdown b) => .error (.breakdown b)
        | .ok s =>
          .ok ((given? a.root?).elim s fun root => { s with directory := .ofText root })) := by
  cases hload : Id.run (Settings.load reader tree.disk path) with
  | error failure =>
    cases failure with
    | invalid problem => exact ⟨hfile, hload⟩
    | breakdown b => trivial
  | ok found =>
    refine ⟨path, found, hfile, hload, ?_⟩
    cases hroot : given? a.root? with
    | none => exact .inl ⟨given?_eq_none_iff.1 hroot, rfl⟩
    | some root =>
      obtain ⟨hgiven, hne⟩ := given?_eq_some_iff.1 hroot
      exact .inr ⟨root, hgiven, hne, rfl⟩

theorem resolveSettings_gives (reader : Data.Reader) (codecs : Codecs) (tree : FileTree)
    (environment? : Option String) (a : RenderArguments) :
    Settings.Gives (Resolves reader tree environment? a)
      (Stop.Holds reader codecs tree environment? a)
      (Id.run (resolveSettings reader tree.disk environment? a)) := by
  rcases askedFile?_cases environment? a with
    ⟨hnone, hconfig, henvironment⟩ | ⟨path, hsome, hasks⟩
  · have hfile : SettingsFile tree environment? a (.ofRoot (tree.current ++ ["chaintpl.yaml"])) :=
      .default hconfig henvironment
    have hloaded := @loaded_gives reader codecs tree environment? a _ hfile
    unfold resolveSettings
    simp only [hnone]
    exact hloaded
  · unfold resolveSettings
    simp only [hsome]
    -- The path is looked up before it is loaded, and what is found there cannot change in between.
    cases hlook : tree.disk.look path with
    | absent =>
      simp only [Option.getD_some, hlook]
      exact ⟨hasks, .inl hlook⟩
    | directory =>
      simp only [Option.getD_some, hlook]
      exact ⟨hasks, .inr hlook⟩
    | file bytes =>
      have hloaded := @loaded_gives reader codecs tree environment? a _ (.asked hasks hlook)
      simp only [Option.getD_some, hlook]
      exact hloaded
    | unreadable detail =>
      simp only [Option.getD_some, hlook, Settings.load]
      trivial
    | tooLong =>
      simp only [Option.getD_some, hlook, Settings.load]
      trivial

/-- The text of a file gives its variables. -/
theorem variables_of_text (hreader : reader.NamesOnce) {path : Path} {text : String}
    (htext : VariablesText tree a path text) :
    Settings.Gives (GivesVariables reader tree a) (Stop.Holds reader codecs tree environment? a)
      (match reader text with
        | .error (.malformed _ message) => .error (.failure (.malformedVariables path message))
        | .error (.raised className) => .error (.breakdown (.reader className))
        | .ok data => variablesOf path data) := by
  cases hread : reader text with
  | error fault =>
    cases fault with
    | malformed className message => exact ⟨text, className, htext, hread⟩
    | raised className => trivial
  | ok data =>
    cases data with
    | null => exact .empty htext hread
    | mapping entries =>
      exact .mapping htext hread (fun name v => Settings.mem_named) (hreader text entries hread)
    | _ => exact ⟨text, _, htext, hread, nofun, nofun⟩

theorem loadVariables_gives (hreader : reader.NamesOnce) (codecs : Codecs) (tree : FileTree)
    (environment? : Option String) (a : RenderArguments) :
    Settings.Gives (GivesVariables reader tree a) (Stop.Holds reader codecs tree environment? a)
      (Id.run (loadVariables reader tree.disk a.vars?)) := by
  unfold loadVariables
  cases hgiven : given? a.vars? with
  | none => exact .missing (given?_eq_none_iff.1 hgiven)
  | some file =>
    obtain ⟨hfile, hne⟩ := given?_eq_some_iff.1 hgiven
    have hasks : AsksForVariables a (.ofText file) := ⟨file, hfile, hne, rfl⟩
    simp only [Option.map_some]
    cases hlook : tree.disk.look (.ofText file) with
    | absent => exact ⟨hasks, .inl hlook⟩
    | directory => exact ⟨hasks, .inr hlook⟩
    | unreadable detail => trivial
    | tooLong => trivial
    | file bytes =>
      show Settings.Gives _ _ (readVariables reader (.ofText file) bytes)
      unfold readVariables
      cases htext : Text.ofBytes .utf8 bytes with
      | error fault => trivial
      | ok text => exact variables_of_text hreader ⟨hasks, bytes, hlook, htext⟩

/-! ### Assignments -/

/-- A text that has a `=` is cut at the first one. -/
theorem cutAtEquals_cases (text : String) :
    '=' ∉ text.toList ∧ cutAtEquals text = (text, none) ∨
    ∃ before value, text = before ++ "=" ++ value ∧ '=' ∉ before.toList ∧
      cutAtEquals text = (before, some value) := by
  obtain ⟨before, after, htext, hrun, hbefore, hafter⟩ :=
    Token.takeWhile_split (· != '=') text.toList
  have hnone : '=' ∉ before := fun hmem => by simpa using hbefore _ hmem
  have hdrop : text.toList.drop before.length = after := by
    rw [htext]
    exact List.drop_left
  unfold cutAtEquals
  simp only [hrun, hdrop]
  -- The run ends at the end of the text, or at its first equals sign.
  cases after with
  | nil =>
    rw [List.append_nil] at htext
    rw [htext, ← htext, String.ofList_toList]
    exact .inl ⟨htext ▸ hnone, rfl⟩
  | cons c value =>
    obtain rfl : c = '=' := by simpa using hafter c rfl
    refine .inr ⟨String.ofList before, String.ofList value, ?_, by simpa using hnone, rfl⟩
    rw [← String.toList_inj, htext]
    simp

theorem readAssignment_gives {argument : Option String} (hmem : argument ∈ a.assignments) :
    Settings.Gives (Assigns argument) (Failure.Holds reader codecs tree environment? a)
      (readAssignment argument) := by
  cases argument with
  | none => exact hmem
  | some text =>
    rcases cutAtEquals_cases text with ⟨hnone, hcut⟩ | ⟨before, value, htext, hbefore, hcut⟩
    · simp only [readAssignment, hcut]
      exact ⟨hmem, hnone⟩
    · simp only [readAssignment, hcut]
      cases hempty : (Text.trim before).isEmpty with
      | true =>
        rw [if_pos rfl]
        exact ⟨hmem, before, value, htext, hbefore, String.isEmpty_iff.1 hempty⟩
      | false =>
        have hname : Text.trim before ≠ "" := by
          intro hname
          rw [String.isEmpty_iff.2 hname] at hempty
          cases hempty
        rw [if_neg Bool.false_ne_true, htext]
        exact .mk hbefore hname

/-- The arguments assign their variables one by one, or one of them assigns none. -/
theorem assignments_give (reader : Data.Reader) (codecs : Codecs) (tree : FileTree)
    (environment? : Option String) (a : RenderArguments) {arguments : List (Option String)}
    (hmem : ∀ argument ∈ arguments, argument ∈ a.assignments) :
    Settings.Gives (List.Forall₂ Assigns arguments)
      (Failure.Holds reader codecs tree environment? a) (arguments.mapM readAssignment) := by
  induction arguments with
  | nil => exact .nil
  | cons argument rest ih =>
    rw [List.mapM_cons]
    refine (readAssignment_gives (hmem _ List.mem_cons_self)).bind fun assigned hassigned => ?_
    refine (ih fun other hother => hmem _ (List.mem_cons_of_mem _ hother)).bind fun more hmore => ?_
    exact .cons hassigned hmore

/-- Each name stands once among the variables of a file. -/
theorem GivesVariables.nodup {named : Variables} (h : GivesVariables reader tree a named) :
    (named.map (·.1)).Nodup := by
  cases h with
  | missing | empty => exact List.nodup_nil
  | mapping _ _ _ hnodup => exact hnodup

/-- Where each name stands once, the last pair of a name is the first. -/
theorem find?_reverse {named : Variables} (h : (named.map (·.1)).Nodup) (name : String) :
    named.reverse.find? (·.1 == name) = named.find? (·.1 == name) := by
  induction named with
  | nil => rfl
  | cons v rest ih =>
    rw [List.map_cons, List.nodup_cons] at h
    rw [List.reverse_cons, List.find?_append, ih h.2, List.find?_singleton, List.find?_cons]
    by_cases hname : v.1 = name
    · have hrest : rest.find? (·.1 == name) = none := by
        apply List.find?_eq_none.2
        intro other hother heq
        refine h.1 (List.mem_map.2 ⟨other, hother, ?_⟩)
        rw [hname]
        exact beq_iff_eq.1 heq
      simp [hname, hrest]
    · have hne : (v.1 == name) = false := by simpa using hname
      simp [hne]

/-- What is assigned last counts, and any assignment before what the file gives. -/
theorem find?_append_assigned {named : Variables} (h : (named.map (·.1)).Nodup)
    (assigned : Variables) (name : String) : (Scope.ofPairs (named ++ assigned)).find? name
      = ((assigned.reverse.find? (·.1 == name)).or (named.find? (·.1 == name))).map (·.2) := by
  show (Bindings.ofPairs (named ++ assigned)).find? name = _
  rw [Bindings.find?_ofPairs, List.reverse_append, List.find?_append, find?_reverse h]

end Steps

end Command

end TextTemplate
