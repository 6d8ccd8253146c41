import TextTemplate.Proofs.Catalog.SoleRequest
import TextTemplate.Proofs.Chain.Remembering
import TextTemplate.Proofs.Command.Sources
import TextTemplate.Proofs.Data.Objects

/-! # What a run prints

  A run that succeeds prints the text of the template's chain of ancestors, as the
  store has them, with the variables that it is given (`Prints`).  A run that fails
  prints nothing but lines on the error stream, the last of which tells the failure.

  The steps before rendering keep to what is asked for (`Resolves`,
  `GivesVariables`, `Assigns`).  What is left is one request to a new catalog, of
  which `settles_of_run` says how it is answered, and one rendering with a new
  evaluator, which makes no difference.
-/

namespace TextTemplate.Command

section

variable (reader : Data.Reader) (codecs : Codecs) (tree : FileTree)
  (environment? : Option String) (a : RenderArguments)

/-- The output of a run: the text of the chain of the named template in the template directory, with
    the variables of the file and those that are assigned. -/
def Prints (output : String) : Prop :=
  ∃ s named assigned, Resolves reader tree environment? a s ∧ GivesVariables reader tree a named ∧
    List.Forall₂ Assigns a.assignments assigned ∧
    (∀ name, (Scope.ofPairs (named ++ assigned)).find? name
      = ((assigned.reverse.find? (·.1 == name)).or (named.find? (·.1 == name))).map (·.2)) ∧
    ∃ (chain : Chain) (made : Render.Output),
      Catalog.Lineage s.rules (storeOf codecs tree s) a.name chain.layers ∧
      chain.render (named ++ assigned) = .ok made ∧ output = made.text

/-- What a run that fails leaves on the error stream: lines about what has been reported, and then
    the failure. -/
def Tells (f : Failure) (errors : String) : Prop :=
  ∃ lines : List String, (∀ line ∈ lines, ∃ isWarning message, line = logLine isWarning message) ∧
    errors = String.join
      (lines ++ ["Error: " ++ String.ofList (Text.trimRight f.message.toList) ++ "\n"])

end

variable {reader : Data.Reader} {codecs : Codecs} {tree : FileTree}
  {environment? : Option String} {a : RenderArguments}

/-- The settings of a run have a time limit under which something is waited for. -/
theorem Resolves.waits {s : Settings} (h : Resolves reader tree environment? a s) :
    ∃ limit?, s.limit? = .ok limit? ∧ ∀ limit, limit? = some limit → limit.patience ≠ .none := by
  obtain ⟨path, found, -, hload, hroot⟩ := h
  obtain ⟨limit?, hlimit, hwaits⟩ := Settings.waits_of_load hload
  have hsame : s.limit? = found.limit? := by
    rcases hroot with ⟨-, rfl⟩ | ⟨root, -, -, rfl⟩
    · rfl
    · rfl
  exact ⟨limit?, hsame.trans hlimit, hwaits⟩

/-- The text that an evaluator renders is the text of the chain. -/
theorem text_of_render {chain : Chain} {bindings : Variables} {output : Render.Output}
    (h : (Expr.Evaluator.new.render chain bindings).1 = .ok output) :
    ∃ made, chain.render bindings = .ok made ∧ output.text = made.text := by
  have hsame := (Expr.Evaluator.sound_new.render chain bindings).1
  rw [h] at hsame
  cases hmade : chain.render bindings with
  | error fault =>
    rw [hmade] at hsame
    cases hsame
  | ok made =>
    rw [hmade] at hsame
    have hquiet : output.quiet = made.quiet := Except.ok.inj hsame
    exact ⟨made, rfl, show output.quiet.text = _ from congrArg (·.text) hquiet⟩

/-- The lines about events are such lines. -/
theorem logLine_of_eventLine? {verbose : Bool} {event : Catalog.Event} {line : String}
    (h : eventLine? verbose event = some line) :
    ∃ isWarning message, line = logLine isWarning message := by
  unfold eventLine? at h
  split at h
  · obtain ⟨message, -, rfl⟩ := Option.map_eq_some_iff.1 h
    exact ⟨_, message, rfl⟩
  · cases h

/-- With settings and variables at hand, a run prints the text of the template's chain, or it fails
    as the template does. -/
theorem renderWith_report {s : Settings} {limit? : Option TimeLimit} {bindings : Variables}
    {report : Report} (hlimit : s.limit? = .ok limit?)
    (hwaits : ∀ limit, limit? = some limit → limit.patience ≠ .none)
    (h : Id.run (renderWith codecs tree.disk s a bindings) = .ok report) :
    (report.code = 0 ∧ ∃ (chain : Chain) (made : Render.Output),
      Catalog.Lineage s.rules (storeOf codecs tree s) a.name chain.layers ∧
      chain.render bindings = .ok made ∧ report.output = made.text) ∨
    ∃ error, Catalog.FailsWith s.rules limit? (storeOf codecs tree s) a.name error ∧
      report.code = 2 ∧ report.output = "" ∧ Tells (.load a.name error) report.errors := by
  have hcatalog : s.catalog = .ok (Catalog.empty s.rules limit?) := by
    unfold Settings.catalog
    rw [hlimit]
    rfl
  unfold renderWith at h
  split at h
  · cases h
  · simp only [hcatalog] at h
    generalize hrun : Catalog.run (FileStore.fetch codecs tree.disk (s.store tree.disk.current))
      Catalog.maxJobs ((Catalog.empty s.rules limit?).request (.template a.name)).2 = c at h
    -- Whatever the run of the catalog leaves, all its answers are about the one request.
    have hsettles : ∀ r outcome, (r, outcome) ∈ (Id.run c).answers →
        outcome.Settles s.rules limit? (storeOf codecs tree s) a.name := by
      intro r outcome hmem
      rw [← hrun] at hmem
      exact Catalog.settles_of_run hwaits hmem
    dsimp only [bind, Id.run] at h hsettles
    split at h
    · next r chain more hanswers =>
      have hready := hsettles r (.ready chain) (by rw [hanswers]; exact List.mem_cons_self)
      cases hmade : (Expr.Evaluator.new.render chain bindings).1 with
      | error fault =>
        rw [hmade] at h
        cases h
      | ok output =>
        rw [hmade] at h
        obtain rfl := Except.ok.inj h
        obtain ⟨made, hrender, htext⟩ := text_of_render hmade
        exact .inl ⟨rfl, chain, made, hready, hrender, htext⟩
    · next r error more hanswers =>
      have hfailed := hsettles r (.failed error) (by rw [hanswers]; exact List.mem_cons_self)
      obtain rfl := Except.ok.inj h
      refine .inr ⟨error, hfailed, rfl, rfl, _, fun line hline => ?_, rfl⟩
      obtain ⟨event, -, hevent⟩ := List.mem_filterMap.1 hline
      exact logLine_of_eventLine? hevent
    · cases h

/-- A run that stops before it renders fails, or breaks down. -/
theorem Stop.Holds.report {stop : Stop} {report : Report}
    (hstop : stop.Holds reader codecs tree environment? a) (h : stop.report = .ok report) :
    ∃ f, f.Holds reader codecs tree environment? a ∧ report.code = 2 ∧ report.output = "" ∧
      Tells f report.errors := by
  cases stop with
  | breakdown b => cases h
  | failure f =>
    obtain rfl := Except.ok.inj h
    exact ⟨f, hstop, rfl, rfl, [], nofun, rfl⟩

/-- A rendering that comes to an end prints the text of its template, or it fails. -/
theorem render_report (hreader : reader.NamesOnce) {report : Report}
    (h : Id.run (render reader codecs tree.disk environment? a) = .ok report) :
    (report.code = 0 ∧ Prints reader codecs tree environment? a report.output) ∨
    ∃ f, Failure.Holds reader codecs tree environment? a f ∧ report.code = 2 ∧
      report.output = "" ∧ Tells f report.errors := by
  have hsettings := resolveSettings_gives reader codecs tree environment? a
  have hvariables := loadVariables_gives hreader codecs tree environment? a
  have hassignments := assignments_give reader codecs tree environment? a fun _ => id
  unfold render at h
  generalize resolveSettings reader tree.disk environment? a = resolved at h hsettings
  generalize loadVariables reader tree.disk a.vars? = loaded at h hvariables
  dsimp only [bind, Id.run] at h hsettings hvariables
  -- Settings, variables and assignments are made in this order, and the first failure is told.
  cases resolved with
  | error stop => exact .inr (Stop.Holds.report hsettings h)
  | ok s =>
    cases loaded with
    | error stop => exact .inr (Stop.Holds.report hvariables h)
    | ok named =>
      dsimp only at h
      cases hassigned : a.assignments.mapM readAssignment with
      | error f =>
        rw [hassigned] at h hassignments
        obtain rfl := Except.ok.inj h
        exact .inr ⟨f, hassignments, rfl, rfl, [], nofun, rfl⟩
      | ok assigned =>
        rw [hassigned] at h hassignments
        obtain ⟨limit?, hlimit, hwaits⟩ := Resolves.waits hsettings
        rcases renderWith_report hlimit hwaits h with ⟨hcode, hprints⟩ | ⟨error, hfails, hreport⟩
        · have hfind := find?_append_assigned (GivesVariables.nodup hvariables) assigned
          exact .inl
            ⟨hcode, s, named, assigned, hsettings, hvariables, hassignments, hfind, hprints⟩
        · exact .inr ⟨.load a.name error, ⟨rfl, s, limit?, hsettings, hlimit, hfails⟩, hreport⟩

/-- With arguments that ask for a template, a run of the program that comes to an end writes the
    text of this template and gives zero, or it fails: then it gives two and writes no output, and
    tells what is so. -/
theorem render_prints_or_tells (hreader : reader.NamesOnce) {arguments : List String}
    (hread : Request.read arguments = .render a) {report : Report}
    (h : Id.run (run reader codecs tree.disk environment? arguments) = .ok report) :
    (report.code = 0 ∧ Prints reader codecs tree environment? a report.output) ∨
    ∃ f, Failure.Holds reader codecs tree environment? a f ∧ report.code = 2 ∧
      report.output = "" ∧ Tells f report.errors := by
  unfold run at h
  rw [hread] at h
  exact render_report hreader h

/-- A directory with a template, settings and variables. -/
def greetingTree : FileTree :=
  ⟨["w"], [
    (["w", "t", "a.txt"], some "{{ x }}, {{ y }}!".toUTF8.toList),
    (["w", "settings"],
      some "\x7b\"suffix\": \".txt\", \"template_dir\": \"none\"\x7d".toUTF8.toList),
    (["w", "variables"], some "\x7b\"x\": \"hello\", \"y\": \"you\"\x7d".toUTF8.toList)]⟩

/-- The template is asked for in another directory than the settings name, with one variable of the
    file assigned anew, and that twice. -/
def greetingArguments : List String :=
  ["render", "--set", "y=1", "--root=t", "a", "--config=", "--vars", "variables",
    "--set", " y =a=b"]

/-- What the arguments ask for. -/
def greetingRequest : RenderArguments :=
  ⟨"a", some "t", some "", some "variables", [some "y=1", some " y =a=b"], false⟩

/-- The run writes the greeting, with the variable that was assigned last. -/
theorem greeting_printed :
    Data.Reader.NamesOnce Data.json ∧
    Request.read greetingArguments = .render greetingRequest ∧
    Id.run (run Data.json Codecs.basic greetingTree.disk (some "settings") greetingArguments)
      = .ok ⟨0, "hello, a=b!", ""⟩ ∧
    Prints Data.json Codecs.basic greetingTree (some "settings") greetingRequest
      "hello, a=b!" := by
  have hread : Request.read greetingArguments = .render greetingRequest := by
    decide +kernel
  have hrun :
      Id.run (run Data.json Codecs.basic greetingTree.disk (some "settings") greetingArguments)
        = .ok ⟨0, "hello, a=b!", ""⟩ := by
    decide +kernel
  refine ⟨Data.namesOnce_json, hread, hrun, ?_⟩
  rcases render_prints_or_tells Data.namesOnce_json hread hrun with ⟨-, hprints⟩ | ⟨f, -, hcode, -⟩
  · exact hprints
  · cases hcode

end TextTemplate.Command
