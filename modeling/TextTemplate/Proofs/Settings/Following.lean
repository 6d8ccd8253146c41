import TextTemplate.Data.Read
import TextTemplate.Proofs.Number.Double
import TextTemplate.Proofs.Path.Normal
import TextTemplate.Proofs.Value.Text
import TextTemplate.Settings

/-! # Settings follow their file

  Every check of a setting is told by what it lets through and by what is wrong
  where it stops (`Gives`), and the checks are put together one after the other
  (`Gives.bind`).  So settings have for each name what the file gives for it, or
  else the default, and a problem is told only where there is one.

  What the checks let through cannot always be used: a whole number of seconds may
  be beyond the largest double.  And what is found in the wrong place cannot always be
  shown, since it may have a number of too many digits or be nested too deep.

  All this is about the entries of a file, whatever reader has found them in it.
-/

namespace TextTemplate.Settings

/-! ### What a check gives -/

/-- A result is good, or its failure is explained. -/
def Gives {ε α : Type} (good : α → Prop) (explained : ε → Prop) : Except ε α → Prop
  | .ok a => good a
  | .error e => explained e

theorem Gives.bind {ε α β : Type} {good : α → Prop} {good' : β → Prop} {explained : ε → Prop}
    {x : Except ε α} {f : α → Except ε β} (hx : Gives good explained x)
    (hf : ∀ a, good a → Gives good' explained (f a)) : Gives good' explained (x >>= f) := by
  cases x with
  | ok a => exact hf a hx
  | error e => exact hx

theorem Gives.mono {ε α : Type} {good good' : α → Prop} {explained : ε → Prop} {x : Except ε α}
    (hx : Gives good explained x) (hgood : ∀ a, good a → good' a) : Gives good' explained x := by
  cases x with
  | ok a => exact hgood a hx
  | error e => exact hx

theorem Gives.mapError {ε ε' α : Type} {good : α → Prop} {explained : ε → Prop}
    {explained' : ε' → Prop} {x : Except ε α} {f : ε → ε'} (hx : Gives good explained x)
    (hf : ∀ e, explained e → explained' (f e)) : Gives good explained' (x.mapError f) := by
  cases x with
  | ok a => exact hx
  | error e => exact hf e hx

/-! ### What a file gives -/

/-- A setting is what the file gives under its name, or else the default. -/
def Takes {α : Type} (entries : List (Value × Value)) (key : String) (asValue : α → Value)
    (fallback a : α) : Prop :=
  match Value.find? entries (.string key) with
  | none => a = fallback
  | some found => found = asValue a

/-- The names of the settings that are texts. -/
def textKeys : List String := ["template_dir", "suffix", "encoding"]

/-- What a problem tells is so. -/
def Problem.Holds (entries : List (Value × Value)) : Problem → Prop
  | .notAMapping => False
  | .unknownKeys names =>
    names ≠ [] ∧ ∀ name, name ∈ names ↔ name ∉ keys ∧ ∃ v, (.string name, v) ∈ entries
  | .notAString key found =>
    key ∈ textKeys ∧ Value.find? entries (.string key) = some found ∧ ∀ s, found ≠ .string s
  | .notABoolean key found =>
    key = "strict_directives" ∧ Value.find? entries (.string key) = some found ∧
      ∀ b, found ≠ .bool b
  | .noSuchPolicy found =>
    Value.find? entries (.string "duplicate_blocks") = some found ∧
      ∀ policy : Markup.Duplicates, found ≠ .string policy.text
  | .notPositive found =>
    Value.find? entries (.string "fetch_timeout") = some found ∧ found ≠ .null ∧
      ∀ n, found = .ofNumber n →
        n.compare? (.int 0) = some .lt ∨ n.compare? (.int 0) = some .eq

/-- What a failure tells is so.  Of what breaks down, only a time limit without a double and a found
    value that cannot be shown are possible. -/
def Failure.Holds (entries : List (Value × Value)) : Failure → Prop
  | .invalid problem =>
    problem.Holds entries ∧ ∀ v, problem.found? = some v → ∃ text, v.literal = .ok text
  | .breakdown .limitTooLarge =>
    ∃ n : Nat, Value.find? entries (.string "fetch_timeout") = some (.int n) ∧
      2 ^ 1024 - 2 ^ 970 ≤ n
  | .breakdown .tooManyDigits =>
    ∃ problem : Problem, problem.Holds entries ∧
      ∃ v, problem.found? = some v ∧ v.literal = .error .tooManyDigits
  | .breakdown .tooDeep =>
    ∃ problem : Problem, problem.Holds entries ∧
      ∃ v, problem.found? = some v ∧ v.NestedBeyond Value.maxShown
  | .breakdown _ => False

/-- The time limit that a value gives: none, the double itself, or the double that is as near to a
    whole number as any.  It is positive, unless the double is no number. -/
inductive GivesLimit : Value → Option Number → Prop
  | absent : GivesLimit .null none
  | double (x : Float) (h : Number.compare? (.float x) (.int 0) = some .gt ∨ x.isNaN = true) :
      GivesLimit (.float x) (some (.float x))
  | whole (n : Nat) (x : Float) (hfinite : x.isNaN = false ∧ x.isInf = false)
      (hpositive : Number.compare? (.float x) (.int 0) = some .gt)
      (hnearest : ∀ y : Float,
        |(Binary64.ofFloat x).value - n| ≤ |(Binary64.ofFloat y).value - n|) :
      GivesLimit (.int n) (some (.float x))

/-- The settings are those that the entries of a file at the path give. -/
structure Follows (path : Path) (entries : List (Value × Value)) (s : Settings) : Prop where
  /-- A directory that does not start at the root is one in the directory of the file. -/
  directory : ∃ text, Takes entries "template_dir" .string "templates" text ∧
    s.directory = if text.toList.head? = some '/' then .ofText text
      else ⟨path.parent.start, path.parent.parts ++ Path.namesIn text.toList⟩
  suffix : Takes entries "suffix" .string "" s.suffix
  encoding : Takes entries "encoding" .string "utf-8" s.encoding
  strict : Takes entries "strict_directives" .bool false s.strict
  duplicates : Takes entries "duplicate_blocks" (fun policy => .string policy.text) .last
    s.duplicates
  /-- The name of the policy is one that templates can be read with. -/
  policy : Markup.Duplicates.ofText? s.duplicates.text = some s.duplicates
  limit : GivesLimit ((Value.find? entries (.string "fetch_timeout")).getD .null) s.timeout?

/-! ### One setting -/

section OneSetting

variable {entries : List (Value × Value)}

theorem mem_named {name : String} {v : Value} :
    (name, v) ∈ Data.named entries ↔ (.string name, v) ∈ entries := by
  rw [Data.named, List.mem_filterMap]
  constructor
  · rintro ⟨⟨key, found⟩, hentry, hname⟩
    cases key with
    | string other =>
      cases hname
      exact hentry
    | _ => cases hname
  · exact fun hentry => ⟨_, hentry, rfl⟩

theorem mem_unknownKeys {name : String} :
    name ∈ unknownKeys entries ↔ name ∉ keys ∧ ∃ v, (.string name, v) ∈ entries := by
  have hunknown : (!keys.contains name) = true ↔ name ∉ keys := by simp
  rw [unknownKeys, List.mem_mergeSort, List.mem_filter, hunknown, and_comm, List.mem_map]
  refine and_congr_right fun _ => ⟨?_, fun ⟨v, hentry⟩ => ⟨(name, v), mem_named.2 hentry, rfl⟩⟩
  rintro ⟨⟨_, v⟩, hnamed, rfl⟩
  exact ⟨v, mem_named.1 hnamed⟩

/-- Where no name is unknown, all are names of settings. -/
theorem known_of_unknownKeys (hnames : ∀ entry ∈ entries, ∃ name, entry.1 = .string name)
    (h : unknownKeys entries = []) : ∀ entry ∈ entries, ∃ name ∈ keys, entry.1 = .string name := by
  rintro ⟨key, v⟩ hentry
  obtain ⟨name, rfl⟩ := hnames _ hentry
  refine ⟨name, ?_, rfl⟩
  by_contra hunknown
  have hmem : name ∈ unknownKeys entries := mem_unknownKeys.2 ⟨hunknown, v, hentry⟩
  rw [h] at hmem
  cases hmem

theorem stringAt_gives {key : String} (hkey : key ∈ textKeys) (fallback : String) :
    Gives (Takes entries key .string fallback) (Problem.Holds entries)
      (stringAt entries key fallback) := by
  unfold stringAt Takes
  cases hfind : Value.find? entries (.string key) with
  | none => rfl
  | some found =>
    cases found with
    | string s => rfl
    | _ => exact ⟨hkey, hfind, fun s => Value.noConfusion⟩

theorem boolAt_gives (fallback : Bool) :
    Gives (Takes entries "strict_directives" .bool fallback) (Problem.Holds entries)
      (boolAt entries "strict_directives" fallback) := by
  unfold boolAt Takes
  cases hfind : Value.find? entries (.string "strict_directives") with
  | none => rfl
  | some found =>
    cases found with
    | bool b => rfl
    | _ => exact ⟨rfl, hfind, fun b => Value.noConfusion⟩

theorem ofText?_text (policy : Markup.Duplicates) :
    Markup.Duplicates.ofText? policy.text = some policy := by
  cases policy <;> rfl

theorem text_of_ofText? {name : String} {policy : Markup.Duplicates}
    (h : Markup.Duplicates.ofText? name = some policy) : policy.text = name := by
  simpa using List.find?_some h

theorem policyAt_gives (fallback : Markup.Duplicates) :
    Gives (Takes entries "duplicate_blocks" (fun policy => .string policy.text) fallback)
      (Problem.Holds entries) (policyAt entries "duplicate_blocks" fallback) := by
  unfold policyAt Takes
  cases hfind : Value.find? entries (.string "duplicate_blocks") with
  | none => rfl
  | some found =>
    cases found with
    | string name =>
      cases hpolicy : Markup.Duplicates.ofText? name with
      | some policy =>
        simp only [hpolicy]
        exact congrArg Value.string (text_of_ofText? hpolicy).symm
      | none =>
        simp only [hpolicy]
        refine ⟨hfind, fun policy hname => ?_⟩
        obtain rfl := Value.string.inj hname
        rw [ofText?_text] at hpolicy
        cases hpolicy
    | _ => exact ⟨hfind, fun policy => Value.noConfusion⟩

/-! ### The time limit -/

/-- A number of seconds that the check lets through. -/
def Accepted (v : Value) : Option Number → Prop
  | none => v = .null
  | some n => v = .ofNumber n ∧ n.compare? (.int 0) ≠ some .lt ∧ n.compare? (.int 0) ≠ some .eq

theorem eq_ofNumber_of_number? {v : Value} {n : Number} (h : v.number? = some n) :
    v = .ofNumber n := by
  cases v <;> cases h <;> rfl

theorem number?_ofNumber (n : Number) : (Value.ofNumber n).number? = some n := by
  cases n <;> rfl

theorem timeoutAt_gives :
    Gives (Accepted ((Value.find? entries (.string "fetch_timeout")).getD .null))
      (Problem.Holds entries) (timeoutAt entries "fetch_timeout") := by
  unfold timeoutAt
  split
  · next hfind =>
    rw [hfind]
    rfl
  · next hfind =>
    rw [hfind]
    rfl
  · next found hnull hfind =>
    have hnull : found ≠ .null := fun h => hnull h
    rw [hfind, Option.getD_some]
    cases hnumber : found.number? with
    | none =>
      refine ⟨hfind, hnull, fun n hn => ?_⟩
      rw [hn, number?_ofNumber] at hnumber
      cases hnumber
    | some n =>
      have hfound : found = .ofNumber n := eq_ofNumber_of_number? hnumber
      by_cases hsmall : n.compare? (.int 0) = some .lt ∨ n.compare? (.int 0) = some .eq
      · simp only [if_pos hsmall]
        refine ⟨hfind, hnull, fun n' hn' => ?_⟩
        rw [hn', number?_ofNumber] at hnumber
        obtain rfl := Option.some.inj hnumber
        exact hsmall
      · simp only [if_neg hsmall]
        exact ⟨hfound, fun h => hsmall (.inl h), fun h => hsmall (.inr h)⟩

/-- The double of a positive whole number is positive. -/
theorem compare?_zero_of_ofInt? {n : Nat} (hn : 0 < n) {x : Float}
    (h : Binary64.ofInt? n = some x) : Number.compare? (.float x) (.int 0) = some .gt := by
  obtain ⟨⟨hnan, hinf⟩, hnegative, hsignificand, -⟩ := Binary64.value_of_ofInt? hn h
  have hpos : (0 : Int) < (Binary64.ofFloat x).ratio.1 :=
    Int.natCast_pos.2 (Nat.mul_pos hsignificand (Nat.two_pow_pos _))
  have hless : compare (0 : Int) (Binary64.ofFloat x).ratio.1 = .lt := compare_lt_iff_lt.2 hpos
  have horder : Binary64.compareInt? 0 x = some .lt := by
    simp only [Binary64.compareInt?, hnan, hinf, hnegative, Bool.false_eq_true, if_false,
      Int.zero_mul]
    exact congrArg some hless
  unfold Number.compare?
  dsimp only
  rw [horder]
  rfl

/-- A double is not below zero and not zero only if it is above zero or no number. -/
theorem above_or_isNaN {x : Float} (hlt : Number.compare? (.float x) (.int 0) ≠ some .lt)
    (heq : Number.compare? (.float x) (.int 0) ≠ some .eq) :
    Number.compare? (.float x) (.int 0) = some .gt ∨ x.isNaN = true := by
  -- There is an order for every double that is a number.
  cases hcompare : Number.compare? (.float x) (.int 0) with
  | some order => cases order <;> simp_all
  | none =>
    right
    by_contra hnan
    simp only [Number.compare?, Binary64.compareInt?, if_neg hnan] at hcompare
    split at hcompare <;> cases hcompare

/-- A time limit that is let through is used as a double, or it is a whole number beyond the
    largest. -/
theorem Accepted.toFloat {v : Value} {n : Number} (h : Accepted v (some n)) :
    (∃ x, n.toFloat = .ok x ∧ GivesLimit v (some (.float x))) ∨
      (∃ fault, n.toFloat = .error fault) ∧ ∃ k : Nat, v = .int k ∧ 2 ^ 1024 - 2 ^ 970 ≤ k := by
  obtain ⟨rfl, hlt, heq⟩ := h
  cases n with
  | float x => exact .inl ⟨x, rfl, .double x (above_or_isNaN hlt heq)⟩
  | int a =>
    have hpos : 0 < a := by
      have hle : ¬ a < 0 := fun hneg => hlt (congrArg some (compare_lt_iff_lt.2 hneg))
      have hne : a ≠ 0 := fun hzero => heq (congrArg some (compare_eq_iff_eq.2 hzero))
      omega
    obtain ⟨k, rfl⟩ := Int.eq_ofNat_of_zero_le (Int.le_of_lt hpos)
    have hk : 0 < k := Int.natCast_pos.1 hpos
    cases hdouble : Binary64.ofInt? k with
    | some x =>
      obtain ⟨hfinite, -⟩ := Binary64.value_of_ofInt? hk hdouble
      refine .inl ⟨x, ?_, .whole k x hfinite (compare?_zero_of_ofInt? hk hdouble)
        (Binary64.nearest_of_ofInt? hk hdouble)⟩
      simp only [Number.toFloat, hdouble]
    | none =>
      refine .inr ⟨⟨.noSuchDouble, ?_⟩, k, rfl, (Binary64.ofInt?_eq_none_iff hk).1 hdouble⟩
      simp only [Number.toFloat, hdouble]

end OneSetting

/-! ### All settings -/

section AllSettings

variable {entries : List (Value × Value)} {path : Path}

/-- The settings are given but for what is made of them at last: the place of the directory, and a
    double for the time limit. -/
structure Drafted (entries : List (Value × Value)) (s : Settings) : Prop where
  known : unknownKeys entries = []
  directory : ∃ text, Takes entries "template_dir" .string "templates" text ∧
    s.directory = .ofText text
  suffix : Takes entries "suffix" .string "" s.suffix
  encoding : Takes entries "encoding" .string "utf-8" s.encoding
  strict : Takes entries "strict_directives" .bool false s.strict
  duplicates : Takes entries "duplicate_blocks" (fun policy => .string policy.text) .last
    s.duplicates
  limit : Accepted ((Value.find? entries (.string "fetch_timeout")).getD .null) s.timeout?

theorem ofEntries_gives : Gives (Drafted entries) (Problem.Holds entries) (ofEntries entries) := by
  unfold ofEntries
  by_cases hunknown : unknownKeys entries = []
  · simp only [hunknown, List.isEmpty_nil, Bool.not_true, Bool.false_eq_true, if_false]
    refine (stringAt_gives (by decide) _).bind fun directory hdirectory => ?_
    refine (stringAt_gives (by decide) _).bind fun suffix hsuffix => ?_
    refine (stringAt_gives (by decide) _).bind fun encoding hencoding => ?_
    refine (boolAt_gives _).bind fun strict hstrict => ?_
    refine (policyAt_gives _).bind fun duplicates hduplicates => ?_
    refine timeoutAt_gives.bind fun timeout? htimeout => ?_
    exact {
      known := hunknown
      directory := ⟨directory, hdirectory, rfl⟩
      suffix := hsuffix
      encoding := hencoding
      strict := hstrict
      duplicates := hduplicates
      limit := htimeout }
  · have hsome : (unknownKeys entries).isEmpty = false := by
      simpa using hunknown
    simp only [hsome, Bool.not_false, if_true]
    exact ⟨hunknown, fun name => mem_unknownKeys⟩

/-- A problem ends the program with its message, or breaks it down if it cannot be written. -/
theorem Problem.Holds.failure {problem : Problem} (h : problem.Holds entries) :
    problem.failure.Holds entries := by
  unfold Problem.failure
  cases hfound : problem.found? with
  | none =>
    refine ⟨h, fun v hv => ?_⟩
    rw [hfound] at hv
    cases hv
  | some v =>
    have hagrees := Value.agrees_literalWithin Value.maxShown v
    rw [Option.map_some]
    cases hshown : v.literalWithin Value.maxShown with
    | ok text =>
      rw [hshown] at hagrees
      refine ⟨h, fun v' hv' => ⟨text, ?_⟩⟩
      rw [hfound] at hv'
      obtain rfl := Option.some.inj hv'
      exact hagrees
    | error fault =>
      rw [hshown] at hagrees
      cases fault with
      | tooManyDigits | tooDeep => exact ⟨problem, h, v, hfound, hagrees⟩

/-- A directory is as it is written if that starts at the root, and else in that of the file. -/
theorem parent_join_ofText (text : String) : path.parent.join (.ofText text)
    = if text.toList.head? = some '/' then .ofText text
      else ⟨path.parent.start, path.parent.parts ++ Path.namesIn text.toList⟩ := by
  by_cases hslash : text.toList.head? = some '/'
  · rw [if_pos hslash]
    refine Path.join_of_start_ne _ fun hhere => ?_
    obtain ⟨rest, hrest⟩ := List.head?_eq_some_iff.1 hslash
    exact Path.start_eq_here_iff.1 hhere rest hrest
  · rw [if_neg hslash]
    have hhere : (Path.ofText text).start = .here := by
      refine Path.start_eq_here_iff.2 fun rest hrest => hslash ?_
      rw [hrest]
      rfl
    simp only [Path.join, hhere]
    rfl

theorem placedAt_gives {s : Settings} (h : Drafted entries s) :
    Gives (Follows path entries) (Failure.Holds entries)
      ((s.placedAt path).mapError .breakdown) := by
  obtain ⟨text, htext, hdirectory⟩ := h.directory
  have hplaced : path.parent.join s.directory = if text.toList.head? = some '/' then .ofText text
      else ⟨path.parent.start, path.parent.parts ++ Path.namesIn text.toList⟩ := by
    rw [hdirectory]
    exact parent_join_ofText text
  -- Only the time limit can fail, so all else is settled for any limit.
  have hfollows : ∀ timeout?,
      GivesLimit ((Value.find? entries (.string "fetch_timeout")).getD .null) timeout? →
      Follows path entries
        { s with directory := path.parent.join s.directory, timeout? := timeout? } := by
    intro timeout? hlimit
    exact {
      directory := ⟨text, htext, hplaced⟩
      suffix := h.suffix
      encoding := h.encoding
      strict := h.strict
      duplicates := h.duplicates
      policy := ofText?_text _
      limit := hlimit }
  have hlimit := h.limit
  unfold placedAt
  cases htimeout : s.timeout? with
  | none =>
    rw [htimeout] at hlimit
    refine hfollows none ?_
    rw [hlimit]
    exact .absent
  | some n =>
    rw [htimeout] at hlimit
    rcases hlimit.toFloat with ⟨x, hx, hgives⟩ | ⟨⟨fault, hfault⟩, k, hk, hlarge⟩
    · simp only [hx]
      exact hfollows (some (.float x)) hgives
    · simp only [hfault]
      -- A whole number is no null, so it stands in the file.
      refine ⟨k, ?_, hlarge⟩
      cases hfind : Value.find? entries (.string "fetch_timeout") with
      | none =>
        rw [hfind] at hk
        cases hk
      | some found =>
        rw [hfind] at hk
        exact congrArg some hk

theorem isText_iff {v : Value} : isText v = true ↔ ∃ name, v = .string name := by
  cases v <;> simp [isText]

/-- Where all keys are texts, settings are made of the entries. -/
theorem ofValue_of_names (hnames : ∀ entry ∈ entries, ∃ name, entry.1 = .string name) :
    ofValue path (.mapping entries) = (do
      let s ← (ofEntries entries).mapError Problem.failure
      (s.placedAt path).mapError .breakdown) := by
  have htexts : entries.all (isText ·.1) = true :=
    List.all_eq_true.2 fun entry hentry => isText_iff.2 (hnames entry hentry)
  show (if (!entries.all (isText ·.1)) = true then _ else _) = _
  rw [htexts]
  rfl

/-- Entries give settings that follow them, or the failure is told for a reason. -/
theorem ofValue_gives (path : Path)
    (hnames : ∀ entry ∈ entries, ∃ name, entry.1 = .string name) :
    Gives (fun s => (∀ entry ∈ entries, ∃ name ∈ keys, entry.1 = .string name) ∧
        Follows path entries s)
      (Failure.Holds entries) (ofValue path (.mapping entries)) := by
  rw [ofValue_of_names hnames]
  have hdraft : Gives (Drafted entries) (Failure.Holds entries)
      ((ofEntries entries).mapError Problem.failure) :=
    ofEntries_gives.mapError fun problem hproblem => hproblem.failure
  refine hdraft.bind fun s hs => ?_
  exact (placedAt_gives hs).mono fun placed hplaced =>
    ⟨known_of_unknownKeys hnames hs.known, hplaced⟩

/-- The entries of a file give settings that follow them, and then all are of settings, or the
    failure is told for a reason; and a file in which a reader finds the entries is loaded as they
    are. -/
theorem load_follows_file (path : Path) {entries : List (Value × Value)}
    (hnames : ∀ entry ∈ entries, ∃ name, entry.1 = .string name) :
    Gives (fun s => (∀ entry ∈ entries, ∃ name ∈ keys, entry.1 = .string name) ∧
        Follows path entries s)
      (Failure.Holds entries) (ofValue path (.mapping entries)) ∧
    ∀ (reader : Data.Reader) (disk : Disk Id) (bytes : List UInt8) (text : String),
      disk.look path = .file bytes → Text.ofBytes .utf8 bytes = .ok text →
      reader text = .ok (.mapping entries) →
      load reader disk path = ofValue path (.mapping entries) := by
  refine ⟨ofValue_gives path hnames, ?_⟩
  intro reader disk bytes text hlook htext hread
  have hbytes : ofBytes reader path bytes = ofValue path (.mapping entries) := by
    simp only [ofBytes, htext, hread]
  rw [← hbytes]
  simp only [load, hlook]
  rfl

/-! ### Waiting -/

/-- Under a limit that the check lets through something is waited for. -/
theorem patienceOf_ne_none {x : Float}
    (h : Number.compare? (.float x) (.int 0) = some .gt ∨ x.isNaN = true) :
    TimeLimit.patienceOf (.float x) ≠ .none := by
  unfold TimeLimit.patienceOf
  dsimp only
  by_cases hnan : x.isNaN = true
  · rw [if_pos hnan]
    nofun
  · have habove : ¬ x ≤ 0 := by
      intro hle
      have hless := Binary64.compareInt?_zero_of_le hle
      obtain ⟨order, horder, hswap⟩ := Option.map_eq_some_iff.1 (h.resolve_right hnan)
      cases order with
      | lt => exact hless horder
      | eq | gt => cases hswap
    rw [if_neg hnan, if_neg habove]
    split <;> nofun

/-- A time limit that is given can be shown, and something is waited for under it. -/
theorem GivesLimit.waits {v : Value} {s : Settings} (h : GivesLimit v s.timeout?) :
    ∃ limit?, s.limit? = .ok limit? ∧ ∀ limit, limit? = some limit → limit.patience ≠ .none := by
  have hdouble : ∀ x : Float, Number.compare? (.float x) (.int 0) = some .gt ∨ x.isNaN = true →
      ∃ limit?, (TimeLimit.ofSeconds (.float x)).map some = .ok limit? ∧
        ∀ limit, limit? = some limit → limit.patience ≠ .none := by
    intro x hx
    refine ⟨some ⟨Binary64.text x, TimeLimit.patienceOf (.float x)⟩, rfl, fun limit hlimit => ?_⟩
    obtain rfl := Option.some.inj hlimit
    exact patienceOf_ne_none hx
  unfold limit?
  generalize s.timeout? = timeout? at h ⊢
  cases h with
  | absent => exact ⟨none, rfl, nofun⟩
  | double x hx => exact hdouble x hx
  | whole n x _ hpositive _ => exact hdouble x (.inl hpositive)

/-- Data that gives settings gives those of entries whose keys are texts. -/
theorem ofValue_eq_mapping {data : Value} {s : Settings} (h : ofValue path data = .ok s) :
    ∃ entries, (∀ entry ∈ entries, ∃ name, entry.1 = .string name) ∧
      ofValue path (.mapping entries) = .ok s := by
  unfold ofValue at h
  cases hentries : entriesOf data with
  | error failure =>
    rw [hentries] at h
    cases h
  | ok entries =>
    rw [hentries] at h
    have hmapping : ofValue path (.mapping entries) = .ok s := h
    refine ⟨entries, ?_, hmapping⟩
    cases htexts : entries.all (isText ·.1) with
    | true => exact fun entry hentry => isText_iff.1 (List.all_eq_true.1 htexts entry hentry)
    | false =>
      have hfails : ofValue path (.mapping entries) = .error (.breakdown .keyNotText) := by
        show (if (!entries.all (isText ·.1)) = true then _ else _) = _
        rw [htexts]
        rfl
      cases hfails.symm.trans hmapping

/-- What is loaded is the data of the file, or no data if there is none. -/
theorem ofValue_of_load {reader : Data.Reader} {disk : Disk Id} {s : Settings}
    (h : load reader disk path = .ok s) : ∃ data, ofValue path data = .ok s := by
  cases hlook : disk.look path with
  | absent =>
    simp only [load, hlook] at h
    exact ⟨.null, h⟩
  | file bytes =>
    simp only [load, hlook] at h
    have hbytes : ofBytes reader path bytes = .ok s := h
    unfold ofBytes at hbytes
    split at hbytes
    · cases hbytes
    · split at hbytes
      · next data _ => exact ⟨data, hbytes⟩
      all_goals cases hbytes
  | directory | unreadable | tooLong =>
    simp only [load, hlook] at h
    cases h

/-- Settings that are loaded have a time limit that can be shown, and under which something is
    waited for. -/
theorem waits_of_load {reader : Data.Reader} {disk : Disk Id} {s : Settings}
    (h : load reader disk path = .ok s) :
    ∃ limit?, s.limit? = .ok limit? ∧ ∀ limit, limit? = some limit → limit.patience ≠ .none := by
  obtain ⟨data, hdata⟩ := ofValue_of_load h
  obtain ⟨entries, hnames, hentries⟩ := ofValue_eq_mapping hdata
  have hgives := ofValue_gives path hnames
  rw [hentries] at hgives
  exact hgives.2.limit.waits

end AllSettings

/-! ### A file that is followed, and one that is not -/

/-- A file with a suffix and a whole number of seconds. -/
def patientFile : String := "\x7b\"suffix\": \".txt\", \"fetch_timeout\": 5\x7d"

/-- What the file holds. -/
def patientEntries : List (Value × Value) :=
  [(.string "suffix", .string ".txt"), (.string "fetch_timeout", .int 5)]

theorem patientFile_read : Data.json patientFile = .ok (.mapping patientEntries) := by
  have hallowed : patientFile.toList.all Data.isAllowed = true := by decide +kernel
  have hscan : Data.Token.scan (Data.dropMark patientFile.toList)
      = [⟨.openObject, ⟨0, 0⟩⟩, ⟨.text "suffix", ⟨0, 1⟩⟩, ⟨.colon, ⟨0, 9⟩⟩, ⟨.text ".txt", ⟨0, 11⟩⟩,
        ⟨.comma, ⟨0, 17⟩⟩, ⟨.text "fetch_timeout", ⟨0, 19⟩⟩, ⟨.colon, ⟨0, 34⟩⟩,
        ⟨.word ['5'], ⟨0, 36⟩⟩, ⟨.closeObject, ⟨0, 37⟩⟩] := by
    decide +kernel
  unfold Data.json Data.read
  rw [if_pos hallowed, hscan]
  rfl

/-- The file as it stands on a disk. -/
def patientBytes : List UInt8 := patientFile.toUTF8.toList

def patientTree : FileTree := ⟨[], [(["chaintpl.yaml"], some patientBytes)]⟩

theorem patientFile_followed : (∀ entry ∈ patientEntries, ∃ name, entry.1 = .string name) ∧
    ∃ s, load Data.json patientTree.disk ⟨.here, ["chaintpl.yaml"]⟩ = .ok s ∧
      Follows ⟨.here, ["chaintpl.yaml"]⟩ patientEntries s := by
  have hnames : ∀ entry ∈ patientEntries, ∃ name, entry.1 = .string name := by
    intro entry hentry
    rcases List.mem_pair.1 hentry with rfl | rfl
    · exact ⟨_, rfl⟩
    · exact ⟨_, rfl⟩
  refine ⟨hnames, ?_⟩
  obtain ⟨hgives, hfile⟩ := load_follows_file ⟨.here, ["chaintpl.yaml"]⟩ hnames
  have hload := hfile Data.json patientTree.disk patientBytes patientFile (by rfl)
    (by decide +kernel) patientFile_read
  have hok : (ofValue ⟨.here, ["chaintpl.yaml"]⟩ (.mapping patientEntries)).isOk = true := by
    decide +kernel
  cases hvalue : ofValue ⟨.here, ["chaintpl.yaml"]⟩ (.mapping patientEntries) with
  | ok s =>
    rw [hvalue] at hgives
    exact ⟨s, hload.trans hvalue, hgives.2⟩
  | error failure =>
    rw [hvalue] at hok
    cases hok

/-- A number of seconds beyond the largest double passes every check, and then the program breaks
    down where it makes a double of it. -/
theorem ofValue_of_large (path : Path) {k : Nat} (hlarge : 2 ^ 1024 - 2 ^ 970 ≤ k) :
    ofValue path (.mapping [(.string "fetch_timeout", .int k)])
      = .error (.breakdown .limitTooLarge) := by
  have hless : 2 ^ 970 < 2 ^ 1024 := pow_lt_pow_right₀ Nat.one_lt_two (by decide)
  have hpos : 0 < k := Nat.lt_of_lt_of_le (Nat.sub_pos_of_lt hless) hlarge
  have hdouble : Binary64.ofInt? k = none := (Binary64.ofInt?_eq_none_iff hpos).2 hlarge
  have hfloat : (Number.int k).toFloat = .error .noSuchDouble := by
    simp only [Number.toFloat, hdouble]
  have hcompare : (Number.int k).compare? (.int 0) = some .gt :=
    congrArg some (compare_gt_iff_gt.2 (Int.natCast_pos.2 hpos))
  have htimeout : timeoutAt [(.string "fetch_timeout", .int k)] "fetch_timeout"
      = .ok (some (.int k)) := by
    show (if (Number.int k).compare? (.int 0) = some .lt ∨
      (Number.int k).compare? (.int 0) = some .eq then _ else _) = _
    rw [hcompare, if_neg (by decide)]
  have hentries : ofEntries [(.string "fetch_timeout", .int k)]
      = .ok { default with directory := .ofText "templates", timeout? := some (.int k) } := by
    have hknown : unknownKeys [(.string "fetch_timeout", .int k)] = [] := by
      have hnamed : Data.named [(.string "fetch_timeout", .int k)] = [("fetch_timeout", .int k)] :=
        rfl
      simp [unknownKeys, hnamed, keys]
    unfold ofEntries
    simp only [hknown, htimeout]
    rfl
  have hplaced : ∀ s : Settings, s.timeout? = some (.int k) →
      s.placedAt path = .error .limitTooLarge := by
    intro s hs
    simp only [placedAt, hs, hfloat]
    rfl
  have hnames : ∀ entry ∈ [(Value.string "fetch_timeout", Value.int k)],
      ∃ name, entry.1 = .string name := by
    intro entry hentry
    rw [List.mem_singleton.1 hentry]
    exact ⟨_, rfl⟩
  rw [ofValue_of_names hnames, hentries]
  show ((placedAt path _).mapError _) = _
  rw [hplaced _ rfl]
  rfl

theorem hugeLimit_breaks :
    ofValue ⟨.here, ["chaintpl.yaml"]⟩ (.mapping [(.string "fetch_timeout", .int (10 ^ 400 : Nat))])
      = .error (.breakdown .limitTooLarge) :=
  ofValue_of_large _ (by decide +kernel)

end TextTemplate.Settings
