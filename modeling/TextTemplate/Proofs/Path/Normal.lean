import Mathlib.Logic.Relation
import TextTemplate.Path

/-! # The normal form of a path

  A row of names from the root can be made simpler in three ways: a name that
  leads nowhere is left out, a name is left out together with the `..` behind
  it, and a `..` at the root is left out.  `NormalForm` says that a row comes from
  another one in this way and holds no such name any more.

  Every row has exactly one normal form, and resolving computes it
  (`normalForm_iff`): a step that makes a row simpler changes nothing in what the
  row is resolved to, and a place stands for itself.
-/

namespace TextTemplate.Path

/-! ### Names and texts -/

/-- A name that leads nowhere: an empty one, or a point. -/
def IsIdle (name : String) : Prop := name = "" ∨ name = "."

instance (name : String) : Decidable (IsIdle name) := inferInstanceAs (Decidable (_ ∨ _))

/-- A name of something in a directory. -/
structure IsPlain (name : String) : Prop where
  not_idle : ¬ IsIdle name
  ne_back : name ≠ ".."
  no_slash : '/' ∉ name.toList

/-- A path whose names lead somewhere, and are what stands between slashes. -/
def IsTidy (p : Path) : Prop := ∀ name ∈ p.parts, ¬ IsIdle name ∧ '/' ∉ name.toList

/-- The names between the slashes of a text. -/
def pieces (s : List Char) : List String := (Text.splitAll '/' s).map String.ofList

/-- The text of a path in a directory; one that starts with a slash stands for itself. -/
def textIn (place : List String) (text : String) : List Char :=
  match text.toList with
  | '/' :: rest => '/' :: rest
  | s => (place.flatMap fun name => '/' :: name.toList) ++ '/' :: s

/-- The names of a path from the root, as they are written. -/
def written (current : List String) (p : Path) : List String :=
  match p.start with
  | .here => current ++ p.parts
  | _ => p.parts

/-! ### Normal forms -/

/-- One step towards a simpler row of names. -/
inductive Simplifies : List String → List String → Prop where
  | idle (before : List String) {name : String} (after : List String) :
      IsIdle name → Simplifies (before ++ name :: after) (before ++ after)
  | back (before : List String) {name : String} (after : List String) :
      ¬ IsIdle name → name ≠ ".." → Simplifies (before ++ name :: ".." :: after) (before ++ after)
  | top (after : List String) : Simplifies (".." :: after) after

/-- The second row is what is left of the first one when it cannot be made simpler. -/
def NormalForm (names place : List String) : Prop :=
  Relation.ReflTransGen Simplifies names place ∧ ∀ name ∈ place, ¬ IsIdle name ∧ name ≠ ".."

/-- The place that a row of names leads to from another place. -/
def walk (place names : List String) : List String :=
  (names.filter fun name => ¬ IsIdle name).foldl enter place

theorem walk_append (place names more : List String) :
    walk place (names ++ more) = walk (walk place names) more := by
  unfold walk
  rw [List.filter_append, List.foldl_append]

theorem walk_idle {name : String} (place names : List String) (h : IsIdle name) :
    walk place (name :: names) = walk place names := by
  unfold walk
  rw [List.filter_cons, if_neg (by simpa using h)]

theorem walk_step {name : String} (place names : List String) (h : ¬ IsIdle name) :
    walk place (name :: names) = walk (enter place name) names := by
  unfold walk
  rw [List.filter_cons, if_pos (by simpa using h), List.foldl_cons]

theorem not_isIdle_back : ¬ IsIdle ".." := by decide

theorem enter_back (place : List String) : enter place ".." = place.dropLast := by
  unfold enter
  rw [if_pos rfl]

theorem enter_of_ne {name : String} (place : List String) (h : name ≠ "..") :
    enter place name = place ++ [name] := by
  unfold enter
  rw [if_neg h]

/-- Names that lead nowhere make no difference. -/
theorem walk_filter (place names : List String) :
    walk place (names.filter fun name => ¬ IsIdle name) = walk place names := by
  unfold walk
  rw [List.filter_filter]
  simp only [Bool.and_self]

/-- Names that each lead one place on are appended. -/
theorem walk_of_forall {names : List String} (place : List String)
    (h : ∀ name ∈ names, ¬ IsIdle name ∧ name ≠ "..") : walk place names = place ++ names := by
  induction names generalizing place with
  | nil => simp [walk]
  | cons name rest ih =>
    obtain ⟨hidle, hback⟩ := h name List.mem_cons_self
    rw [walk_step _ _ hidle, enter_of_ne _ hback, ih _ fun n hn => h n (List.mem_cons_of_mem _ hn),
      List.append_assoc]
    rfl

/-- A simpler row leads to the same place. -/
theorem Simplifies.walk_eq {names simpler : List String} (h : Simplifies names simpler) :
    walk [] names = walk [] simpler := by
  cases h with
  | idle before after hidle => rw [walk_append, walk_append, walk_idle _ _ hidle]
  | back before after hidle hback =>
    -- The name is appended to the place, and the `..` takes it away again.
    rw [walk_append, walk_append, walk_step _ _ hidle, walk_step _ _ not_isIdle_back,
      enter_of_ne _ hback, enter_back, List.dropLast_concat]
  | top after =>
    rw [walk_step _ _ not_isIdle_back, enter_back]
    rfl

theorem walk_eq_of_steps {names simpler : List String}
    (h : Relation.ReflTransGen Simplifies names simpler) : walk [] names = walk [] simpler := by
  induction h with
  | refl => rfl
  | tail _ hstep ih => exact ih.trans hstep.walk_eq

/-- A place and names after it can be made as simple as the place to which they lead. -/
theorem simplifies_walk {place : List String} (names : List String)
    (hplace : ∀ name ∈ place, ¬ IsIdle name ∧ name ≠ "..") :
    Relation.ReflTransGen Simplifies (place ++ names) (walk place names) ∧
      ∀ name ∈ walk place names, ¬ IsIdle name ∧ name ≠ ".." := by
  induction names generalizing place with
  | nil =>
    have hnil : walk place [] = place := rfl
    rw [hnil, List.append_nil]
    exact ⟨.refl, hplace⟩
  | cons name rest ih =>
    by_cases hidle : IsIdle name
    · obtain ⟨hsteps, hnormal⟩ := ih hplace
      rw [walk_idle _ _ hidle]
      exact ⟨.head (.idle place rest hidle) hsteps, hnormal⟩
    rw [walk_step _ _ hidle]
    by_cases hback : name = ".."
    · subst hback
      rw [enter_back]
      have hdropped : ∀ n ∈ place.dropLast, ¬ IsIdle n ∧ n ≠ ".." := by
        intro n hn
        exact hplace n (List.dropLast_subset _ hn)
      obtain ⟨hsteps, hnormal⟩ := ih hdropped
      refine ⟨.head ?_ hsteps, hnormal⟩
      -- The `..` takes the last name of the place with it, if there is one.
      rcases List.eq_nil_or_concat place with rfl | ⟨init, last, rfl⟩
      · exact .top rest
      · obtain ⟨hlast, hne⟩ := hplace last (by simp)
        have hstep := Simplifies.back init rest hlast hne
        simpa using hstep
    · rw [enter_of_ne _ hback]
      have happended : ∀ n ∈ place ++ [name], ¬ IsIdle n ∧ n ≠ ".." := by
        intro n hn
        rcases List.mem_append.1 hn with hn | hn
        · exact hplace n hn
        · obtain rfl := List.mem_singleton.1 hn
          exact ⟨hidle, hback⟩
      have h := ih happended
      rwa [List.append_assoc] at h

/-- A row of names has one normal form: the place to which it leads from the root. -/
theorem normalForm_iff {names place : List String} :
    NormalForm names place ↔ place = walk [] names := by
  constructor
  · rintro ⟨hsteps, hnormal⟩
    rw [walk_eq_of_steps hsteps, walk_of_forall [] hnormal]
    rfl
  · rintro rfl
    exact simplifies_walk names (fun n hn => absurd hn List.not_mem_nil)

/-! ### What is written in a text -/

theorem splitAll_slash (s : List Char) :
    Text.splitAll '/' ('/' :: s) = [] :: Text.splitAll '/' s := by
  rw [Text.splitAll, if_pos rfl]

/-- What stands before a slash and holds none is a name of its own. -/
theorem splitAll_append {s : List Char} (rest : List Char) (h : '/' ∉ s) :
    Text.splitAll '/' (s ++ '/' :: rest) = s :: Text.splitAll '/' rest := by
  induction s with
  | nil => exact splitAll_slash rest
  | cons c more ih =>
    obtain ⟨hc, hmore⟩ : ¬ '/' = c ∧ '/' ∉ more := by simpa using h
    rw [List.cons_append, Text.splitAll, if_neg (Ne.symm hc), ih hmore]

/-- The names in a text under a directory are the directory's, and then the text's. -/
theorem pieces_under {place : List String} (s : List Char)
    (h : ∀ name ∈ place, '/' ∉ name.toList) :
    pieces ((place.flatMap fun name => '/' :: name.toList) ++ '/' :: s)
      = "" :: place ++ pieces s := by
  induction place with
  | nil =>
    show (Text.splitAll '/' ('/' :: s)).map String.ofList = _
    rw [splitAll_slash]
    rfl
  | cons name rest ih =>
    have hrest := ih fun n hn => h n (List.mem_cons_of_mem _ hn)
    have hname := h name List.mem_cons_self
    -- The text after the name begins with a slash, so it can be cut off there.
    obtain ⟨tail, htail⟩ : ∃ tail,
        (rest.flatMap fun n => '/' :: n.toList) ++ '/' :: s = '/' :: tail := by
      cases rest with
      | nil => exact ⟨s, rfl⟩
      | cons n more => exact ⟨_, rfl⟩
    rw [htail] at hrest
    rw [List.flatMap_cons, List.append_assoc, htail]
    unfold pieces at hrest ⊢
    rw [splitAll_slash, List.map_cons, List.cons_append, List.cons.injEq] at hrest
    rw [List.cons_append, splitAll_slash, splitAll_append _ hname, List.map_cons, List.map_cons,
      hrest.2, String.ofList_toList]
    rfl

/-- The names of a path that is read from a text. -/
theorem namesIn_eq (s : List Char) :
    namesIn s = (pieces s).filter fun name => ¬ IsIdle name := by
  unfold namesIn pieces
  rw [List.filter_map]
  congr 1
  apply List.filter_congr
  intro name _
  have hempty : String.ofList name = "" ↔ name = [] := by
    rw [← String.toList_inj, String.toList_ofList]
    rfl
  have hpoint : String.ofList name = "." ↔ name = ['.'] := by
    rw [← String.toList_inj, String.toList_ofList]
    rfl
  simp only [Function.comp_apply, IsIdle, hempty, hpoint, not_or, ne_eq]

/-- What is read from a text is tidy. -/
theorem isTidy_ofText (text : String) : (ofText text).IsTidy := by
  intro name hname
  have hmem : name ∈ namesIn text.toList := hname
  rw [namesIn_eq, List.mem_filter] at hmem
  obtain ⟨hpiece, hidle⟩ := hmem
  refine ⟨by simpa using hidle, ?_⟩
  obtain ⟨part, hpart, rfl⟩ := List.mem_map.1 hpiece
  rw [String.toList_ofList]
  exact Text.not_mem_of_mem_splitAll hpart

theorem IsTidy.join {p q : Path} (hp : p.IsTidy) (hq : q.IsTidy) : (p.join q).IsTidy := by
  unfold Path.join
  cases q.start with
  | here =>
    intro name hname
    exact (List.mem_append.1 hname).elim (hp name) (hq name)
  | root | doubleRoot => exact hq

/-! ### Resolving -/

/-- A text says where it starts by its first character. -/
theorem start_eq_here_iff {text : String} :
    (ofText text).start = .here ↔ ∀ rest, text.toList ≠ '/' :: rest := by
  show Start.ofChars text.toList = .here ↔ _
  unfold Start.ofChars
  split <;> simp_all

theorem join_of_start_ne (p : Path) {q : Path} (h : q.start ≠ .here) : p.join q = q := by
  unfold Path.join
  split
  · next hhere => exact absurd hhere h
  · rfl

theorem written_of_start_ne (current : List String) {p : Path} (h : p.start ≠ .here) :
    written current p = p.parts := by
  unfold written
  split
  · next hhere => exact absurd hhere h
  · rfl

/-- Resolving a tidy path leads to the normal form of what is written. -/
theorem resolve_eq_walk {current : List String} {p : Path}
    (hcurrent : ∀ name ∈ current, ¬ IsIdle name ∧ name ≠ "..") (hp : p.IsTidy) :
    p.resolve current = walk [] (written current p) := by
  have hwalk : ∀ place, walk place p.parts = p.parts.foldl enter place := by
    intro place
    unfold walk
    rw [List.filter_eq_self.2 fun name hname => by simpa using (hp name hname).1]
  unfold resolve written
  cases p.start with
  | here =>
    rw [walk_append, walk_of_forall [] hcurrent, hwalk]
    rfl
  | root | doubleRoot => exact (hwalk []).symm

/-- A text in a directory leads to where its path leads from there. -/
theorem resolve_join_eq_walk {place : List String} (text : String)
    (h : ∀ name ∈ place, IsPlain name) :
    ((ofRoot place).join (ofText text)).resolve [] = walk [] (pieces (textIn place text)) := by
  have hplaceTidy : (ofRoot place).IsTidy := by
    intro name hname
    exact ⟨(h name hname).not_idle, (h name hname).no_slash⟩
  have htidy := hplaceTidy.join (isTidy_ofText text)
  rw [resolve_eq_walk (fun n hn => absurd hn List.not_mem_nil) htidy]
  by_cases hslash : ∃ rest, text.toList = '/' :: rest
  · -- The text starts at the root, so the directory does not matter.
    obtain ⟨rest, hrest⟩ := hslash
    have hstart : (ofText text).start ≠ .here := by
      intro hhere
      exact start_eq_here_iff.1 hhere rest hrest
    have htext : textIn place text = text.toList := by
      unfold textIn
      simp only [hrest]
    rw [join_of_start_ne _ hstart, written_of_start_ne _ hstart, htext]
    show walk [] (namesIn text.toList) = _
    rw [namesIn_eq, walk_filter]
  · have hhere : (ofText text).start = .here := by
      apply start_eq_here_iff.2
      intro rest hrest
      exact hslash ⟨rest, hrest⟩
    have hjoin : (ofRoot place).join (ofText text) = ⟨.root, place ++ namesIn text.toList⟩ := by
      unfold Path.join
      rw [hhere]
      rfl
    have htext : pieces (textIn place text) = "" :: place ++ pieces text.toList := by
      rw [← pieces_under _ fun n hn => (h n hn).no_slash]
      unfold textIn
      split
      · next rest hrest => exact absurd ⟨rest, hrest⟩ hslash
      · rfl
    rw [hjoin, htext, List.cons_append, walk_idle _ _ (.inl rfl), walk_append, namesIn_eq]
    show walk [] (place ++ _) = _
    rw [walk_append, walk_filter]

end TextTemplate.Path
