import Mathlib.Data.List.Chain
import TextTemplate.Proofs.Catalog.Circle

/-! # The walk that looks for a circle

  A link that closes a circle is found by a walk along the known links, from the
  ancestor on (`Walks`).  The walk notes the names that it has come through and
  stops where it would come to one of them again, since the links may go round in a
  circle of their own that avoids the name which it looks for.

  `findCycle?` takes a link away when it has been used, instead of noting its name;
  the walk ends with what it gives, in no more rounds than there are links, and one
  more (`walks_pathTo?`).  What it gives is the circle, and it gives one whenever
  there is one (`circle_found_iff_leads_back`): to stop at a name that comes again
  cuts no way off, because one link at most goes on from each name.
-/

namespace TextTemplate.Catalog

open Relation

/-! ### The walk -/

section walk

variable (parent? : String → Option String) (name : String)

/-- A walk to a name, which has come along a path and through the names that it has noted and is to
    go on with a name or with nothing, ends after so many rounds with a result. -/
inductive Walks :
    List String → List String → Option String → Nat → Option (List String) → Prop where
  /-- There is nothing to go on with. -/
  | lost {path noted : List String} : Walks path noted none 0 none
  /-- The walk has been there before. -/
  | again {path noted : List String} {current : String} : current ∈ noted →
      Walks path noted (some current) 0 none
  /-- The walk has come to the name. -/
  | arrived {path noted : List String} : name ∉ noted →
      Walks path noted (some name) 1 (some (path ++ [name]))
  | onward {path noted : List String} {current : String} {rounds : Nat}
      {result : Option (List String)} : current ∉ noted → current ≠ name →
      Walks (path ++ [current]) (current :: noted) (parent? current) rounds result →
      Walks path noted (some current) (rounds + 1) result

end walk

variable {parent? : String → Option String} {name : String}

/-- A walk ends in one way only. -/
theorem Walks.unique {path noted : List String} {current? : Option String} {rounds rounds' : Nat}
    {result result' : Option (List String)}
    (h : Walks parent? name path noted current? rounds result)
    (h' : Walks parent? name path noted current? rounds' result') :
    rounds = rounds' ∧ result = result' := by
  induction h generalizing rounds' with
  | lost =>
    cases h' with
    | lost => exact ⟨rfl, rfl⟩
  | again hnoted =>
    cases h' with
    | again => exact ⟨rfl, rfl⟩
    | arrived hnew | onward hnew => exact absurd hnoted hnew
  | arrived hnew =>
    cases h' with
    | again hnoted => exact absurd hnoted hnew
    | arrived => exact ⟨rfl, rfl⟩
    | onward _ hne => exact absurd rfl hne
  | onward hnew hne _ ih =>
    cases h' with
    | again hnoted => exact absurd hnoted hnew
    | arrived => exact absurd rfl hne
    | onward _ _ hmore =>
      obtain ⟨rfl, hresult⟩ := ih hmore
      exact ⟨rfl, hresult⟩

/-- From each place on, the walk gives the path along the links that it has not used yet.  In each
    round but the last it uses one. -/
theorem walks_pathTo? (links : Links) (current : String) {path noted : List String}
    (hlinks : ∀ a, links.find? a = if a ∈ noted then none else parent? a) (hname : name ∉ noted) :
    ∃ rounds ≤ links.length + 1, Walks parent? name path noted (some current) rounds
      ((pathTo? name links current).map (path ++ ·)) := by
  fun_induction pathTo? name links current generalizing path noted with
  | case1 links => exact ⟨1, Nat.le_add_left .., .arrived hname⟩
  | case2 links current hne hnone =>
    by_cases hnoted : current ∈ noted
    · exact ⟨0, Nat.zero_le _, .again hnoted⟩
    · have hlost : parent? current = none := by
        rw [hlinks, if_neg hnoted] at hnone
        exact hnone
      refine ⟨1, Nat.le_add_left .., .onward hnoted hne ?_⟩
      rw [hlost]
      exact .lost
  | case3 links current hne next hnext ih =>
    have hnoted : current ∉ noted := by
      intro hnoted
      rw [hlinks, if_pos hnoted] at hnext
      cases hnext
    have hparent : parent? current = some next := by
      rw [hlinks, if_neg hnoted] at hnext
      exact hnext
    -- To take the name's link away comes to the same as to note the name.
    have hleft : ∀ a, (links.erase current).find? a
        = if a ∈ current :: noted then none else parent? a := by
      intro a
      rw [Links.find?_erase, hlinks]
      by_cases ha : a = current <;> simp [ha]
    have hfresh : name ∉ current :: noted := by
      rw [List.mem_cons, not_or]
      exact ⟨Ne.symm hne, hname⟩
    obtain ⟨rounds, hrounds, hwalks⟩ : ∃ rounds ≤ (links.erase current).length + 1,
        Walks parent? name (path ++ [current]) (current :: noted) (some next) rounds
          ((pathTo? name (links.erase current) next).map (path ++ [current] ++ ·)) :=
      ih hleft hfresh
    have hpath : ((pathTo? name (links.erase current) next).map (current :: ·)).map (path ++ ·)
        = (pathTo? name (links.erase current) next).map (path ++ [current] ++ ·) := by
      rw [Option.map_map]
      refine congrArg (Option.map · _) (funext fun way => ?_)
      exact (List.append_assoc path [current] way).symm
    have hshorter := Links.length_erase_lt hnext
    refine ⟨rounds + 1, by omega, .onward hnoted hne ?_⟩
    rw [hparent, hpath]
    exact hwalks

/-! ### Ways and circles -/

/-- A way along the links from one name to another that comes to no name twice. -/
structure IsWay (parent? : String → Option String) (first last : String) (way : List String) :
    Prop where
  starts : way.head? = some first
  ends : way.getLast? = some last
  linked : way.IsChain fun a b => parent? a = some b
  simple : way.Nodup

/-- A way from a name to itself goes nowhere, or it would come to its end twice. -/
theorem isWay_self {a : String} {way : List String} : IsWay parent? a a way ↔ way = [a] := by
  constructor
  · rintro ⟨starts, ends, -, simple⟩
    cases way with
    | nil => cases starts
    | cons first rest =>
      obtain rfl := Option.some.inj starts
      cases rest with
      | nil => rfl
      | cons second rest =>
        rw [List.getLast?_cons_cons] at ends
        exact absurd (List.mem_of_getLast? ends) (List.nodup_cons.1 simple).1
  · rintro rfl
    exact ⟨rfl, rfl, .singleton _, List.nodup_singleton _⟩

/-- Every other way starts with the link of its first name, to which it does not come back. -/
theorem isWay_of_ne {first last : String} (hne : first ≠ last) {way : List String} :
    IsWay parent? first last way ↔ ∃ next rest, parent? first = some next ∧
      way = first :: rest ∧ first ∉ rest ∧ IsWay parent? next last rest := by
  constructor
  · rintro ⟨starts, ends, linked, simple⟩
    cases way with
    | nil => cases starts
    | cons a rest =>
      obtain rfl := Option.some.inj starts
      cases rest with
      | nil => exact absurd (Option.some.inj ends) hne
      | cons next rest =>
        obtain ⟨hlink, hlinked⟩ := List.isChain_cons_cons.1 linked
        obtain ⟨hnot, hsimple⟩ := List.nodup_cons.1 simple
        rw [List.getLast?_cons_cons] at ends
        exact ⟨next, next :: rest, hlink, rfl, hnot, rfl, ends, hlinked, hsimple⟩
  · rintro ⟨next, rest, hlink, rfl, hnot, starts, ends, hlinked, hsimple⟩
    cases rest with
    | nil => cases starts
    | cons second rest =>
      obtain rfl := Option.some.inj starts
      have hwhole : (first :: second :: rest).getLast? = some last := by
        rw [List.getLast?_cons_cons]
        exact ends
      exact ⟨rfl, hwhole, List.isChain_cons_cons.2 ⟨hlink, hlinked⟩,
        List.nodup_cons.2 ⟨hnot, hsimple⟩⟩

/-- A way along other links than that of a name comes to the name at its end at most. -/
theorem not_mem_of_isChain_erase {links : Links} {current last : String} {way : List String}
    (hlinked : way.IsChain fun a b => (links.erase current).find? a = some b)
    (hlast : way.getLast? = some last) (hne : current ≠ last) : current ∉ way := by
  induction way with
  | nil => exact List.not_mem_nil
  | cons a rest ih =>
    rw [List.mem_cons, not_or]
    cases rest with
    | nil =>
      obtain rfl := Option.some.inj hlast
      exact ⟨hne, List.not_mem_nil⟩
    | cons b rest =>
      obtain ⟨hlink, hrest⟩ := List.isChain_cons_cons.1 hlinked
      rw [List.getLast?_cons_cons] at hlast
      exact ⟨Ne.symm (Links.find?_of_erase hlink).2, ih hrest hlast⟩

/-- The ways that are left when a name's link is taken away are those that avoid the name. -/
theorem isWay_erase_iff {links : Links} {current first last : String} (hne : current ≠ last)
    {way : List String} : IsWay (links.erase current).find? first last way ↔
      current ∉ way ∧ IsWay links.find? first last way := by
  constructor
  · rintro ⟨starts, ends, linked, simple⟩
    have hkept : way.IsChain fun a b => links.find? a = some b :=
      linked.imp fun a b hlink => (Links.find?_of_erase hlink).1
    exact ⟨not_mem_of_isChain_erase linked ends hne, starts, ends, hkept, simple⟩
  · rintro ⟨hnot, starts, ends, linked, simple⟩
    refine ⟨starts, ends, linked.imp_of_mem_imp fun a b ha _ hlink => ?_, simple⟩
    have hother : a ≠ current := fun heq => hnot (heq ▸ ha)
    rw [Links.find?_erase, if_neg hother]
    exact hlink

/-- The path along the links is the way, if there is one. -/
theorem pathTo?_eq_some_iff {target current : String} {links : Links} {way : List String} :
    pathTo? target links current = some way ↔ IsWay links.find? current target way := by
  fun_induction pathTo? target links current generalizing way with
  | case1 links => rw [isWay_self, Option.some.injEq, eq_comm]
  | case2 links current hne hnone =>
    rw [isWay_of_ne hne]
    constructor
    · intro h
      cases h
    · rintro ⟨next, rest, hnext, -⟩
      cases hnone.symm.trans hnext
  | case3 links current hne next hnext ih =>
    rw [isWay_of_ne hne, Option.map_eq_some_iff]
    constructor
    · rintro ⟨rest, hrest, rfl⟩
      obtain ⟨hnot, hway⟩ := (isWay_erase_iff hne).1 (ih.1 hrest)
      exact ⟨next, rest, hnext, rfl, hnot, hway⟩
    · rintro ⟨next', rest, hnext', rfl, hnot, hway⟩
      obtain rfl : next = next' := Option.some.inj (hnext.symm.trans hnext')
      exact ⟨rest, ih.2 ((isWay_erase_iff hne).2 ⟨hnot, hway⟩), rfl⟩

/-- A circle from a name back to it that begins with the link to an ancestor.  All its other links
    are known, and it comes to no other name twice. -/
structure IsCircle (parent? : String → Option String) (name ancestor : String)
    (path : List String) : Prop where
  starts : path.head? = some name
  ends : path.getLast? = some name
  through : path[1]? = some ancestor
  linked : path.tail.IsChain fun a b => parent? a = some b
  simple : path.tail.Nodup

/-- A circle is a way back from the ancestor, with the name in front. -/
theorem isCircle_iff {ancestor : String} {path : List String} :
    IsCircle parent? name ancestor path ↔
      ∃ way, path = name :: way ∧ IsWay parent? ancestor name way := by
  constructor
  · rintro ⟨starts, ends, through, linked, simple⟩
    cases path with
    | nil => cases starts
    | cons first way =>
      obtain rfl := Option.some.inj starts
      cases way with
      | nil => cases through
      | cons second rest =>
        rw [List.getLast?_cons_cons] at ends
        exact ⟨_, rfl, through, ends, linked, simple⟩
  · rintro ⟨way, rfl, starts, ends, linked, simple⟩
    cases way with
    | nil => cases starts
    | cons second rest =>
      refine ⟨rfl, ?_, starts, linked, simple⟩
      rw [List.getLast?_cons_cons]
      exact ends

/-! ### The links of the entries -/

/-- The ancestor that is known for a name: that of the entry which is found under it. -/
def parentOf? (c : Catalog) (name : String) : Option String :=
  (c.find? name).bind fun e => c.entries[e]?.bind (·.parent?)

/-- Where each name has one entry at most, the known links are those of the entries found. -/
theorem find?_links_eq_parentOf? {c : Catalog} (hnames : (c.listing.map (·.name)).Nodup)
    (a : String) : c.links.find? a = c.parentOf? a := by
  unfold parentOf?
  cases hfind : c.find? a with
  | none =>
    refine List.lookup_eq_none_iff.2 fun link hlink => ?_
    obtain ⟨entry, hmem, hlisted, hname, -⟩ := mem_links.1 hlink
    have hother := not_listed_of_find? hfind hmem hlisted
    rw [hname] at hother
    exact bne_iff_ne.2 (Ne.symm hother)
  | some e =>
    obtain ⟨entry, he, hlisted, hname⟩ := listed_of_find? hfind
    have hmem := List.mem_of_getElem? he
    have hsame : ∀ p, c.links.find? a = some p → entry.parent? = some p := by
      intro p hp
      obtain ⟨other, hother, hlisted', hname', hparent⟩ := mem_links.1 (mem_of_find? hp)
      -- Two entries under one name are the same.
      obtain rfl : other = entry := List.inj_on_of_nodup_map hnames
        (List.mem_filter.2 ⟨hother, hlisted'⟩) (List.mem_filter.2 ⟨hmem, hlisted⟩)
        (hname'.trans hname.symm)
      exact hparent
    rw [Option.bind_some, he, Option.bind_some]
    refine Option.ext fun p => ⟨hsame p, fun hparent => ?_⟩
    have hlink : (a, p) ∈ c.links := mem_links.2 ⟨entry, hmem, hlisted, hname, hparent⟩
    cases hp : c.links.find? a with
    | none =>
      have := List.lookup_eq_none_iff.1 hp _ hlink
      simp at this
    | some p' => exact (hsame p' hp).symm.trans hparent

/-- The search for a circle ends, after no more rounds than there are known links, and one more.
    It finds a circle if and only if the known links lead from the ancestor back to the name, and
    what it finds is the only circle there is. -/
theorem circle_found_iff_leads_back {c : Catalog} (hnames : (c.listing.map (·.name)).Nodup)
    (name ancestor : String) :
    (∃ rounds ≤ c.links.length + 1,
      Walks c.parentOf? name [name] [] (some ancestor) rounds (findCycle? c.links name ancestor) ∧
      ∀ rounds' result, Walks c.parentOf? name [name] [] (some ancestor) rounds' result →
        rounds' = rounds ∧ result = findCycle? c.links name ancestor) ∧
    ((∃ path, findCycle? c.links name ancestor = some path) ↔
      ReflTransGen (fun a b => c.parentOf? a = some b) ancestor name) ∧
    ∀ path, findCycle? c.links name ancestor = some path ↔
      IsCircle c.parentOf? name ancestor path := by
  have hlinks : c.links.find? = c.parentOf? := funext (find?_links_eq_parentOf? hnames)
  refine ⟨?_, ?_, fun path => ?_⟩
  · have hall : ∀ a, c.links.find? a = if a ∈ [] then none else c.parentOf? a := by simp [hlinks]
    obtain ⟨rounds, hrounds, hwalks⟩ : ∃ rounds ≤ c.links.length + 1,
        Walks c.parentOf? name [name] [] (some ancestor) rounds
          (findCycle? c.links name ancestor) :=
      walks_pathTo? c.links ancestor hall List.not_mem_nil
    refine ⟨rounds, hrounds, hwalks, fun rounds' result h => ?_⟩
    exact h.unique hwalks
  · rw [← hlinks, ← Option.isSome_iff_exists, findCycle?, Option.isSome_map]
    exact isSome_pathTo?_iff name c.links ancestor
  · rw [isCircle_iff, findCycle?, Option.map_eq_some_iff, ← hlinks]
    constructor
    · rintro ⟨way, hway, rfl⟩
      exact ⟨way, rfl, pathTo?_eq_some_iff.1 hway⟩
    · rintro ⟨way, rfl, hway⟩
      exact ⟨way, pathTo?_eq_some_iff.2 hway, rfl⟩

/-- The entry of a template that extends another one. -/
def Entry.extending (name parent : String) : Entry :=
  { Entry.fresh name with document? := some ⟨[], [], some parent⟩ }

/-- Two templates extend each other, and another one extends the page.  An entry that would lead
    from the first two to the page has been removed. -/
def eddyCatalog : Catalog :=
  { Catalog.empty .default none with
    entries := [{ Entry.extending "layout" "page" with listed := false }, .fresh "page",
      .extending "base" "layout", .extending "layout" "base", .extending "theme" "page"] }

/-- The walk from the base goes round and does not find the page; the one from the theme does. -/
theorem eddyCatalog_circles :
    (eddyCatalog.listing.map (·.name)).Nodup ∧
      findCycle? eddyCatalog.links "page" "base" = none ∧
      ¬ ReflTransGen (fun a b => eddyCatalog.parentOf? a = some b) "base" "page" ∧
      findCycle? eddyCatalog.links "page" "theme" = some ["page", "theme", "page"] := by
  have hnames : (eddyCatalog.listing.map (·.name)).Nodup := by decide
  obtain ⟨⟨_, -, -, honly⟩, hleads, -⟩ := circle_found_iff_leads_back hnames "page" "base"
  have hround : Walks eddyCatalog.parentOf? "page" ["page"] [] (some "base") 2 none := by
    refine .onward (by decide) (by decide) ?_
    rw [show eddyCatalog.parentOf? "base" = some "layout" from rfl]
    refine .onward (by decide) (by decide) ?_
    rw [show eddyCatalog.parentOf? "layout" = some "base" from rfl]
    exact .again (by decide)
  obtain ⟨-, hnone⟩ := honly 2 none hround
  have hback : ¬ ReflTransGen (fun a b => eddyCatalog.parentOf? a = some b) "base" "page" := by
    intro h
    obtain ⟨path, hpath⟩ := hleads.2 h
    cases hnone.trans hpath
  obtain ⟨-, -, hcircle⟩ := circle_found_iff_leads_back hnames "page" "theme"
  have htheme : IsCircle eddyCatalog.parentOf? "page" "theme" ["page", "theme", "page"] :=
    ⟨rfl, rfl, rfl, List.isChain_cons_cons.2 ⟨rfl, .singleton _⟩, by decide⟩
  exact ⟨hnames, hnone.symm, hback, (hcircle _).2 htheme⟩

end TextTemplate.Catalog
