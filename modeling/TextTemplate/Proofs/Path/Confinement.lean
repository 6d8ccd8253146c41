import Mathlib.Logic.ExistsUnique
import TextTemplate.FileStore
import TextTemplate.Proofs.Path.Normal

/-! # A store of files keeps to its directory

  A template's name, with the suffix, is written behind the directory of the
  store, or stands for itself if it starts with a slash.  The normal form of what
  is written is the template's place if it begins with all names of the
  directory, and otherwise the name has no place (`locate?_eq_some_iff`).

  So wherever a name leads in between, the store looks at nothing but places
  inside its directory: two systems that agree on these give it the same replies
  (`fetch_eq_of_sameInside`), and a text comes from a file there.
-/

namespace TextTemplate

open TextTemplate.Path

namespace Path

theorem mem_enter {place : List String} {name n : String} (h : n ∈ enter place name) :
    n ∈ place ∨ n = name := by
  unfold enter at h
  split at h
  · exact .inl (List.dropLast_subset _ h)
  · exact (List.mem_append.1 h).imp_right List.mem_singleton.1

/-- A walk passes no names but those it is given. -/
theorem mem_walk {place names : List String} {n : String} (h : n ∈ walk place names) :
    n ∈ place ∨ n ∈ names := by
  induction names generalizing place with
  | nil => exact .inl h
  | cons name rest ih =>
    by_cases hidle : IsIdle name
    · rw [walk_idle _ _ hidle] at h
      exact (ih h).imp_right (List.mem_cons_of_mem _)
    · rw [walk_step _ _ hidle] at h
      rcases ih h with hplace | hrest
      · rcases mem_enter hplace with hplace | rfl
        · exact .inl hplace
        · exact .inr List.mem_cons_self
      · exact .inr (List.mem_cons_of_mem _ hrest)

/-- A normal form of names without slashes has plain names. -/
theorem NormalForm.isPlain {names place : List String} (h : NormalForm names place)
    (hnames : ∀ name ∈ names, '/' ∉ name.toList) : ∀ name ∈ place, IsPlain name := by
  intro name hname
  obtain ⟨hidle, hback⟩ := h.2 name hname
  rw [normalForm_iff.1 h] at hname
  have hmem := (mem_walk hname).resolve_left List.not_mem_nil
  exact ⟨hidle, hback, hnames name hmem⟩

theorem no_slash_of_mem_pieces {s : List Char} {name : String} (h : name ∈ pieces s) :
    '/' ∉ name.toList := by
  obtain ⟨part, hpart, rfl⟩ := List.mem_map.1 h
  rw [String.toList_ofList]
  exact Text.not_mem_of_mem_splitAll hpart

end Path

/-- Is what can be seen at the places inside a directory the same? -/
def Disk.SameInside {m : Type → Type} (root : List String) (disk disk' : Disk m) : Prop :=
  ∀ inner : List String, (∀ name ∈ inner, IsPlain name) →
    disk.look (.ofRoot (root ++ inner)) = disk'.look (.ofRoot (root ++ inner))

/-- A look that goes on through directories ends where the names lead. -/
theorem FileTree.entryAt_of_walk {tree : FileTree} {place names : List String} {bytes : List UInt8}
    (hnames : ∀ name ∈ names, IsPlain name) (h : tree.walk place names = .file bytes) :
    tree.entryAt (place ++ names) = .file bytes := by
  induction names generalizing place with
  | nil =>
    rw [List.append_nil]
    exact h
  | cons name rest ih =>
    unfold walk at h
    split at h
    · split at h
      · have hback := (hnames name List.mem_cons_self).ne_back
        rw [enter_of_ne _ hback] at h
        have hentry := ih (fun n hn => hnames n (List.mem_cons_of_mem _ hn)) h
        rwa [List.append_assoc] at hentry
      · cases h
    · cases h

/-- What is looked at from the root by plain names is the entry of that place. -/
theorem FileTree.entryAt_of_look {tree : FileTree} {root inner : List String} {bytes : List UInt8}
    (hroot : ∀ name ∈ root, IsPlain name) (hinner : ∀ name ∈ inner, IsPlain name)
    (h : tree.disk.look (.ofRoot (root ++ inner)) = .file bytes) :
    tree.entryAt (root ++ inner) = .file bytes := by
  have hplain : ∀ name ∈ root ++ inner, IsPlain name := by
    intro name hname
    exact (List.mem_append.1 hname).elim (hroot name) (hinner name)
  have hlook : (if (ofRoot (root ++ inner)).fits then tree.walk [] (root ++ inner) else .tooLong)
      = .file bytes := h
  split at hlook
  · have hentry := entryAt_of_walk hplain hlook
    exact hentry
  · cases hlook

namespace FileStore

/-! ### Places -/

variable {s : FileStore}

/-- The names that a template's name writes. -/
def namesOf (s : FileStore) (name : String) : List String :=
  pieces (textIn s.root (name ++ s.suffix))

/-- A name has the place that its normal form is, if that is in the directory. -/
theorem locate?_eq_some_iff (hroot : ∀ name ∈ s.root, IsPlain name) (name : String)
    (place : List String) :
    s.locate? name = some place ↔ NormalForm (s.namesOf name) place ∧ s.root <+: place := by
  unfold locate?
  simp only [resolve_join_eq_walk _ hroot]
  rw [normalForm_iff]
  show (if s.root.isPrefixOf (walk [] (s.namesOf name)) = true then _ else _) = _ ↔ _
  split
  · next hprefix =>
    rw [Option.some.injEq]
    constructor
    · rintro rfl
      exact ⟨rfl, List.isPrefixOf_iff_prefix.1 hprefix⟩
    · rintro ⟨rfl, -⟩
      rfl
  · next hprefix =>
    constructor
    · intro h
      cases h
    · rintro ⟨rfl, hplace⟩
      exact absurd (List.isPrefixOf_iff_prefix.2 hplace) hprefix

/-- The place of a name is inside the directory, by plain names. -/
theorem inner_of_locate? (hroot : ∀ name ∈ s.root, IsPlain name) {name : String}
    {place : List String} (h : s.locate? name = some place) :
    ∃ inner, place = s.root ++ inner ∧ ∀ n ∈ inner, IsPlain n := by
  obtain ⟨hnormal, inner, rfl⟩ := (locate?_eq_some_iff hroot name place).1 h
  have hplain := hnormal.isPlain fun n hn => no_slash_of_mem_pieces hn
  exact ⟨inner, rfl, fun n hn => hplain n (List.mem_append_right _ hn)⟩

/-! ### Fetching -/

/-- The store's reply is settled by what is inside its directory. -/
theorem fetch_eq_of_sameInside {m : Type → Type} [Monad m] {codecs : Codecs} {disk disk' : Disk m}
    (hroot : ∀ name ∈ s.root, IsPlain name) (hsame : disk.SameInside s.root disk')
    (name : String) : s.fetch codecs disk name = s.fetch codecs disk' name := by
  unfold fetch
  cases hplace : s.locate? name with
  | none => rfl
  | some place =>
    obtain ⟨inner, rfl, hinner⟩ := inner_of_locate? hroot hplace
    simp only [hsame inner hinner]

/-- A text comes from a file inside the directory. -/
theorem file_of_fetch {codecs : Codecs} {tree : FileTree} (hroot : ∀ name ∈ s.root, IsPlain name)
    {name text : String}
    (h : (s.fetch codecs tree.disk name : Id Catalog.Reply).fetched = .text text) :
    ∃ inner bytes, (∀ n ∈ inner, IsPlain n) ∧ tree.entryAt (s.root ++ inner) = .file bytes ∧
      s.readBytes codecs name bytes = .text text := by
  unfold fetch at h
  split at h
  · cases h
  cases hplace : s.locate? name with
  | none =>
    rw [hplace] at h
    cases h
  | some place =>
    obtain ⟨inner, rfl, hinner⟩ := inner_of_locate? hroot hplace
    rw [hplace] at h
    -- Only a file gives a text, and its bytes are what the text is made of.
    cases hentry : tree.disk.look (.ofRoot (s.root ++ inner)) with
    | file bytes =>
      simp only [hentry] at h
      exact ⟨inner, bytes, hinner, FileTree.entryAt_of_look hroot hinner hentry, h⟩
    | absent | directory | unreadable | tooLong =>
      simp only [hentry] at h
      cases h

/-- The path of a name from the directory is what its place has behind the directory. -/
theorem pathFor?_eq_some_iff (hroot : ∀ name ∈ s.root, IsPlain name) (name : String) (path : Path) :
    s.pathFor? name = some path ↔
      ∃ inner, s.locate? name = some (s.root ++ inner) ∧ path = ⟨.here, inner⟩ := by
  unfold pathFor?
  rw [Option.map_eq_some_iff]
  constructor
  · rintro ⟨place, hplace, rfl⟩
    obtain ⟨inner, rfl, -⟩ := inner_of_locate? hroot hplace
    exact ⟨inner, hplace, by rw [List.drop_left]⟩
  · rintro ⟨inner, hplace, rfl⟩
    exact ⟨_, hplace, by rw [List.drop_left]⟩

/-! ### Confinement -/

/-- A store keeps to its directory. -/
structure Confined (s : FileStore) : Prop where
  /-- What a template's name writes has one normal form. -/
  normalForm : ∀ name, ∃! place, NormalForm (s.namesOf name) place
  /-- This is the template's place if it begins with the directory; else there is none. -/
  locate : ∀ name place,
    s.locate? name = some place ↔ NormalForm (s.namesOf name) place ∧ s.root <+: place
  /-- No name on the way to a place leads back, nowhere or further than one step. -/
  plain : ∀ name place, s.locate? name = some place → ∀ n ∈ place, IsPlain n
  /-- The path from the directory leads to the place. -/
  path : ∀ name path, s.pathFor? name = some path ↔
    ∃ inner, s.locate? name = some (s.root ++ inner) ∧ path = ⟨.here, inner⟩
  /-- The reply for any name is the same on all systems that have the same codecs and agree on what
      is in the directory. -/
  reply : ∀ (m : Type → Type) [Monad m] (codecs : Codecs) (disk disk' : Disk m),
    disk.SameInside s.root disk' → ∀ name, s.fetch codecs disk name = s.fetch codecs disk' name
  /-- A text is what a file in the directory holds. -/
  text : ∀ (codecs : Codecs) (tree : FileTree) (name text : String),
    (s.fetch codecs tree.disk name : Id Catalog.Reply).fetched = .text text →
      ∃ inner bytes, (∀ n ∈ inner, IsPlain n) ∧ tree.entryAt (s.root ++ inner) = .file bytes ∧
        s.readBytes codecs name bytes = .text text

/-- The store of any directory has the normal form of its path as its root, and keeps to it. -/
theorem confined_ofDirectory {current : List String} {directory : Path}
    (hcurrent : ∀ name ∈ current, IsPlain name) (hdirectory : directory.IsTidy)
    (suffix encoding : String) :
    NormalForm (written current directory) (ofDirectory current directory suffix encoding).root ∧
      Confined (ofDirectory current directory suffix encoding) := by
  have hnormal : NormalForm (written current directory)
      (ofDirectory current directory suffix encoding).root := by
    rw [normalForm_iff]
    exact resolve_eq_walk (fun n hn => ⟨(hcurrent n hn).not_idle, (hcurrent n hn).ne_back⟩)
      hdirectory
  -- All that a store has to have for the rest is a root of plain names.
  have hroot : ∀ name ∈ (ofDirectory current directory suffix encoding).root, IsPlain name := by
    apply hnormal.isPlain
    intro name hname
    unfold written at hname
    split at hname
    · rcases List.mem_append.1 hname with hname | hname
      · exact (hcurrent name hname).no_slash
      · exact (hdirectory name hname).2
    · exact (hdirectory name hname).2
  refine ⟨hnormal, ?_⟩
  constructor
  · intro name
    refine ⟨_, normalForm_iff.2 rfl, ?_⟩
    intro place hplace
    exact normalForm_iff.1 hplace
  · exact locate?_eq_some_iff hroot
  · intro name place hplace
    have hform := ((locate?_eq_some_iff hroot name place).1 hplace).1
    exact hform.isPlain fun n hn => no_slash_of_mem_pieces hn
  · exact pathFor?_eq_some_iff hroot
  · intro m _ codecs disk disk' hsame name
    exact fetch_eq_of_sameInside hroot hsame name
  · intro codecs tree name text htext
    exact file_of_fetch hroot htext

/-- The store of the directory `site/../tpl` in `/srv`. -/
def siteStore : FileStore := ofDirectory ["srv"] (.ofText "site/../tpl") ".html" "utf-8"

/-- A name that leaves the directory and comes back has a place, and one of a directory beside it
    has none, though that one's name begins in the same way. -/
theorem siteStore_confined : (∀ name ∈ ["srv"], IsPlain name) ∧
    (Path.ofText "site/../tpl").IsTidy ∧ siteStore.root = ["srv", "tpl"] ∧
    NormalForm (siteStore.namesOf "../tpl/./x//y/../b") ["srv", "tpl", "x", "b.html"] ∧
    siteStore.locate? "/srv/tpl/b" = some ["srv", "tpl", "b.html"] ∧
    siteStore.locate? "../tpl2/b" = none ∧ siteStore.Confined := by
  have hcurrent : ∀ name ∈ ["srv"], IsPlain name := by
    intro name hname
    obtain rfl := List.mem_singleton.1 hname
    exact ⟨by decide, by decide, by decide⟩
  obtain ⟨-, hconfined⟩ :=
    confined_ofDirectory hcurrent (isTidy_ofText "site/../tpl") ".html" "utf-8"
  have hplace : siteStore.locate? "../tpl/./x//y/../b" = some ["srv", "tpl", "x", "b.html"] := by
    decide +kernel
  obtain ⟨hnormal, -⟩ := (hconfined.locate _ _).1 hplace
  exact ⟨hcurrent, isTidy_ofText _, by decide +kernel, hnormal, by decide +kernel,
    by decide +kernel, hconfined⟩

end FileStore

end TextTemplate
