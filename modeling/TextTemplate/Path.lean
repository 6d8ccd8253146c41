import TextTemplate.Text.Search

/-! # Paths

  A path is a row of names, taken from the root of all files or from a working
  directory.  Empty names and `.` mean nothing and are left out when a path is
  read; `..` is kept until the path is resolved.  A path that starts with just
  two slashes keeps them both.

  Resolving leaves no `..`: each takes away the name before it, and above the
  root there is nothing to take away.

  A system takes names and paths up to a certain size.  What is larger cannot
  even be looked for.
-/

namespace TextTemplate

/-- Where a path starts. -/
inductive Path.Start where
  /-- At the working directory. -/
  | here
  /-- At the root. -/
  | root
  /-- At the root, written with two slashes. -/
  | doubleRoot
  deriving Repr, DecidableEq

/-- A path. -/
structure Path where
  start : Path.Start
  parts : List String
  deriving Repr, DecidableEq

namespace Path

/-- The text of a start. -/
def Start.text : Start → String
  | .here => ""
  | .root => "/"
  | .doubleRoot => "//"

/-- The start of a path's text. -/
def Start.ofChars : List Char → Start
  | '/' :: '/' :: '/' :: _ => .root
  | '/' :: '/' :: _ => .doubleRoot
  | '/' :: _ => .root
  | _ => .here

/-- The names in a path's text. -/
def namesIn (s : List Char) : List String :=
  ((Text.splitAll '/' s).filter fun name => name ≠ [] ∧ name ≠ ['.']).map String.ofList

/-- The path that a text writes. -/
def ofText (text : String) : Path := ⟨.ofChars text.toList, namesIn text.toList⟩

/-- The text of a path; that of the working directory is a point. -/
def text (p : Path) : String :=
  let all := p.start.text ++ "/".intercalate p.parts
  if all.isEmpty then "." else all

/-- The path of names from the root. -/
def ofRoot (parts : List String) : Path := ⟨.root, parts⟩

/-- The path without its last name. -/
def parent (p : Path) : Path := ⟨p.start, p.parts.dropLast⟩

/-- The second path, taken from the first one unless it starts at the root. -/
def join (p q : Path) : Path :=
  match q.start with
  | .here => ⟨p.start, p.parts ++ q.parts⟩
  | _ => q

/-- Goes one name on from a place that is given by its names from the root. -/
def enter (place : List String) (name : String) : List String :=
  if name = ".." then place.dropLast else place ++ [name]

/-- The names from the root of the place that a path means in a working directory. -/
def resolve (current : List String) (p : Path) : List String :=
  p.parts.foldl enter (match p.start with
    | .here => current
    | _ => [])

/-- Going on from a place without `..` leads to one without it. -/
theorem not_mem_enter {place : List String} (name : String) (h : ".." ∉ place) :
    ".." ∉ enter place name := by
  unfold enter
  split
  · exact fun hmem => h ((List.dropLast_prefix place).mem hmem)
  · next hname => simp [h, Ne.symm hname]

/-- In a working directory without `..` no path leads to a place with it. -/
theorem not_mem_resolve {current : List String} (p : Path) (h : ".." ∉ current) :
    ".." ∉ p.resolve current := by
  have hfold (names place : List String) (hplace : ".." ∉ place) :
      ".." ∉ names.foldl enter place := by
    induction names generalizing place with
    | nil => exact hplace
    | cons name rest ih => exact ih _ (not_mem_enter name hplace)
  unfold resolve
  cases p.start
  · exact hfold _ _ h
  · exact hfold _ _ List.not_mem_nil
  · exact hfold _ _ List.not_mem_nil

/-! ### What a system takes -/

/-- The most bytes of a name. -/
def maxNameSize : Nat := 255

/-- The most bytes of a path's text. -/
def maxSize : Nat := 4095

/-- Is the name short enough to be looked for? -/
def nameFits (name : String) : Bool := name.utf8ByteSize ≤ maxNameSize

/-- Is the path's text short enough to be looked for? -/
def fits (p : Path) : Bool := p.text.utf8ByteSize ≤ maxSize

/-- Is a character in a text that no path can hold? -/
def hasNull (text : String) : Bool := text.toList.contains '\x00'

end Path

end TextTemplate
