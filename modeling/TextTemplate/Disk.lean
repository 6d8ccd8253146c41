import TextTemplate.Path

/-! # Files

  What a program can see of files: what is at a path, and which directory it
  works in.  A `FileTree` gives all of it in one value; looking at a path in it
  goes from name to name and gets on only through directories.  A name that is
  too long stops the look where it is reached, and a path that is too long stops
  it at once.
-/

namespace TextTemplate

/-- What is at a path. -/
inductive DiskEntry where
  | absent
  | directory
  | file (bytes : List UInt8)
  /-- A file that cannot be read, with the system's words about it. -/
  | unreadable (detail : String)
  /-- The look came to a name or a path that is too long. -/
  | tooLong
  deriving Repr, DecidableEq

/-- The number that systems give to a look that came to something too long. -/
def Disk.tooLongNumber : Nat := 36

/-- Access to files. -/
structure Disk (m : Type → Type) where
  /-- The working directory, by its names from the root. -/
  current : List String
  look : Path → m DiskEntry

/-- Files with their bytes and directories, by their names from the root. -/
structure FileTree where
  current : List String
  entries : List (List String × Option (List UInt8))

namespace FileTree

/-- What is at a place.  A directory is there if it is listed or something is in it. -/
def entryAt (tree : FileTree) (place : List String) : DiskEntry :=
  match tree.entries.lookup place with
  | some (some bytes) => .file bytes
  | some none => .directory
  | none =>
    if place.isPrefixOf tree.current || tree.entries.any (place.isPrefixOf ·.1) then .directory
    else .absent

/-- What is at the end of a path from a place. -/
def walk (tree : FileTree) (place : List String) : List String → DiskEntry
  | [] => tree.entryAt place
  | name :: rest =>
    match tree.entryAt place with
    | .directory => if Path.nameFits name then walk tree (Path.enter place name) rest else .tooLong
    | _ => .absent

/-- The tree as access to files. -/
def disk (tree : FileTree) : Disk Id where
  current := tree.current
  look := fun p =>
    if p.fits then
      match p.start with
      | .here => tree.walk tree.current p.parts
      | _ => tree.walk [] p.parts
    else .tooLong

end FileTree

end TextTemplate
