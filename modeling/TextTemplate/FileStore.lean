import TextTemplate.Catalog.Load
import TextTemplate.Codec
import TextTemplate.Disk

/-! # Templates in a directory

  A store that finds a template's text in a file: the template's name, with a
  suffix, is a path from the store's root.  A name that leads out of the root
  means no template, and one that leads out and back means what it leads to.
-/

namespace TextTemplate

/-- A directory of templates. -/
structure FileStore where
  /-- The root, by its names from the root of all files. -/
  root : List String
  /-- What is added to a name to make the name of its file. -/
  suffix : String
  encoding : String
  deriving Repr, DecidableEq

namespace FileStore

/-- The store of a directory. -/
def ofDirectory (current : List String) (directory : Path) (suffix encoding : String) : FileStore :=
  ⟨directory.resolve current, suffix, encoding⟩

/-- The place of a template's file, if it is in the root. -/
def locate? (s : FileStore) (name : String) : Option (List String) :=
  let place := ((Path.ofRoot s.root).join (.ofText (name ++ s.suffix))).resolve []
  if s.root.isPrefixOf place then some place else none

/-- The place of a template's file as a path from the root. -/
def pathFor? (s : FileStore) (name : String) : Option Path :=
  (s.locate? name).map fun place => ⟨.here, place.drop s.root.length⟩

/-- A name is no part of a path, since it holds a null character. -/
def nullInName : Unforeseen := .ofMessage "ValueError" "embedded null byte"

/-- A name or a path is too long to be looked for. -/
def nameTooLong : Unforeseen := .ofSystem Disk.tooLongNumber "File name too long"

/-- The answer about a file's bytes. -/
def readBytes (codecs : Codecs) (s : FileStore) (name : String) (bytes : List UInt8) : Fetched :=
  match codecs s.encoding with
  | .error u => .unforeseen u
  | .ok codec =>
    match codec bytes with
    | .ok text => .text (String.ofList (Text.normalLines text))
    | .error (.undecodable message) => .fault (.unreadable name (some message))
    | .error (.raised u) => .unforeseen u

/-- The store's reply for a name. -/
def fetch {m : Type → Type} [Monad m] (codecs : Codecs) (disk : Disk m) (s : FileStore)
    (name : String) : m Catalog.Reply := do
  if Path.hasNull (name ++ s.suffix) then
    return ⟨.unforeseen nullInName, none⟩
  match s.locate? name with
  | none => return ⟨.fault (.notFound name), none⟩
  | some place =>
    let path := Path.ofRoot place
    match ← disk.look path with
    | .absent | .directory => return ⟨.fault (.notFound name), none⟩
    | .tooLong => return ⟨.unforeseen nameTooLong, none⟩
    | .unreadable detail => return ⟨.fault (.unreadable name (some detail)), some path.text⟩
    | .file bytes => return ⟨s.readBytes codecs name bytes, some path.text⟩

end FileStore

end TextTemplate
