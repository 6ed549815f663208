/-!
# Files

The command line reads and writes files by name. What it needs is the class `FileAccess`; a
`Directory` is a small file system held in memory, seen from a working directory, that provides it.
The root, the working directory and all directories above it exist; any other directory exists as
far as files lie in it. What the directories above are called is not known, so no name leads from
one of them back down to the working directory. -/

namespace OnePass

/-- Why a file cannot be read or written. -/
inductive FileError where
  | notFound
  | isDirectory
  | notDirectory
  /-- The content is not UTF-8 text. -/
  | notText
  /-- Any other refusal, in the system's own words. -/
  | refused (text : String)
  deriving DecidableEq, Repr

/-- What is said of a file that cannot be read or written. -/
def FileError.message : FileError → String
  | .notFound => "No such file or directory (os error 2)"
  | .isDirectory => "Is a directory (os error 21)"
  | .notDirectory => "Not a directory (os error 20)"
  | .notText => "stream did not contain valid UTF-8"
  | .refused text => text

/-- Access to files of text by name. -/
class FileAccess (m : Type → Type) where
  readText : String → m (Except FileError String)
  writeText : String → String → m (Except FileError Unit)

/-- A directory that is known to exist. -/
inductive Anchor where
  | root
  /-- The directory so many levels above the working directory; with none, that one itself. -/
  | above (levels : Nat)
  deriving DecidableEq, Repr

/-- The directory above a known one. The root is above itself. -/
def Anchor.parent : Anchor → Anchor
  | .root => .root
  | .above levels => .above (levels + 1)

/-- A path: the names from a known directory down to a file or directory. -/
structure Path where
  anchor : Anchor := .above 0
  names : List String := []
  deriving DecidableEq, Repr

namespace Path

/-- The directory that a path lies in. -/
def parent (p : Path) : Path :=
  if p.names.isEmpty then ⟨p.anchor.parent, []⟩ else ⟨p.anchor, p.names.dropLast⟩

/-- The path of a name in a directory. -/
def child (p : Path) (name : String) : Path := ⟨p.anchor, p.names ++ [name]⟩

/-- A path lies below another. -/
def isBelow (p q : Path) : Bool :=
  p.anchor == q.anchor && q.names.isPrefixOf p.names && p.names != q.names

end Path

/-- Files in memory, by their paths. -/
structure Directory where
  files : List (Path × ByteArray) := []

namespace Directory

/-- The content of a file. -/
def content? (d : Directory) (path : Path) : Option ByteArray :=
  (d.files.find? (·.1 == path)).map (·.2)

/-- A path leads to a directory: to a known one, or to something that a file lies in. -/
def isDirectory (d : Directory) (path : Path) : Bool :=
  path.names.isEmpty || d.files.any (·.1.isBelow path)

/-- Replaces a file or adds it. -/
def put (d : Directory) (path : Path) (content : ByteArray) : Directory :=
  if (d.content? path).isSome then
    ⟨d.files.map fun file => if file.1 == path then (path, content) else file⟩
  else ⟨d.files ++ [(path, content)]⟩

/-- Goes one component of a name further from a directory. -/
def enter (d : Directory) (path : Path) (component : String) : Except FileError Path :=
  if !d.isDirectory path then .error (if (d.content? path).isSome then .notDirectory else .notFound)
  else if component == "" || component == "." then .ok path
  else if component == ".." then .ok path.parent
  else .ok (path.child component)

/-- Follows the components of a name. -/
def follow (d : Directory) (start : Path) (components : List String) : Except FileError Path :=
  components.foldlM d.enter start

/-- Where a name starts, and its components. A slash in front stands for the root; an empty name
    leads nowhere. -/
def components (name : String) : Except FileError (Path × List String) :=
  match name.splitOn "/" with
  | [""] => .error .notFound
  | "" :: components => .ok (⟨.root, []⟩, components)
  | components => .ok ({}, components)

/-- Reads a file. -/
def readText (d : Directory) (name : String) : Except FileError String := do
  let (start, components) ← components name
  let path ← d.follow start components
  match d.content? path with
  | some content =>
    match String.fromUTF8? content with
    | some text => .ok text
    | none => .error .notText
  | none => .error (if d.isDirectory path then .isDirectory else .notFound)

/-- A component that only a directory can have last. -/
def directoryOnly (component : String) : Bool :=
  component == "" || component == "." || component == ".."

/-- The path that a file of some name is written at. -/
def target (d : Directory) (name : String) : Except FileError Path := do
  let (start, components) ← components name
  let path ← d.follow start (components.reverse.dropWhile (· == "")).reverse
  if components.getLast?.any directoryOnly || d.isDirectory path then .error .isDirectory
  else .ok path

/-- Writes a file. -/
def writeText (d : Directory) (name text : String) : Except FileError Directory := do
  let path ← d.target name
  return d.put path text.toUTF8

/-- The files that another directory does not have, or has with other content. -/
def changesSince (d old : Directory) : List (Path × ByteArray) :=
  d.files.filter fun (path, content) =>
    match old.content? path with
    | some before => before.data != content.data
    | none => true

end Directory

instance : FileAccess (StateM Directory) where
  readText name := return (← get).readText name
  writeText name text := do
    match (← get).writeText name text with
    | .ok d =>
      set d
      return .ok ()
    | .error e => return .error e

end OnePass
