import ObjectWrapper.Files.Path

namespace ObjectWrapper
namespace Files

/-!
# File trees

A tree holds directories and files, each at one location, which is the list of
names that lead to it from the root.  A path is followed segment by segment,
beginning at the root or at the working directory, and each segment needs a
directory to start from.  So `x/../f` needs a directory `x`, and `f/` names no
file.  Two paths name the same file exactly when they lead to the same location.

There are no links and no access rights, so the files of a tree can be read.  Of other
files it may only be known that they are there, and why they cannot be read.
-/

/-- The names that lead to an entry from the root. -/
abbrev Location := List String

/-- A location and the locations on the way to it, from the root on. -/
def Location.leading (location : Location) : List Location :=
  (List.range (location.length + 1)).map location.take

/-- Why a file cannot be read. -/
structure ReadFailure where
  /-- The file can be opened, and only what follows fails. -/
  isOpened : Bool
  /-- The reason that the operating system gives. -/
  reason : String
deriving DecidableEq, Repr

/-- What reading a file comes to. -/
inductive Content where
  | bytes (content : List UInt8)
  | unreadable (failure : ReadFailure)
deriving DecidableEq, Repr

/-- The bytes of a file that can be read. -/
def Content.bytes? : Content -> Option (List UInt8)
  | .bytes content => some content
  | .unreadable _ => none

/-- What a path names. -/
inductive Entry where
  | directory
  /-- A regular file. -/
  | file (location : Location) (content : Content)
deriving DecidableEq, Repr

/-- What can be found under each path, at one moment. -/
abbrev View := String -> Option Entry

/-- A regular file and a path that names it. -/
structure NamedFile where
  path : String
  location : Location
  content : Content
deriving DecidableEq, Repr

/-- The regular file a path names. -/
def View.file? (view : View) (path : String) : Option NamedFile :=
  match view path with
  | some (.file location content) => some ⟨path, location, content⟩
  | _ => none

/-- Directories and files. -/
structure Tree where
  /-- The location at which relative paths begin. -/
  workingDirectory : Location
  /-- The locations of directories other than the root. -/
  directories : List Location
  files : List (Location × List UInt8)
deriving DecidableEq, Repr

namespace Tree

/-- A tree with nothing but an empty working directory. -/
def empty (workingDirectory : Location) : Tree :=
  ⟨workingDirectory, Location.leading workingDirectory, []⟩

def isDirectory (tree : Tree) (location : Location) : Bool :=
  location.isEmpty || tree.directories.contains location

/-- The content of the file at a location. -/
def content? (tree : Tree) (location : Location) : Option (List UInt8) :=
  tree.files.lookup location

/-- What stands at a location. -/
def entryAt (tree : Tree) (location : Location) : Option Entry :=
  if tree.isDirectory location then some .directory
  else (tree.content? location).map fun content => .file location (.bytes content)

/-- The location that segments lead to.  There need not be anything at it, but
every segment but the last has to lead to a directory. -/
def walk (tree : Tree) (location : Location) : List String -> Option Location
  | [] => some location
  | segment :: rest =>
    if tree.isDirectory location then walk tree (Path.step location segment) rest else none

/-- Paths of this many bytes or more are refused. -/
def pathLimit : Nat := 4096

/-- Names of more than this many bytes are refused. -/
def nameLimit : Nat := 255

/-- The location that a path leads to. -/
def locate (tree : Tree) (path : String) : Option Location :=
  if path.isEmpty || pathLimit ≤ path.utf8ByteSize then none
  else
    let start := if Path.isAbsolute path then [] else tree.workingDirectory
    tree.walk start (Path.segments path)

/-- What a path names. -/
def view (tree : Tree) : View :=
  fun path => (tree.locate path).bind tree.entryAt

/-- Whether a file may have the name. -/
def isFileName (name : String) : Bool :=
  name.utf8ByteSize ≤ nameLimit && !name.toList.contains '\x00'

/-- The location at which a path creates a file or replaces its content, where
it can. -/
def creatable? (tree : Tree) (path : String) : Option Location :=
  match tree.locate path with
  | none => none
  | some location =>
    if tree.isDirectory location || !(location.getLast?.all isFileName) then none
    else some location

/-- The tree with a file at a location. -/
def put (tree : Tree) (location : Location) (content : List UInt8) : Tree :=
  { tree with
    files := (location, content) :: tree.files.filter fun file => file.1 != location }

/-- The tree with more content at the end of a file. -/
def append (tree : Tree) (location : Location) (content : List UInt8) : Tree :=
  tree.put location ((tree.content? location).getD [] ++ content)

/-- The tree with a directory at a location. -/
def makeDirectory (tree : Tree) (location : Location) : Tree :=
  if tree.isDirectory location then tree
  else { tree with directories := location :: tree.directories }

/-- The tree in which segments lead from one directory to the next, and where
they lead. -/
def makeWay (tree : Tree) (location : Location) : List String -> Tree × Location
  | [] => (tree, location)
  | segment :: rest =>
    let next := Path.step location segment
    makeWay (tree.makeDirectory next) next rest

/-- The tree with a file under a path and the directories that the path leads
through, also those it leaves again by `..`.  A path that ends in a slash stands
for a directory. -/
def install (tree : Tree) (path : String) (content : List UInt8) : Tree :=
  if Path.endsOpen path then (tree.makeWay tree.workingDirectory (Path.segments path)).1
  else
    let way := tree.makeWay tree.workingDirectory (Path.segments path).dropLast
    way.1.put (Path.step way.2 (Path.lastSegment path)) content

end Tree

end Files
end ObjectWrapper
