import ObjectWrapper.Files.Path

namespace ObjectWrapper
namespace CommandLine

/-!
# Paths relative to the output

Wrapper code includes its input by the path that leads there from the directory
of the output.  Both are taken as written: `..` takes back the name before it,
whether or not there is such a directory.  Paths that share no directory are not
related in this way, unless the output stands in the root, and the input's
absolute path is taken for them.
-/

/-- A path without segments that lead nowhere or back. -/
structure PlainPath where
  isRooted : Bool
  names : List String
deriving DecidableEq, Repr

namespace PlainPath

/-- The plain form of a path as seen from a working directory. -/
def ofPath (workingDirectory path : String) : PlainPath :=
  let whole := Path.join workingDirectory path
  ⟨Path.isAbsolute whole, (Path.segments whole).foldl Path.step []⟩

/-- The path as text. -/
def text (path : PlainPath) : String :=
  (if path.isRooted then "/" else "") ++ Path.ofSegments path.names

/-- The directory that the path names an entry of. -/
def directory (path : PlainPath) : PlainPath :=
  { path with names := path.names.dropLast }

end PlainPath

/-- The number of names that two lists have in common at their beginning. -/
def sharedLength : List String -> List String -> Nat
  | left :: lefts, right :: rights => if left = right then sharedLength lefts rights + 1 else 0
  | _, _ => 0

/-- The steps that lead from a directory to a target: back to the last directory
they share, and on from there. -/
def stepsBetween (directory target : List String) : List String :=
  let shared := sharedLength target directory
  List.replicate (directory.length - shared) ".." ++ target.drop shared

/-- Whether a directory leads to a target by a relative path at all. -/
def isRelated (directory target : PlainPath) : Bool :=
  directory.isRooted == target.isRooted &&
    (directory.names.isEmpty || sharedLength target.names directory.names != 0)

/-- Whether a directory and a path in it are short enough together. -/
def fits (limit? : Option Nat) (directory : PlainPath) (relative : String) : Bool :=
  limit?.all fun limit => directory.text.utf8ByteSize + relative.utf8ByteSize + 1 < limit

/-- The path of the input as seen from the directory of the output, or its
absolute path where that does not do. -/
def relativePath (workingDirectory : String) (limit? : Option Nat) (input output : String) :
    String :=
  let target := PlainPath.ofPath workingDirectory input
  let directory := (PlainPath.ofPath workingDirectory output).directory
  let relative := Path.ofSegments (stepsBetween directory.names target.names)
  if isRelated directory target && fits limit? directory relative then relative else target.text

end CommandLine
end ObjectWrapper
