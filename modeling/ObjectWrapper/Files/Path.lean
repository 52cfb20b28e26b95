import ObjectWrapper.Text.Cut

namespace ObjectWrapper
namespace Path

/-!
# Paths as text

A path is written as segments with slashes between them.  It is absolute when
it begins with a slash.  Empty segments and `.` lead nowhere, except that a
path may begin with `.`; everything else, `..` included, is kept as it is
written, because what it leads to depends on the files there are.
-/

/-- The segments of a path. -/
def segments (path : String) : List String :=
  (Text.cut '/' path.toList).map String.ofList

/-- The path with the given segments. -/
def ofSegments (segments : List String) : String :=
  String.intercalate "/" segments

def isAbsolute (path : String) : Bool :=
  path.toList.head? == some '/'

/-- Whether a path ends in a slash. -/
def endsOpen (path : String) : Bool :=
  path.toList.getLast? == some '/'

/-- The path of `name` as seen from `directory`. -/
def join (directory name : String) : String :=
  if isAbsolute name || directory.isEmpty then name
  else if endsOpen directory then directory ++ name
  else directory ++ "/" ++ name

/-- Whether a segment leads nowhere. -/
def isIdle (segment : String) : Bool :=
  segment == "" || segment == "."

/-- The names that lead from the root to where one more segment leads. -/
def step (names : List String) (segment : String) : List String :=
  if isIdle segment then names
  else if segment = ".." then names.dropLast
  else names ++ [segment]

/-- The segments up to the last one that leads anywhere. -/
def dropIdleEnd (segments : List String) : List String :=
  (segments.reverse.dropWhile isIdle).reverse

/-- The path of the directory that a path names an entry of.  The root and the
empty path are entries of no directory; a path of one segment names an entry of
the directory with the empty path. -/
def parent? (path : String) : Option String :=
  match segments path with
  | [] => none
  | first :: rest =>
    match dropIdleEnd rest with
    | [] => if first.isEmpty then none else some ""
    | leading =>
      match dropIdleEnd leading.dropLast with
      | [] => some (if first.isEmpty then "/" else first)
      | above => some (ofSegments (first :: above))

/-- What follows the last slash of a path. -/
def lastSegment (path : String) : String :=
  (segments path).getLastD path

end Path
end ObjectWrapper
