import ObjectWrapper.Files.Tree

namespace ObjectWrapper
namespace Files

/-!
# Search for headers

A header is looked for under a list of paths, and the first one that names a
regular file is it.  A quoted name is tried beside the including file first;
then come the directories of the search path in their order.  A framework
directory has the header `Name/rest` as `Name.framework/Headers/rest`.
-/

/-- A directory of the search path. -/
structure SearchDirectory where
  path : String
  isFramework : Bool
deriving DecidableEq, Repr

/-- A header as an include directive names it. -/
structure Header where
  name : String
  /-- Whether the name stands between quotes rather than angle brackets. -/
  isQuoted : Bool
deriving DecidableEq, Repr

/-- The two parts of a header name that a framework directory looks at: what
comes before the first slash and what comes after it. -/
def frameworkParts? (name : String) : Option (String × String) :=
  match name.toList.span (· != '/') with
  | (framework, _ :: rest) =>
    if framework.isEmpty || rest.isEmpty then none
    else some (String.ofList framework, String.ofList rest)
  | (_, []) => none

/-- The path a directory of the search path has a header under. -/
def SearchDirectory.candidate? (directory : SearchDirectory) (name : String) : Option String :=
  if directory.isFramework then
    (frameworkParts? name).map fun parts =>
      Path.join (Path.join (Path.join directory.path (parts.1 ++ ".framework")) "Headers") parts.2
  else some (Path.join directory.path name)

/-- The path a quoted header has beside the file that includes it. -/
def Header.besideIncluder? (header : Header) (includer : Option String) : Option String :=
  if header.isQuoted then (includer.bind Path.parent?).map (Path.join · header.name) else none

/-- The paths under which a header is looked for, in order. -/
def Header.candidates (header : Header) (searchPath : List SearchDirectory)
    (includer : Option String) : List String :=
  (header.besideIncluder? includer).toList ++
    searchPath.filterMap fun directory => directory.candidate? header.name

/-- The file in which a header is found. -/
def Header.find? (header : Header) (view : View) (searchPath : List SearchDirectory)
    (includer : Option String) : Option NamedFile :=
  (header.candidates searchPath includer).findSome? view.file?

end Files
end ObjectWrapper
