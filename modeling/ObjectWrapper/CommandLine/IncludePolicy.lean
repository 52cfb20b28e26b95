import ObjectWrapper.CommandLine.RelativePath
import ObjectWrapper.Settings

namespace ObjectWrapper
namespace CommandLine

/-!
# What wrapper code includes by default

Unless the command line decides it, wrapper code includes its input exactly when
the input is a header.
-/

/-- What the command line leaves to be decided. -/
structure IncludePolicy where
  /-- Whether the name of the input decides if anything is included. -/
  followsExtension : Bool := true
  /-- Whether the input is included beside the files that were asked for. -/
  includesInput : Bool := true
deriving DecidableEq, Repr

/-- What follows the last period of a file name. -/
def extension? (name : String) : Option (List Char) :=
  let reversed := name.toList.reverse
  if reversed.contains '.' then some (reversed.takeWhile (· != '.')).reverse else none

/-- Whether a path has the name of a header: its extension begins with `h`. -/
def hasHeaderExtension (path : String) : Bool :=
  match extension? (Path.lastSegment path) with
  | some ('h' :: _) | some ('H' :: _) => true
  | _ => false

namespace IncludePolicy

/-- The mode of including that the policy decides on. -/
def mode (policy : IncludePolicy) (settings : Settings) : IncludeMode :=
  if policy.followsExtension then
    if settings.input?.any hasHeaderExtension then .automatic else .suppressed
  else settings.includeMode

/-- The path by which wrapper code includes its input.  With a prefix it is the
path within the directory of the input. -/
def inputFile (workingDirectory : String) (settings : Settings) (input : String) : String :=
  match settings.includePrefix?, settings.output? with
  | none, none => input
  | none, some output => relativePath workingDirectory none input output
  | some _, _ => relativePath workingDirectory none input input

/-- The files that wrapper code includes. -/
def files (policy : IncludePolicy) (workingDirectory : String) (settings : Settings) :
    List String :=
  if policy.includesInput then
    settings.includeFiles ++ (settings.input?.map (inputFile workingDirectory settings)).toList
  else settings.includeFiles

/-- The settings with everything decided. -/
def finish (policy : IncludePolicy) (workingDirectory : String) (settings : Settings) :
    Settings :=
  { settings with
    includeMode := policy.mode settings
    includeFiles := policy.files workingDirectory settings }

end IncludePolicy

end CommandLine
end ObjectWrapper
