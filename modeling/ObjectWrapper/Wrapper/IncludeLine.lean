import ObjectWrapper.Settings

namespace ObjectWrapper
namespace Wrapper

/-!
# Include directives of wrapper code

A file is included by its path between quotes, after the prefix that was asked
for.  One that comes with quotes or angle brackets of its own is included as it
is written.
-/

/-- The prefix as it is written in front of a path: empty, or up to a slash.  A
prefix that leads nowhere is left out. -/
def writtenPrefix (settings : Settings) : String :=
  let given := settings.includePrefix?.getD ""
  let closed := if given.isEmpty || Path.endsOpen given then given else given ++ "/"
  if closed == "./" then "" else closed

/-- Whether a file comes with its own quotes or brackets. -/
def isDelimited (file : String) : Bool :=
  file.toList.head? == some '<' || file.toList.head? == some '"'

/-- The directive that includes a file. -/
def includeDirective (written : String) (file : String) : String :=
  if isDelimited file then s!"#include {file}" else s!"#include \"{written}{file}\""

/-- The include directives of wrapper code. -/
def includeDirectives (settings : Settings) : List String :=
  if settings.emitsIncludes then
    settings.includeFiles.map (includeDirective (writtenPrefix settings))
  else []

end Wrapper
end ObjectWrapper
