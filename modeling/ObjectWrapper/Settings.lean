import ObjectWrapper.Files.Search
import ObjectWrapper.Macro.Table
import ObjectWrapper.Notice

namespace ObjectWrapper

open Files

/-!
# Settings of a run

What a command line asks for, with everything decided that can be decided
without reading the input.
-/

/-- Whether wrapper code includes any files. -/
inductive IncludeMode where
  | suppressed
  /-- It does, because the input is a header. -/
  | automatic
  /-- It does, because it was asked for. -/
  | explicit
deriving DecidableEq, Repr

/-- The settings of a run. -/
structure Settings where
  /-- The input file; standard input where there is none. -/
  input? : Option String := none
  /-- The output file; standard output where there is none. -/
  output? : Option String := none
  includeMode : IncludeMode := .automatic
  /-- The files that wrapper code includes, in order. -/
  includeFiles : List String := []
  /-- What is put in front of the paths of these files. -/
  includePrefix? : Option String := none
  notices : Notice.Filter := {}
  /-- Whether the preprocessed text is wanted rather than wrapper code. -/
  preprocessOnly : Bool := false
  macros : Macro.Table := .builtins
  searchPath : List SearchDirectory := []
deriving DecidableEq, Repr

namespace Settings

/-- Whether wrapper code includes its files. -/
def emitsIncludes (settings : Settings) : Bool :=
  settings.includeMode != .suppressed

/-- What the input is called in messages. -/
def inputName (settings : Settings) : String :=
  settings.input?.getD "standard input"

end Settings
end ObjectWrapper
