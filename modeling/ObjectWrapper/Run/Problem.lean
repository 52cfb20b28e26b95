import ObjectWrapper.CommandLine.Problem
import ObjectWrapper.Directive.Fault

namespace ObjectWrapper
namespace Run

/-!
# Why a run fails
-/

/-- Why a run fails. -/
inductive Problem where
  | commandLine (problem : CommandLine.Problem)
  | inputNotFound (path : String)
  /-- The input is there, but it is a directory. -/
  | inputIsDirectory
  /-- The input can be opened, but not read. -/
  | inputUnreadable (reason : String)
  | refused (refusal : Directive.Refusal)
  | outputNotCreated (path : String)
deriving DecidableEq, Repr

namespace Problem

/-- The problem in words. -/
def message : Problem -> String
  | commandLine problem => problem.message
  | inputNotFound path => s!"{path}: No such file"
  | inputIsDirectory => "IO error: Is a directory (os error 21)"
  | inputUnreadable reason => s!"IO error: {reason}"
  | refused refusal => refusal.message
  | outputNotCreated path => s!"Cannot create {path}"

/-- Whether it helps to say how the program is called. -/
def isUsage : Problem -> Bool
  | commandLine problem => problem.isUsage
  | _ => false

end Problem

end Run
end ObjectWrapper
