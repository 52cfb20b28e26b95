import ObjectWrapper.Declaration.Scan
import ObjectWrapper.Preprocess.Run
import ObjectWrapper.Run.Problem
import ObjectWrapper.Source.Reassembly
import ObjectWrapper.Wrapper.Code

namespace ObjectWrapper
namespace Run

open Files Source

/-!
# The product of a run

All that a run reads it reads before it writes anything.  So its product, the
bytes to be written and the notices to be shown, is a function of the settings,
of what the files contain, and of standard input.  It does not depend on where
the bytes go.
-/

/-- What a run has to write and to say. -/
structure Product where
  bytes : List UInt8
  notices : String
deriving DecidableEq, Repr

/-- The bytes of the input. -/
def readInput (view : View) (settings : Settings) (standardInput : List UInt8) :
    Except Problem (List UInt8) :=
  match settings.input? with
  | none => .ok standardInput
  | some path =>
    match view path with
    | none => .error (.inputNotFound path)
    | some .directory => .error .inputIsDirectory
    | some (.file _ (.bytes content)) => .ok content
    | some (.file _ (.unreadable failure)) =>
      .error (if failure.isOpened then .inputUnreadable failure.reason else .inputNotFound path)

/-- The notices about a scan. -/
def reportNotices (settings : Settings) (report : Declaration.Report) : String :=
  let shown := Notice.shown settings.notices
  let warnings := report.warnings.map fun warning =>
    shown .warning settings.inputName warning.1 warning.2.message
  let notes :=
    if report.classes.isEmpty then
      [shown .note settings.inputName 0 "No relevant classes found. No output generated."]
    else []
  String.join (warnings ++ notes)

/-- The product for the tokens of a preprocessed input. -/
def productOf (settings : Settings) (tokens : List Token) : Product :=
  if settings.preprocessOnly then ⟨reassembledBytes tokens ++ [0x0a], ""⟩
  else
    let report := Declaration.scan tokens
    ⟨if report.classes.isEmpty then [] else Wrapper.code settings report.classes,
      reportNotices settings report⟩

/-- A product, or why there is none, and the paths under which headers were
looked for on the way. -/
structure Attempt where
  result : Except Problem Product
  consulted : List String

/-- Preprocess an input and make what is asked for of it. -/
def processInput (view : View) (settings : Settings) (input : List UInt8) : Attempt :=
  match Preprocess.preprocess ⟨view, settings.searchPath⟩ settings.inputName input
      (.initial settings.macros) with
  | .ok tokens state => ⟨.ok (productOf settings tokens), state.consulted⟩
  | .error refusal state => ⟨.error (.refused refusal), state.consulted⟩

/-- Attempt the product of a run. -/
def attempt (view : View) (settings : Settings) (standardInput : List UInt8) : Attempt :=
  match readInput view settings standardInput with
  | .error problem => ⟨.error problem, []⟩
  | .ok input => processInput view settings input

end Run
end ObjectWrapper
