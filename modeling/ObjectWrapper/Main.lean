import ObjectWrapper.Run.Session

namespace ObjectWrapper
namespace Program

open Files

/-!
# The command line program

The program asks the file system about the paths a run needs and lets the run
go over what it has learnt, until the run asks about no other path.  Everything
is read before the output is created.
-/

/-- What has been learnt about paths. -/
abbrev Snapshot := List (String × Option Entry)

/-- The files as far as they are known. -/
def Snapshot.view (known : Snapshot) : View :=
  fun path => (known.lookup path).join

/-- Read a regular file. -/
def readFile (path : String) : IO Content := do
  match <- (IO.FS.Handle.mk path .read).toBaseIO with
  | .error failure => pure (.unreadable ⟨false, toString failure⟩)
  | .ok handle =>
    match <- handle.readBinToEnd.toBaseIO with
    | .error failure => pure (.unreadable ⟨true, toString failure⟩)
    | .ok content => pure (.bytes content.toList)

/-- Ask the file system what a path names.  What is neither a directory nor a regular file
counts as nothing. -/
def look (path : String) : IO (Option Entry) := do
  try
    let place <- IO.FS.realPath path
    let found <- place.metadata
    match found.type with
    | .dir => pure (some .directory)
    | .file =>
      let content <- readFile path
      pure (some (.file (Path.segments (toString place)) content))
    | _ => pure none
  catch _ => pure none

/-- Learn what paths name. -/
def Snapshot.learn (known : Snapshot) (paths : List String) : IO Snapshot := do
  let learnt <- paths.mapM fun path => do
    let entry <- look path
    pure (path, entry)
  pure (known ++ learnt)

/-- The result of a run, once it asks about known paths only. -/
partial def settle (known : Snapshot) (settings : Settings) (standardInput : List UInt8) :
    IO (Except Run.Problem Run.Product) := do
  let attempt := Run.attempt known.view settings standardInput
  match attempt.consulted.filter fun path => (known.lookup path).isNone with
  | [] => pure attempt.result
  | unknown => settle (<- known.learn unknown.eraseDups) settings standardInput

/-- Show a problem. -/
def report (problem : Run.Problem) : IO UInt32 := do
  IO.eprint (Run.problemText problem)
  pure 1

/-- Write a product to its output. -/
def write (output? : Option String) (product : Run.Product) : IO UInt32 := do
  match output? with
  | none => do
    IO.eprint product.notices
    let output <- IO.getStdout
    output.write (.mk product.bytes.toArray)
    output.flush
    pure 0
  | some path =>
    let written <- try
        IO.FS.writeBinFile path (.mk product.bytes.toArray)
        pure true
      catch _ => pure false
    if written then do
      IO.eprint product.notices
      pure 0
    else report (.outputNotCreated path)

/-- Run with the given settings. -/
def runSettings (settings : Settings) : IO UInt32 := do
  let known <- Snapshot.learn [] settings.input?.toList
  let standardInput <-
    if settings.input?.isSome then pure .empty else (<- IO.getStdin).readBinToEnd
  match <- settle known settings standardInput.toList with
  | .ok product => write settings.output? product
  | .error problem => report problem

/-- Obey the arguments of a call. -/
def call (arguments : List String) : IO UInt32 := do
  let known <- Snapshot.learn [] (arguments.filterMap CommandLine.optionFile?)
  let directory <- IO.currentDir
  match CommandLine.resolve (toString directory) known.view arguments with
  | .error problem => report (.commandLine problem)
  | .ok .showVersion => do
    IO.eprintln Release.version
    pure 1
  | .ok .showHelp => do
    IO.eprintln Release.usage
    pure 1
  | .ok (.run settings) => runSettings settings

end Program
end ObjectWrapper

def main (arguments : List String) : IO UInt32 :=
  ObjectWrapper.Program.call arguments
