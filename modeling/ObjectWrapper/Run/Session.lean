import ObjectWrapper.CommandLine.Resolution
import ObjectWrapper.Run.Product

namespace ObjectWrapper
namespace Run

open Files

/-!
# Runs on a file tree

A run goes through steps: it reads and makes its product, creates the output, shows its
notices and writes.  Each step acts on the files as they are by then, and what it has done
stays done where a later one fails.  Creating a file that is there leaves nothing of its
content, and the output is created even where there is nothing to write to it.
-/

/-- What the steps of a run act on: the files, and what has been written to standard
output and shown so far. -/
structure World where
  tree : Tree
  standardOutput : List UInt8 := []
  notices : String := ""
deriving DecidableEq, Repr

/-- A step of a run. -/
abbrev Act (α : Type) := EStateM Problem World α

/-- Where bytes are written to. -/
inductive Sink where
  | standardOutput
  | file (location : Location)
deriving DecidableEq, Repr

/-- Read the input and everything it includes, and make the product. -/
def prepare (settings : Settings) (standardInput : List UInt8) : Act Product := do
  let world <- get
  MonadExcept.ofExcept (attempt world.tree.view settings standardInput).result

/-- Create the output. -/
def create (output? : Option String) : Act Sink := do
  match output? with
  | none => pure .standardOutput
  | some path =>
    let world <- get
    let location <- MonadExcept.ofExcept
      ((world.tree.creatable? path).elim (.error (.outputNotCreated path)) .ok)
    set { world with tree := world.tree.put location [] }
    pure (.file location)

/-- Show a text to the user. -/
def inform (text : String) : Act Unit :=
  modify fun world => { world with notices := world.notices ++ text }

/-- Write bytes after what has been written. -/
def write (sink : Sink) (bytes : List UInt8) : Act Unit :=
  modify fun world =>
    match sink with
    | .standardOutput => { world with standardOutput := world.standardOutput ++ bytes }
    | .file location => { world with tree := world.tree.append location bytes }

/-- The steps of a run. -/
def perform (settings : Settings) (standardInput : List UInt8) : Act Unit := do
  let product <- prepare settings standardInput
  let sink <- create settings.output?
  inform product.notices
  write sink product.bytes

/-- What a run leaves behind. -/
structure Outcome where
  tree : Tree
  standardOutput : List UInt8
  notices : String
  problem? : Option Problem
deriving DecidableEq, Repr

/-- What steps leave behind that begin with the given files. -/
def Act.outcome (steps : Act Unit) (tree : Tree) : Outcome :=
  match steps { tree } with
  | .ok _ world => ⟨world.tree, world.standardOutput, world.notices, none⟩
  | .error problem world => ⟨world.tree, world.standardOutput, world.notices, some problem⟩

/-- Run with the given settings. -/
def run (tree : Tree) (settings : Settings) (standardInput : List UInt8) : Outcome :=
  (perform settings standardInput).outcome tree

/-- The path of the working directory. -/
def workingPath (tree : Tree) : String :=
  "/" ++ Path.ofSegments tree.workingDirectory

/-- What arguments ask for in a tree. -/
def resolve (tree : Tree) (arguments : List String) :
    Except CommandLine.Problem CommandLine.Resolution :=
  CommandLine.resolve (workingPath tree) tree.view arguments

/-! ## The program as a whole -/

/-- What the program shows of a problem. -/
def problemText (problem : Problem) : String :=
  s!"owc: {problem.message}\n" ++ if problem.isUsage then Release.usage ++ "\n" else ""

/-- What a call of the program leaves behind and shows. -/
structure Exit where
  succeeds : Bool
  tree : Tree
  standardOutput : List UInt8
  standardError : String
deriving DecidableEq, Repr

/-- The end of a call that only shows a text. -/
def Exit.telling (tree : Tree) (text : String) : Exit :=
  ⟨false, tree, [], text⟩

/-- The end of a call that runs. -/
def Outcome.exit (outcome : Outcome) : Exit :=
  ⟨outcome.problem?.isNone, outcome.tree, outcome.standardOutput,
    outcome.notices ++ (outcome.problem?.map problemText).getD ""⟩

/-- Call the program with the bytes of its arguments, which are read as Unicode
text as far as they are. -/
def call (tree : Tree) (arguments : List (List UInt8)) (standardInput : List UInt8) : Exit :=
  match resolve tree (arguments.map Unicode.repair) with
  | .error problem => .telling tree (problemText (.commandLine problem))
  | .ok .showVersion => .telling tree (Release.version ++ "\n")
  | .ok .showHelp => .telling tree (Release.usage ++ "\n")
  | .ok (.run settings) => (run tree settings standardInput).exit

end Run
end ObjectWrapper
