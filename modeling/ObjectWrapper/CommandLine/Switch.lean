import ObjectWrapper.CommandLine.Problem
import ObjectWrapper.Files.Search

namespace ObjectWrapper
namespace CommandLine

open Files

/-!
# Switches

A command line is a list of switches.  A switch is one argument, or an option
letter and the next argument where its value is not attached.  Arguments that do
not begin with a hyphen name the input, and empty ones mean nothing.

After `--ignore-option-clashes`, arguments that begin with `-f`, `-b`, `-p` or
`-n` mean nothing either, since other compilers have options of these letters;
they are passed over alone, without a value.
-/

/-- What one or two arguments ask for. -/
inductive Switch where
  | input (path : String)
  | output (path : String)
  | preprocessOnly
  | suppressInclude
  /-- Include files, and among them the given one unless it is empty. -/
  | forceInclude (file : String)
  | prependInclude (file : String)
  | includePrefix (path : String)
  | search (directory : SearchDirectory)
  | define (name value : String)
  | undefine (name : String)
  | suppressNotes
  | suppressWarnings
  | showVersion
  | showHelp
  | invalid (problem : Problem)
deriving DecidableEq, Repr

/-- What an argument means in front of others. -/
structure Reading where
  switch? : Option Switch
  /-- Whether the next argument belongs to it as its value. -/
  takesNext : Bool
  /-- Whether clashing options are ignored from here on. -/
  ignoresClashes : Bool
deriving DecidableEq, Repr

/-- The value of an option whose letter is followed by `attached`, and whether
it is the next argument. -/
def optionValue (attached : String) (next? : Option String) : Option String × Bool :=
  if attached.isEmpty then (next?, next?.isSome) else (some attached, false)

/-- The name and value of a definition.  A name without a value is one. -/
def definitionParts (definition : String) : String × String :=
  match definition.toList.span (· != '=') with
  | (name, _ :: value) => (String.ofList name, String.ofList value)
  | (_, []) => (definition, "1")

/-- The switch that defines a name. -/
def defineSwitch (definition : String) : Switch :=
  let parts := definitionParts definition
  if parts.1.isEmpty then .invalid .macroNameMissing else .define parts.1 parts.2

/-- The switch that takes back a definition. -/
def undefineSwitch (name : String) : Switch :=
  if name.isEmpty then .invalid .macroNameMissing else .undefine name

/-- Whether an option letter clashes with options of other compilers. -/
def clashes (letter : Char) : Bool :=
  letter == 'f' || letter == 'b' || letter == 'p' || letter == 'n'

/-- The switch of an option that takes a value, if the letter is one of them,
by the value that there is. -/
def valueSwitch? (letter : Char) : Option (Option String -> Switch) :=
  match letter with
  | 'o' => some fun value => value.elim (.invalid .outputMissing) .output
  | 'b' => some fun value => value.elim (.invalid .prependedFileMissing) .prependInclude
  | 'p' => some fun value => value.elim (.invalid .includePrefixMissing) .includePrefix
  | 'I' => some fun value => value.elim (.invalid .directoryMissing) fun path =>
      .search ⟨path, false⟩
  | 'F' => some fun value => value.elim (.invalid .frameworkDirectoryMissing) fun path =>
      .search ⟨path, true⟩
  | 'D' => some fun value => defineSwitch (value.getD "")
  | 'U' => some fun value => undefineSwitch (value.getD "")
  | _ => none

/-- The switch of an option without a value, by its letter and what follows
it. -/
def plainSwitch (letter : Char) (suffix : String) : Switch :=
  match letter, suffix with
  | 'E', _ => .preprocessOnly
  | 'f', file => .forceInclude file
  | 'i', "" => .suppressInclude
  | 'n', "n" => .suppressNotes
  | 'n', "w" => .suppressWarnings
  | 'v', "" | 'v', "ersion" => .showVersion
  | 'h', "" | 'h', "elp" => .showHelp
  | _, _ => .invalid .invalidArgument

/-- Read an option: the letter after the hyphen, what follows it, and the next
argument. -/
def readOption (ignoresClashes : Bool) (letter : Char) (suffix : String)
    (next? : Option String) : Reading :=
  if letter = '-' ∧ suffix = "ignore-option-clashes" then ⟨none, false, true⟩
  else if ignoresClashes && clashes letter then ⟨none, false, ignoresClashes⟩
  else
    match valueSwitch? letter with
    | some switch =>
      let value := optionValue suffix next?
      ⟨some (switch value.1), value.2, ignoresClashes⟩
    | none => ⟨some (plainSwitch letter suffix), false, ignoresClashes⟩

/-- Read an argument in front of the next one. -/
def readArgument (ignoresClashes : Bool) (argument : String) (next? : Option String) : Reading :=
  match argument.toList with
  | [] => ⟨none, false, ignoresClashes⟩
  | ['-'] => ⟨some (.invalid .invalidArgument), false, ignoresClashes⟩
  | '-' :: letter :: suffix => readOption ignoresClashes letter (String.ofList suffix) next?
  | _ => ⟨some (.input argument), false, ignoresClashes⟩

/-- The switches of a command line. -/
def switches (ignoresClashes : Bool) : List String -> List Switch
  | [] => []
  | argument :: rest =>
    let reading := readArgument ignoresClashes argument rest.head?
    reading.switch?.toList ++
      switches reading.ignoresClashes (rest.drop (if reading.takesNext then 1 else 0))
termination_by arguments => arguments.length
decreasing_by exact Nat.lt_succ_of_le (by simp)

end CommandLine
end ObjectWrapper
