import ObjectWrapper.CommandLine.Problem
import ObjectWrapper.Files.Tree
import ObjectWrapper.Text.Blank
import ObjectWrapper.Text.Cut
import ObjectWrapper.Text.Unicode

namespace ObjectWrapper
namespace CommandLine

open Files

/-!
# Option files

An argument that begins with `@` stands for the lines of a file, each of them
one argument, trimmed of white space.  Lines that are blank do not count.  A
line that begins with `@` stands for itself.
-/

/-- The path of the option file that an argument stands for. -/
def optionFile? (argument : String) : Option String :=
  match argument.toList with
  | '@' :: path => some (String.ofList path)
  | _ => none

/-- The arguments in the text of an option file. -/
def optionLines (text : String) : List String :=
  ((Text.cut '\n' text.toList).map fun line => Blank.trim (String.ofList line)).filter
    (! ·.isEmpty)

/-- The arguments in an option file. -/
def readOptionFile (view : View) (path : String) : Except Problem (List String) :=
  if path.isEmpty then .error .optionFileMissing
  else
    match (view.file? path).bind fun file => file.content.bytes?.bind Unicode.decode? with
    | some text => .ok (optionLines text)
    | none => .error (.optionFileUnreadable path)

/-- The arguments that one argument stands for. -/
def expandArgument (view : View) (argument : String) : Except Problem (List String) :=
  match optionFile? argument with
  | some path => readOptionFile view path
  | none => .ok [argument]

/-- The arguments with every option file replaced by its lines. -/
def expandOptionFiles (view : View) : List String -> Except Problem (List String)
  | [] => .ok []
  | argument :: rest => do
    let first <- expandArgument view argument
    let others <- expandOptionFiles view rest
    .ok (first ++ others)

end CommandLine
end ObjectWrapper
