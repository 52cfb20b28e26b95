namespace ObjectWrapper
namespace CommandLine

/-!
# What can be wrong with a command line
-/

/-- Why a command line cannot be obeyed. -/
inductive Problem where
  /-- No name follows the sign of an option file. -/
  | optionFileMissing
  /-- An option file that is not there or is not Unicode text. -/
  | optionFileUnreadable (path : String)
  | tooManyInputs
  | outputMissing
  | prependedFileMissing
  | includePrefixMissing
  | directoryMissing
  | frameworkDirectoryMissing
  | macroNameMissing
  | invalidArgument
deriving DecidableEq, Repr

namespace Problem

/-- The problem in words. -/
def message : Problem -> String
  | optionFileMissing => "The @ option requires an input file"
  | optionFileUnreadable _ => "Cannot open options file specified with @"
  | tooManyInputs => "Too many input files specified"
  | outputMissing => "Missing output file name"
  | prependedFileMissing => "Missing file name for the -b option."
  | includePrefixMissing => "Missing path name for the -p option."
  | directoryMissing => "Missing path name for the -I option."
  | frameworkDirectoryMissing => "Missing path name for the -F option."
  | macroNameMissing => "Missing macro name"
  | invalidArgument => "Invalid argument"

/-- Whether the command line is at fault by its form, so that it helps to say
how the program is called. -/
def isUsage : Problem -> Bool
  | optionFileUnreadable _ => false
  | _ => true

end Problem

end CommandLine
end ObjectWrapper
