namespace ObjectWrapper
namespace Release

/-!
# What the program says about itself

The revision numbers the layout of wrapper code.  Code of one revision is not
accepted by the support header of another.
-/

/-- The revision of the layout of wrapper code. -/
def revision : Nat := 67

def programVersion : String := "0.1.0"

/-- The reader of declarations that is used. -/
def declarationReader : String := "scanner"

/-- The preprocessor that is used. -/
def preprocessor : String := "token"

/-- The program's name and version. -/
def version : String :=
  s!"Object Wrapper Compiler version {revision} (owc {programVersion})"

/-- How the program is called. -/
def usageLines : List String :=
  ["Usage: owc [options] <header-file>",
    "  -o<file>           write output to file rather than stdout",
    "  -I<dir>            add dir to the include path for header files",
    "  -F<dir>            add dir to the framework include path",
    "  -E                 preprocess only; do not generate wrapper code",
    "  -D<macro>[=<def>]  define macro, with optional definition",
    "  -U<macro>          undefine macro",
    "  -i                 do not generate an #include statement",
    "  -p<path>           path prefix for included file",
    "  -f[<file>]         force #include, optional file name (overwrite default)",
    "  -b<file>           prepend #include <file> (preserve default include)",
    "  -nn                do not display notes",
    "  -nw                do not display warnings",
    "  @<file>            read additional options from file",
    "  -v                 display version of owc",
    "  --ignore-option-clashes",
    "                     ignore later -f, -b, -p and -n options"]

def usage : String :=
  String.intercalate "\n" usageLines

end Release
end ObjectWrapper
