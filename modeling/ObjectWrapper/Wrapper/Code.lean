import ObjectWrapper.Declaration.Class
import ObjectWrapper.Release
import ObjectWrapper.Text.ByteText
import ObjectWrapper.Wrapper.IncludeLine

namespace ObjectWrapper
namespace Wrapper

open Declaration

/-!
# Wrapper code

The code for a header is a banner, the include directives, a check that the
support header has the right revision, and for each class a table with its name
and two functions.  Class names are text with one character per byte; paths are
Unicode text and are brought into that form.
-/

/-- What follows the last slash or backslash of a path. -/
def baseName (path : String) : String :=
  String.ofList (path.toList.reverse.takeWhile fun character =>
    character != '/' && character != '\\').reverse

/-- The name of the input as wrapper code shows it. -/
def shownInput (settings : Settings) : String :=
  ByteText.ofUnicode (baseName settings.inputName)

/-- The lines that begin wrapper code. -/
def banner (input : String) : List String :=
  ["/****************************************************************************",
    s!"** Wrapper code from reading C++ file '{input}'",
    "**",
    s!"** Created by: The {Release.version}",
    "**",
    "** WARNING! All changes made in this file will be lost!",
    "*****************************************************************************/",
    ""]

/-- The lines that refuse a support header of another revision. -/
def revisionCheck (input : String) : List String :=
  ["#if !defined(OWC_OUTPUT_REVISION)",
    s!"#error \"The header file '{input}' doesn't include the wrapper support header.\"",
    s!"#elif OWC_OUTPUT_REVISION != {Release.revision}",
    s!"#error \"This file was generated using owc revision {Release.revision} and cannot be used with other revisions.\"",
    "#endif"]

/-- The characters of a qualified name as part of an identifier: every `::`
becomes two underscores. -/
def identifierChars : List Char -> List Char
  | [] => []
  | ':' :: ':' :: rest => '_' :: '_' :: identifierChars rest
  | character :: rest => character :: identifierChars rest

/-- The identifier of the table of a class. -/
def tableName (declared : WrappedClass) : String :=
  "owc_stringdata_" ++ String.ofList (identifierChars declared.qualifiedName.toList)

def kindWord : WrapperKind -> String
  | .object => "object"
  | .gadget => "gadget"

/-- The line that returns the name of the first base class. -/
def baseLine (declared : WrappedClass) : String :=
  match declared.bases with
  | [] => "    return nullptr;"
  | base :: _ => s!"    return \"{base}\";"

/-- The lines for one class. -/
def classLines (declared : WrappedClass) : List String :=
  let qualified := declared.qualifiedName
  let table := tableName declared
  ["",
    s!"// Wrapper for {kindWord declared.kind} {qualified} declared at line {declared.line}",
    s!"static const char {table}[] = \"{qualified}\";",
    "",
    s!"const char *{qualified}::wrappedClassName()",
    "\x7b",
    s!"    return {table};",
    "\x7d",
    "",
    s!"const char *{qualified}::wrappedSuperClassName()",
    "\x7b",
    baseLine declared,
    "\x7d"]

/-- The lines of wrapper code. -/
def codeLines (settings : Settings) (classes : List WrappedClass) : List String :=
  let input := shownInput settings
  banner input ++ (includeDirectives settings).map ByteText.ofUnicode ++ revisionCheck input ++
    classes.flatMap classLines

/-- The bytes of wrapper code. -/
def code (settings : Settings) (classes : List WrappedClass) : List UInt8 :=
  (codeLines settings classes).flatMap fun line => ByteText.toBytes (line ++ "\n")

end Wrapper
end ObjectWrapper
