import ObjectWrapper.Proofs.CommandLine.Parts
import ObjectWrapper.Proofs.Text.Trimmed
import ObjectWrapper.Proofs.Text.Unicode

namespace ObjectWrapper
namespace CommandLine

open Files

/-!
# Option files in place of their arguments

The same arguments can be laid out in an option file in many ways.  Each stands on a line of
its own, but there may be white space around it and blank lines between, a line may end with
CRLF or LF, and the last one need not end at all.  `TextHolds` says of a text which arguments
it holds, without reading it.

Everything about reading such a text follows from one equation: the lines in front of a line
end and those behind it are read apart.  The CR of a line end is white space at the end of its
line.

An option file is replaced before anything is read as an option, so it makes no difference
where it stands, whether the options around it take arguments of the file for their values,
and which other option files there are.
-/

/-! ## Texts that hold arguments -/

/-- White space within a line. -/
def IsSpacing (space : List Char) : Prop :=
  ∀ character ∈ space, Blank.isBlank character = true ∧ character ≠ '\n'

/-- The argument can stand on a line of an option file, and stands for itself outside of it. -/
structure FitsLine (argument : String) : Prop where
  nonempty : argument ≠ ""
  noOptionFile : argument.toList.head? ≠ some '@'
  oneLine : '\n' ∉ argument.toList
  begins : ∀ character ∈ argument.toList.head?, Blank.isBlank character = false
  ends : ∀ character ∈ argument.toList.getLast?, Blank.isBlank character = false

instance : DecidablePred FitsLine := fun argument =>
  decidable_of_iff (argument ≠ "" ∧ argument.toList.head? ≠ some '@' ∧ '\n' ∉ argument.toList ∧
      argument.toList.head?.all (! Blank.isBlank ·) = true ∧
      argument.toList.getLast?.all (! Blank.isBlank ·) = true) <| by
    have dark : ∀ end? : Option Char, end?.all (! Blank.isBlank ·) = true ↔
        ∀ character ∈ end?, Blank.isBlank character = false := by
      simp [Option.all_eq_true]
    rw [dark, dark]
    exact ⟨fun ⟨nonempty, noOptionFile, oneLine, begins, ends⟩ =>
        ⟨nonempty, noOptionFile, oneLine, begins, ends⟩,
      fun fits => ⟨fits.nonempty, fits.noOptionFile, fits.oneLine, fits.begins, fits.ends⟩⟩

/-- A line holds one argument between white space, or nothing but white space. -/
inductive LineHolds : List String -> List Char -> Prop where
  | blank {space : List Char} (spacing : IsSpacing space) : LineHolds [] space
  | argument {before after : List Char} {argument : String} (front : IsSpacing before)
      (back : IsSpacing after) : LineHolds [argument] (before ++ argument.toList ++ after)

/-- The lines of a text hold the arguments. -/
inductive TextHolds : List String -> List Char -> Prop where
  | last {arguments : List String} {line : List Char} (holds : LineHolds arguments line) :
      TextHolds arguments line
  | line {first rest : List String} {line lineEnd text : List Char} (holds : LineHolds first line)
      (ends : lineEnd = ['\n'] ∨ lineEnd = ['\r', '\n']) (more : TextHolds rest text) :
      TextHolds (first ++ rest) (line ++ lineEnd ++ text)

/-! ## Reading lines -/

/-- What stands in front of a line end and what stands behind it are read apart. -/
theorem optionLines_append_lineFeed (line text : List Char) :
    optionLines (String.ofList (line ++ '\n' :: text)) =
      optionLines (String.ofList line) ++ optionLines (String.ofList text) := by
  simp only [optionLines, String.toList_ofList, Text.cut_append_separator, List.map_append,
    List.filter_append]

theorem optionLines_of_lineFeed_notMem {line : List Char} (oneLine : '\n' ∉ line) :
    optionLines (String.ofList line) =
      [Blank.trim (String.ofList line)].filter (! ·.isEmpty) := by
  rw [optionLines, String.toList_ofList, Text.cut_of_separator_notMem oneLine]
  rfl

/-- Trimming takes white space away, and nothing else. -/
theorem trim_append {before inner after : List Char} (front : IsSpacing before)
    (back : IsSpacing after) (begins : ∀ character ∈ inner.head?, Blank.isBlank character = false)
    (ends : ∀ character ∈ inner.getLast?, Blank.isBlank character = false) :
    Blank.trim (String.ofList (before ++ inner ++ after)) = String.ofList inner := by
  rw [Blank.trim, String.toList_ofList]
  exact congrArg String.ofList (Text.rdropWhile_dropWhile_append
    (fun character member => (front character member).1)
    (fun character member => (back character member).1) begins ends)

theorem IsSpacing.append {first second : List Char} (firstIs : IsSpacing first)
    (secondIs : IsSpacing second) : IsSpacing (first ++ second) :=
  List.forall_mem_append.mpr ⟨firstIs, secondIs⟩

theorem IsSpacing.lineFeed_notMem {space : List Char} (spacing : IsSpacing space) :
    '\n' ∉ space :=
  fun member => (spacing '\n' member).2 rfl

theorem LineHolds.append_spacing {arguments : List String} {line space : List Char}
    (holds : LineHolds arguments line) (spacing : IsSpacing space) :
    LineHolds arguments (line ++ space) := by
  cases holds with
  | blank blank => exact .blank (blank.append spacing)
  | argument front back =>
      rw [List.append_assoc]
      exact .argument front (back.append spacing)

theorem LineHolds.optionLines_eq {arguments : List String} {line : List Char}
    (holds : LineHolds arguments line) (fits : ∀ argument ∈ arguments, FitsLine argument) :
    optionLines (String.ofList line) = arguments := by
  cases holds with
  | blank spacing =>
      have nothing := @trim_append line [] [] spacing (List.forall_mem_nil _) (by simp) (by simp)
      rw [List.append_nil, List.append_nil] at nothing
      rw [optionLines_of_lineFeed_notMem spacing.lineFeed_notMem, nothing]
      rfl
  | @argument before after argument front back =>
      have fits := fits argument List.mem_cons_self
      have oneLine : '\n' ∉ before ++ argument.toList ++ after := by
        simp [front.lineFeed_notMem, fits.oneLine, back.lineFeed_notMem]
      rw [optionLines_of_lineFeed_notMem oneLine, trim_append front back fits.begins fits.ends,
        String.ofList_toList]
      simp [fits.nonempty]

theorem TextHolds.optionLines_eq {arguments : List String} {text : List Char}
    (holds : TextHolds arguments text) (fits : ∀ argument ∈ arguments, FitsLine argument) :
    optionLines (String.ofList text) = arguments := by
  induction holds with
  | last line => exact line.optionLines_eq fits
  | @line first rest line lineEnd text holds ends more ih =>
      rcases List.forall_mem_append.mp fits with ⟨firstFits, restFit⟩
      rcases ends with rfl | rfl
      · rw [List.append_assoc, List.singleton_append, optionLines_append_lineFeed,
          holds.optionLines_eq firstFits, ih restFit]
      · have spacing : IsSpacing ['\r'] := List.forall_mem_singleton.mpr (by decide)
        have split : line ++ ['\r', '\n'] ++ text = line ++ ['\r'] ++ '\n' :: text := by simp
        rw [split, optionLines_append_lineFeed,
          (holds.append_spacing spacing).optionLines_eq firstFits, ih restFit]

/-! ## Option files among arguments -/

theorem expandOptionFiles_append (view : View) (first second : List String) :
    expandOptionFiles view (first ++ second) =
      expandOptionFiles view first >>= fun before =>
        (expandOptionFiles view second).map (before ++ ·) := by
  induction first with
  | nil =>
      rw [List.nil_append, expandOptionFiles]
      cases expandOptionFiles view second <;> rfl
  | cons argument rest ih =>
      rw [List.cons_append, expandOptionFiles, expandOptionFiles, ih]
      simp only [bind_assoc]
      refine bind_congr fun lines => bind_congr fun before => ?_
      cases expandOptionFiles view second with
      | error problem => rfl
      | ok behind => exact congrArg Except.ok (List.append_assoc lines before behind).symm

/-- Arguments that stand for the same ones can be exchanged wherever they stand. -/
theorem resolve_congr_of_expandOptionFiles (workingDirectory : String) {view : View}
    {first second : List String}
    (same : expandOptionFiles view first = expandOptionFiles view second)
    (before after : List String) :
    resolve workingDirectory view (before ++ first ++ after) =
      resolve workingDirectory view (before ++ second ++ after) := by
  simp only [resolve, expandOptionFiles_append, same]

theorem expandOptionFiles_optionFile {view : View} {path : String} (named : path ≠ "")
    {file : NamedFile} (found : view.file? path = some file) {text : String}
    (content : file.content = .bytes (Unicode.encode text)) :
    expandOptionFiles view ["@" ++ path] = .ok (optionLines text) := by
  have isOptionFile : optionFile? ("@" ++ path) = some path := by
    simp [optionFile?]
  have read : readOptionFile view path = .ok (optionLines text) := by
    rw [readOptionFile, if_neg (by simpa using named), found, Option.bind_some, content,
      Content.bytes?, Option.bind_some, Unicode.decode?_encode]
  rw [expandOptionFiles, expandArgument, isOptionFile]
  simp only [read, expandOptionFiles]
  exact congrArg Except.ok (List.append_nil _)

/-- An option file stands for the arguments on its lines: with it a command line asks for what
it asks for with these arguments in its place, or is wrong as it is with them. -/
theorem resolve_optionFile (workingDirectory : String) {view : View} {path : String}
    {file : NamedFile} {arguments : List String} {text : String} (named : path ≠ "")
    (found : view.file? path = some file) (content : file.content = .bytes (Unicode.encode text))
    (fits : ∀ argument ∈ arguments, FitsLine argument) (holds : TextHolds arguments text.toList)
    (before after : List String) :
    resolve workingDirectory view (before ++ ["@" ++ path] ++ after) =
      resolve workingDirectory view (before ++ arguments ++ after) := by
  apply resolve_congr_of_expandOptionFiles
  have lines : optionLines text = arguments := by
    have read := holds.optionLines_eq fits
    rwa [String.ofList_toList] at read
  rw [expandOptionFiles_optionFile named found content, lines,
    expandOptionFiles_eq_ok fun argument member => (fits argument member).noOptionFile]

/-- Three arguments, between blank lines, with line ends of both kinds and none at the end. -/
def spreadOptions : String :=
  "\t-Iinc \r\n\n \u00a0\r\n-D\nA=a b"

theorem textHolds_spreadOptions : TextHolds ["-Iinc", "-D", "A=a b"] spreadOptions.toList := by
  have characters : spreadOptions.toList =
      ['\t'] ++ "-Iinc".toList ++ [' '] ++ ['\r', '\n'] ++ ([] ++ ['\n'] ++
        ([' ', '\u00a0'] ++ ['\r', '\n'] ++ ([] ++ "-D".toList ++ [] ++ ['\n'] ++
          ([] ++ "A=a b".toList ++ [])))) := by decide +kernel
  have spacing : ∀ space : List Char,
      space.all (fun character => Blank.isBlank character && character != '\n') = true ->
      IsSpacing space := by
    intro space every character member
    simpa using List.all_eq_true.mp every character member
  rw [characters]
  exact .line (.argument (spacing _ (by decide)) (spacing _ (by decide))) (.inr rfl)
    (.line (.blank (spacing _ (by decide))) (.inl rfl)
      (.line (.blank (spacing _ (by decide))) (.inr rfl)
        (.line (.argument (spacing _ (by decide)) (spacing _ (by decide))) (.inl rfl)
          (.last (.argument (spacing _ (by decide)) (spacing _ (by decide)))))))

/-- Two option files. -/
def optionTree : Tree :=
  ((Tree.empty ["w"]).install "first" "-E\n-o".toUTF8.toList).install "options"
    spreadOptions.toUTF8.toList

/-- The last option of the file in front takes the first line of this one for its value. -/
theorem resolve_optionFile_spread :
    "options" ≠ "" ∧
      optionTree.view.file? "options" =
        some ⟨"options", ["w", "options"], .bytes (Unicode.encode spreadOptions)⟩ ∧
      (∀ argument ∈ ["-Iinc", "-D", "A=a b"], FitsLine argument) ∧
      TextHolds ["-Iinc", "-D", "A=a b"] spreadOptions.toList ∧
      resolve "/w" optionTree.view (["@first"] ++ ["@" ++ "options"] ++ ["a.h"]) =
        resolve "/w" optionTree.view (["@first"] ++ ["-Iinc", "-D", "A=a b"] ++ ["a.h"]) := by
  have found : optionTree.view.file? "options" =
      some ⟨"options", ["w", "options"], .bytes (Unicode.encode spreadOptions)⟩ := by decide +kernel
  have fits : ∀ argument ∈ ["-Iinc", "-D", "A=a b"], FitsLine argument := by decide
  exact ⟨by decide, found, fits, textHolds_spreadOptions,
    resolve_optionFile "/w" (by decide) found rfl fits textHolds_spreadOptions ["@first"] ["a.h"]⟩

end CommandLine
end ObjectWrapper
