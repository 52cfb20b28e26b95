import Mathlib.Data.List.TakeDrop
import Mathlib.Data.List.TakeWhile
import ObjectWrapper.Files.Search
import ObjectWrapper.Proofs.Files.Path

namespace ObjectWrapper
namespace Files

/-!
# Where a header is found

A header is looked for in places, one after the other: beside the including file, if its
name is quoted, and then in the directories of the search path.  It is found in the first
place that has it as a regular file, and not found just if no place has it.

A place is said here to have a header under the path that the name is meant to stand for:
in a framework directory this is `Name.framework/Headers/rest` for the name `Name/rest`.
The search asks for another path if two slashes follow the framework's name.  The rest of
the name is an absolute path then, which does not begin at any directory: a file that the
directory has is not found, and one may be found that lies anywhere.
-/

/-- A place in which a header is looked for. -/
inductive Place where
  /-- The directory of the including file. -/
  | beside (directory : String)
  /-- A directory of the search path. -/
  | listed (directory : SearchDirectory)

/-- The place has the header of the name under the path. -/
inductive Place.Has : Place -> String -> String -> Prop where
  | beside (directory name : String) : Has (.beside directory) name (Path.join directory name)
  | plain (directory name : String) :
      Has (.listed ⟨directory, false⟩) name (Path.join directory name)
  | framework (directory : String) {framework rest : String} (named : framework ≠ "")
      (whole : '/' ∉ framework.toList) (nonempty : rest ≠ "") :
      Has (.listed ⟨directory, true⟩) (framework ++ "/" ++ rest)
        (Path.join directory (framework ++ ".framework/Headers/" ++ rest))

/-- No path under which the place has the header names a regular file. -/
def Place.Lacks (place : Place) (view : View) (name : String) : Prop :=
  ∀ path, place.Has name path -> view.file? path = none

/-- The places in which a header is looked for, in order. -/
def Header.places (header : Header) (searchPath : List SearchDirectory)
    (includer : Option String) : List Place :=
  (if header.isQuoted then (includer.bind Path.parent?).toList.map .beside else []) ++
    searchPath.map .listed

/-- The place has the header in the regular file, and no place before it has it. -/
def Header.IsFoundIn (header : Header) (view : View) (searchPath : List SearchDirectory)
    (includer : Option String) (place : Place) (file : NamedFile) : Prop :=
  ∃ before after, header.places searchPath includer = before ++ place :: after ∧
    (∀ earlier ∈ before, earlier.Lacks view header.name) ∧
      place.Has header.name file.path ∧ view.file? file.path = some file

/-- Two slashes follow the first part of the name. -/
def DoublesSlash (name : String) : Prop :=
  ∃ framework rest, framework ≠ "" ∧ '/' ∉ framework.toList ∧ name = framework ++ "//" ++ rest

/-- The place may be asked for the name: it is no framework directory, or the name has no
two slashes behind its first part. -/
def Place.Suits (place : Place) (name : String) : Prop :=
  ∀ directory, place = .listed ⟨directory, true⟩ -> ¬ DoublesSlash name

/-! ## Parts of a name -/

theorem span_append_slash {before : List Char} (whole : '/' ∉ before) (rest : List Char) :
    (before ++ '/' :: rest).span (· != '/') = (before, '/' :: rest) := by
  have inside : ∀ character ∈ before, (character != '/') = true := by
    intro character member
    rw [bne_iff_ne]
    rintro rfl
    exact whole member
  rw [List.span_eq_takeWhile_dropWhile, List.takeWhile_append_of_pos inside,
    List.dropWhile_append_of_pos inside]
  simp

theorem frameworkParts?_append {framework rest : String} (named : framework ≠ "")
    (whole : '/' ∉ framework.toList) (nonempty : rest ≠ "") :
    frameworkParts? (framework ++ "/" ++ rest) = some (framework, rest) := by
  have parts : (framework ++ "/" ++ rest).toList = framework.toList ++ '/' :: rest.toList := by
    simp
  have filled : (framework.toList.isEmpty || rest.toList.isEmpty) = false := by
    simp [named, nonempty]
  rw [frameworkParts?, parts, span_append_slash whole]
  simp [filled]

theorem of_frameworkParts? {name framework rest : String}
    (found : frameworkParts? name = some (framework, rest)) :
    framework ≠ "" ∧ '/' ∉ framework.toList ∧ rest ≠ "" ∧ name = framework ++ "/" ++ rest := by
  unfold frameworkParts? at found
  rw [List.span_eq_takeWhile_dropWhile] at found
  split at found
  · rename_i before slash after cut
    rw [Prod.mk.injEq] at cut
    split at found
    · cases found
    rename_i filled
    cases found
    have isSlash : slash = '/' := by
      have stops := List.head?_dropWhile_not (· != '/') name.toList
      rw [cut.2] at stops
      simpa using stops
    have outside : '/' ∉ before := by
      intro member
      rw [← cut.1] at member
      simpa using List.mem_takeWhile_imp member
    have characters : name.toList = before ++ '/' :: after := by
      rw [← isSlash, ← cut.1, ← cut.2, List.takeWhile_append_dropWhile]
    simp only [Bool.or_eq_true, List.isEmpty_iff, not_or] at filled
    refine ⟨by simpa using filled.1, by simpa using outside, by simpa using filled.2, ?_⟩
    rw [← String.toList_inj, characters]
    simp
  · cases found

/-! ## The path that is asked for -/

/-- The path under which a place is asked for the header of a name. -/
def Place.candidate? (place : Place) (name : String) : Option String :=
  match place with
  | .beside directory => some (Path.join directory name)
  | .listed directory => directory.candidate? name

/-- The path that a framework directory is asked for, whatever the name goes on with. -/
theorem candidate?_framework (directory : String) {framework rest : String}
    (named : framework ≠ "") (whole : '/' ∉ framework.toList) (nonempty : rest ≠ "") :
    SearchDirectory.candidate? ⟨directory, true⟩ (framework ++ "/" ++ rest) =
      some (if Path.isAbsolute rest then rest
        else Path.join directory (framework ++ ".framework/Headers/" ++ rest)) := by
  have folder : framework ++ ".framework" ≠ "" ∧
      Path.endsOpen (framework ++ ".framework") = false := by
    refine ⟨by simp, ?_⟩
    rw [Path.endsOpen, String.toList_append, List.getLast?_append_of_ne_nil _ (by simp)]
    rfl
  rw [SearchDirectory.candidate?, if_pos rfl, frameworkParts?_append named whole nonempty,
    Option.map_some]
  split
  · rename_i absolute
    rw [Path.join_of_isAbsolute _ absolute]
  · rename_i relative
    have closed : Path.endsOpen (framework ++ ".framework" ++ "/" ++ "Headers") = false := by
      rw [Path.endsOpen, String.toList_append, List.getLast?_append_of_ne_nil _ (by simp)]
      rfl
    rw [Path.join_join directory folder.1 folder.2 rfl,
      Path.join_join directory (by simp) closed (Bool.not_eq_true _ ▸ relative)]
    simp [String.append_assoc]

theorem isAbsolute_eq_false_of_not_doublesSlash {framework rest : String} (named : framework ≠ "")
    (whole : '/' ∉ framework.toList) (single : ¬ DoublesSlash (framework ++ "/" ++ rest)) :
    Path.isAbsolute rest = false := by
  rw [Bool.eq_false_iff]
  intro absolute
  rcases Path.eq_slash_append_of_isAbsolute absolute with ⟨more, rfl⟩
  refine single ⟨framework, more, named, whole, ?_⟩
  simp [← String.toList_inj]

/-- A place that suits a name is asked for the path under which it has the header. -/
theorem Place.Suits.candidate?_eq_some_iff {place : Place} {name : String}
    (suits : place.Suits name) {path : String} :
    place.candidate? name = some path ↔ place.Has name path := by
  constructor
  · intro asked
    match place with
    | .beside directory =>
      cases asked
      exact .beside directory name
    | .listed ⟨directory, false⟩ =>
      cases asked
      exact .plain directory name
    | .listed ⟨directory, true⟩ =>
      rcases Option.map_eq_some_iff.mp asked with ⟨⟨framework, rest⟩, parts, _⟩
      rcases of_frameworkParts? parts with ⟨named, whole, nonempty, rfl⟩
      have single := suits directory rfl
      have relative := isAbsolute_eq_false_of_not_doublesSlash named whole single
      have path := candidate?_framework directory named whole nonempty
      rw [relative, if_neg Bool.false_ne_true] at path
      cases path.symm.trans asked
      exact .framework directory named whole nonempty
  · intro has
    cases has with
    | beside => rfl
    | plain => rfl
    | framework directory named whole nonempty =>
      have single := suits directory rfl
      have relative := isAbsolute_eq_false_of_not_doublesSlash named whole single
      have path := candidate?_framework directory named whole nonempty
      rwa [relative, if_neg Bool.false_ne_true] at path

/-! ## The first file -/

theorem path_of_file? {view : View} {path : String} {file : NamedFile}
    (isFile : view.file? path = some file) : file.path = path := by
  unfold View.file? at isFile
  split at isFile
  · cases isFile
    rfl
  · cases isFile

section Search

variable (header : Header) (view : View) (searchPath : List SearchDirectory)
  (includer : Option String)

/-- The candidates are what the places are asked for, one after the other. -/
theorem candidates_eq_filterMap :
    header.candidates searchPath includer =
      (header.places searchPath includer).filterMap fun place => place.candidate? header.name := by
  rw [Header.candidates, Header.places, List.filterMap_append, List.filterMap_map]
  congr 1
  rw [Header.besideIncluder?]
  split
  · cases includer.bind Path.parent? <;> rfl
  · rfl

theorem find?_eq_findSome? :
    header.find? view searchPath includer =
      (header.places searchPath includer).findSome? fun place =>
        (place.candidate? header.name).bind view.file? := by
  rw [Header.find?, candidates_eq_filterMap, ← List.head?_filterMap, List.filterMap_filterMap,
    List.head?_filterMap]

/-- What a place is asked for is no regular file just if the place lacks the header. -/
theorem Place.Suits.bind_file?_eq_none_iff {place : Place} {name : String}
    (suits : place.Suits name) {view : View} :
    (place.candidate? name).bind view.file? = none ↔ place.Lacks view name := by
  rw [Option.bind_eq_none_iff]
  exact forall_congr' fun path => imp_congr_left suits.candidate?_eq_some_iff

theorem Place.Suits.bind_file?_eq_some_iff {place : Place} {name : String}
    (suits : place.Suits name) {view : View} {file : NamedFile} :
    (place.candidate? name).bind view.file? = some file ↔
      place.Has name file.path ∧ view.file? file.path = some file := by
  rw [Option.bind_eq_some_iff]
  constructor
  · rintro ⟨path, asked, isFile⟩
    obtain rfl := path_of_file? isFile
    exact ⟨suits.candidate?_eq_some_iff.mp asked, isFile⟩
  · rintro ⟨has, isFile⟩
    exact ⟨file.path, suits.candidate?_eq_some_iff.mpr has, isFile⟩

/-- The answer of the search is the file in the first place that has the header, there is
none just if no place has it, and what a framework directory has is below the headers of
the framework that the first part of the name is called after. -/
structure Header.FollowsOrder : Prop where
  found : ∀ file, header.find? view searchPath includer = some file ↔
    ∃ place, header.IsFoundIn view searchPath includer place file
  notFound : header.find? view searchPath includer = none ↔
    ∀ place ∈ header.places searchPath includer, place.Lacks view header.name
  below : ∀ directory file,
    header.IsFoundIn view searchPath includer (.listed ⟨directory, true⟩) file ->
      ∃ framework rest, '/' ∉ framework.toList ∧ header.name = framework ++ "/" ++ rest ∧
        file.path = Path.join directory (framework ++ ".framework/Headers/") ++ rest

variable {header}

theorem suits_of_mem_places
    (single : ∀ directory, ⟨directory, true⟩ ∈ searchPath -> ¬ DoublesSlash header.name) :
    ∀ place ∈ header.places searchPath includer, place.Suits header.name := by
  rintro place member directory rfl
  refine single directory ?_
  rw [Header.places, List.mem_append] at member
  rcases member with beside | listed
  · split at beside
    · rcases List.mem_map.mp beside with ⟨_, _, never⟩
      cases never
    · cases beside
  · rcases List.mem_map.mp listed with ⟨entry, inPath, same⟩
    cases same
    exact inPath

section Suits

variable {searchPath includer}
  (suits : ∀ place ∈ header.places searchPath includer, place.Suits header.name)
include suits

theorem find?_eq_some_iff (file : NamedFile) :
    header.find? view searchPath includer = some file ↔
      ∃ place, header.IsFoundIn view searchPath includer place file := by
  rw [find?_eq_findSome?, List.findSome?_eq_some_iff]
  constructor
  · rintro ⟨before, place, after, inOrder, isFile, none⟩
    rw [inOrder, List.forall_mem_append, List.forall_mem_cons] at suits
    refine ⟨place, before, after, inOrder, fun earlier member => ?_, ?_⟩
    · exact (suits.1 earlier member).bind_file?_eq_none_iff.mp (none earlier member)
    · exact suits.2.1.bind_file?_eq_some_iff.mp isFile
  · rintro ⟨place, before, after, inOrder, lacks, isFile⟩
    rw [inOrder, List.forall_mem_append, List.forall_mem_cons] at suits
    refine ⟨before, place, after, inOrder, ?_, fun earlier member => ?_⟩
    · exact suits.2.1.bind_file?_eq_some_iff.mpr isFile
    · exact (suits.1 earlier member).bind_file?_eq_none_iff.mpr (lacks earlier member)

theorem find?_eq_none_iff :
    header.find? view searchPath includer = none ↔
      ∀ place ∈ header.places searchPath includer, place.Lacks view header.name := by
  rw [find?_eq_findSome?, List.findSome?_eq_none_iff]
  exact forall₂_congr fun place member => (suits place member).bind_file?_eq_none_iff

end Suits

theorem Place.Has.exists_framework {directory name path : String}
    (has : (Place.listed ⟨directory, true⟩).Has name path) :
    ∃ framework rest, '/' ∉ framework.toList ∧ name = framework ++ "/" ++ rest ∧
      path = Path.join directory (framework ++ ".framework/Headers/") ++ rest := by
  cases has with
  | @framework _ framework rest named whole nonempty =>
    refine ⟨framework, rest, whole, rfl, ?_⟩
    exact Path.join_append directory (by simp) rest

/-- The search follows the order, unless it asks a framework directory for a name with two
slashes behind its first part. -/
theorem followsOrder_of_not_doublesSlash
    (single : ∀ directory, ⟨directory, true⟩ ∈ searchPath -> ¬ DoublesSlash header.name) :
    header.FollowsOrder view searchPath includer where
  found := find?_eq_some_iff view (suits_of_mem_places searchPath includer single)
  notFound := find?_eq_none_iff view (suits_of_mem_places searchPath includer single)
  below := by
    rintro directory file ⟨_, _, _, _, has, _⟩
    exact has.exists_framework

end Search

/-! ## Trees -/

/-- A tree in which `K/s/k.h` is a header of a framework in `fw`, and one in `include`. -/
def frameworksTree : Tree :=
  (((Tree.empty ["w"]).install "src/main.h" []).install "fw/K.framework/Headers/s/k.h" []).install
    "include/K/s/k.h" []

/-- The header is not beside the including file and not in `src`, and `include` comes too
late. -/
theorem followsOrder_of_not_doublesSlash_frameworks :
    (∀ directory, ⟨directory, true⟩ ∈
        [⟨"src", false⟩, ⟨"src", true⟩, ⟨"fw", true⟩, (⟨"include", false⟩ : SearchDirectory)] ->
          ¬ DoublesSlash "K/s/k.h") ∧
      Header.find? ⟨"K/s/k.h", true⟩ frameworksTree.view
          [⟨"src", false⟩, ⟨"src", true⟩, ⟨"fw", true⟩, ⟨"include", false⟩] (some "src/main.h") =
        some ⟨"fw/K.framework/Headers/s/k.h",
          ["w", "fw", "K.framework", "Headers", "s", "k.h"], .bytes []⟩ ∧
      Header.FollowsOrder ⟨"K/s/k.h", true⟩ frameworksTree.view
        [⟨"src", false⟩, ⟨"src", true⟩, ⟨"fw", true⟩, ⟨"include", false⟩] (some "src/main.h") := by
  have single : ¬ DoublesSlash "K/s/k.h" := by
    rintro ⟨framework, rest, _, _, equal⟩
    have doubled : ['/', '/'] <:+: "K/s/k.h".toList := by
      refine ⟨framework.toList, rest.toList, ?_⟩
      rw [equal]
      simp
    exact absurd doubled (by decide +kernel)
  exact ⟨fun _ _ => single, by decide +kernel,
    followsOrder_of_not_doublesSlash frameworksTree.view _ _ fun _ _ => single⟩

/-- A framework directory that is asked for a name with two slashes behind its first part
plays no part in the search. -/
theorem find?_framework_doubled (view : View) (directory : String) (includer : Option String)
    {framework : String} (named : framework ≠ "") (whole : '/' ∉ framework.toList)
    (rest : String) :
    Header.find? ⟨framework ++ "/" ++ ("/" ++ rest), false⟩ view [⟨directory, true⟩] includer =
      view.file? ("/" ++ rest) := by
  have asked := @candidate?_framework directory framework ("/" ++ rest) named whole (by simp)
  rw [Path.isAbsolute_slash_append, if_pos rfl] at asked
  rw [find?_eq_findSome?]
  simp [Header.places, Place.candidate?, asked]

/-- The file that a framework directory has under such a name is not found, and a file is
found that lies outside all directories. -/
theorem not_followsOrder_doubledSlash :
    ¬ Header.FollowsOrder ⟨"K//k.h", false⟩
        ((Tree.empty ["w"]).install "fw/K.framework/Headers/k.h" []).view [⟨"fw", true⟩] none ∧
      Header.find? ⟨"K//k.h", false⟩ ((Tree.empty ["w"]).put ["k.h"] []).view [⟨"fw", true⟩] none =
        some ⟨"/k.h", ["k.h"], .bytes []⟩ := by
  have asked : ∀ view, Header.find? ⟨"K//k.h", false⟩ view [⟨"fw", true⟩] none =
      view.file? "/k.h" := by
    intro view
    have name : "K//k.h" = "K" ++ "/" ++ ("/" ++ "k.h") := by decide
    rw [name]
    exact find?_framework_doubled view "fw" none (by decide) (by decide) "k.h"
  refine ⟨fun order => ?_, by rw [asked]; decide +kernel⟩
  have notFound : Header.find? ⟨"K//k.h", false⟩
      ((Tree.empty ["w"]).install "fw/K.framework/Headers/k.h" []).view [⟨"fw", true⟩] none =
        none := by
    rw [asked]
    decide +kernel
  have has := @Place.Has.framework "fw" "K" "/k.h" (by decide) (by decide) (by decide)
  have name : "K" ++ "/" ++ "/k.h" = "K//k.h" := by decide
  rw [name] at has
  have lacks := order.notFound.mp notFound _ (List.mem_singleton_self _) _ has
  exact absurd lacks (by decide +kernel)

end Files
end ObjectWrapper
