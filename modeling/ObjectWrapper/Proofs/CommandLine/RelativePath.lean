import ObjectWrapper.CommandLine.RelativePath
import ObjectWrapper.Proofs.Files.Path

namespace ObjectWrapper
namespace CommandLine

/-!
# Relative paths lead back

Whatever form a path is given in, relative to the directory of the output or
absolute, it is read by those who compile the output, from the directory that the
output lies in.  The main statement is that it leads to the input from there.
This holds for paths as they are written; where a name before `..` is a link, the
file system may have another view.
-/

theorem PlainPath.ofPath_eq (workingDirectory path : String) :
    PlainPath.ofPath workingDirectory path =
      ⟨Path.isAbsolute (Path.join workingDirectory path),
        Path.follow [] (Path.join workingDirectory path)⟩ :=
  rfl

/-! ## Steps between directories -/

theorem sharedLength_le_right (left right : List String) :
    sharedLength left right ≤ right.length := by
  fun_induction sharedLength left right <;> simp_all

/-- What two lists share is the beginning of both. -/
theorem take_sharedLength (left right : List String) :
    left.take (sharedLength left right) = right.take (sharedLength left right) := by
  fun_induction sharedLength left right <;> simp_all

/-- The steps between two lists of names lead from the one to the other. -/
theorem foldl_step_stepsBetween (directory : List String) {target : List String}
    (named : ∀ name ∈ target, Path.IsName name) :
    (stepsBetween directory target).foldl Path.step directory = target := by
  have within := sharedLength_le_right target directory
  unfold stepsBetween
  rw [List.foldl_append, Path.foldl_step_replicate, Nat.sub_sub_self within,
    Path.foldl_step_of_isName (fun name member => named name (List.mem_of_mem_drop member)),
    ← take_sharedLength, List.take_append_drop]

theorem of_mem_stepsBetween {directory target : List String} {part : String}
    (member : part ∈ stepsBetween directory target) : part = ".." ∨ part ∈ target := by
  rcases List.mem_append.mp member with back | forward
  · exact Or.inl (List.eq_of_mem_replicate back)
  · exact Or.inr (List.mem_of_mem_drop forward)

/-! ## Absolute paths and their texts -/

theorem PlainPath.isRooted_ofPath {workingDirectory : String}
    (absolute : Path.isAbsolute workingDirectory = true) (path : String) :
    (PlainPath.ofPath workingDirectory path).isRooted = true := by
  change Path.isAbsolute (Path.join workingDirectory path) = true
  unfold Path.join
  split
  · rename_i alone
    simpa [Path.isEmpty_of_isAbsolute absolute] using alone
  · split
    · exact Path.isAbsolute_append absolute path
    · rw [String.append_assoc]
      exact Path.isAbsolute_append absolute _

theorem PlainPath.isName_of_mem_ofPath {workingDirectory path : String} :
    ∀ name ∈ (PlainPath.ofPath workingDirectory path).names, Path.IsName name :=
  Path.isName_of_mem_follow (fun _ member => absurd member List.not_mem_nil) _

theorem PlainPath.follow_text (path : PlainPath)
    (named : ∀ name ∈ path.names, Path.IsName name) : Path.follow [] path.text = path.names := by
  have names : Path.follow [] (Path.ofSegments path.names) = path.names := by
    rw [Path.follow_ofSegments [] (fun part member => (named part member).2.2),
      Path.foldl_step_of_isName named, List.nil_append]
  unfold PlainPath.text
  split
  · rw [Path.follow_slash_append, names]
  · rw [String.empty_append, names]

theorem PlainPath.isAbsolute_text {path : PlainPath} (rooted : path.isRooted = true) :
    Path.isAbsolute path.text = true := by
  rw [PlainPath.text, if_pos rooted]
  exact Path.isAbsolute_slash_append _

/-- From anywhere, the text of an absolute path without detours is that path. -/
theorem PlainPath.ofPath_text (workingDirectory : String) {path : PlainPath}
    (rooted : path.isRooted = true) (named : ∀ name ∈ path.names, Path.IsName name) :
    PlainPath.ofPath workingDirectory path.text = path := by
  have absolute := PlainPath.isAbsolute_text rooted
  have alone : Path.join workingDirectory path.text = path.text := by
    rw [Path.join, absolute, Bool.true_or, if_pos rfl]
  rw [PlainPath.ofPath_eq, alone, absolute, path.follow_text named, ← rooted]

/-- The steps from a directory, taken from there, lead to their target. -/
theorem PlainPath.ofPath_stepsBetween {directory target : PlainPath}
    (directoryRooted : directory.isRooted = true) (targetRooted : target.isRooted = true)
    (directoryNamed : ∀ name ∈ directory.names, Path.IsName name)
    (targetNamed : ∀ name ∈ target.names, Path.IsName name) :
    PlainPath.ofPath directory.text
      (Path.ofSegments (stepsBetween directory.names target.names)) = target := by
  have leads : ∀ part ∈ stepsBetween directory.names target.names,
      part ≠ "" ∧ '/' ∉ part.toList := by
    intro part member
    rcases of_mem_stepsBetween member with rfl | inTarget
    · decide
    · rcases targetNamed part inTarget with ⟨active, _, whole⟩
      exact ⟨fun equal => by simp [equal, Path.isIdle] at active, whole⟩
  have whole := fun part member => (leads part member).2
  have relative := Path.isAbsolute_ofSegments (fun part member => (leads part member).1) whole
  have absolute := PlainPath.isAbsolute_text directoryRooted
  have rooted : Path.isAbsolute (Path.join directory.text
      (Path.ofSegments (stepsBetween directory.names target.names))) = true :=
    PlainPath.isRooted_ofPath absolute _
  rw [PlainPath.ofPath_eq, rooted,
    Path.follow_join [] relative (Path.isEmpty_of_isAbsolute absolute),
    directory.follow_text directoryNamed, Path.follow_ofSegments _ whole,
    foldl_step_stepsBetween _ targetNamed, ← targetRooted]

/-- Taken from the directory of the output, the path by which wrapper code includes
its input leads to the input, whether it is relative, absolute because the two are
not related, or absolute because it would have been too long. -/
theorem ofPath_relativePath (workingDirectory : String) (limit? : Option Nat)
    (input output : String) (absolute : Path.isAbsolute workingDirectory = true) :
    PlainPath.ofPath (PlainPath.ofPath workingDirectory output).directory.text
        (relativePath workingDirectory limit? input output) =
      PlainPath.ofPath workingDirectory input := by
  have targetRooted := PlainPath.isRooted_ofPath absolute input
  have directoryRooted : (PlainPath.ofPath workingDirectory output).directory.isRooted = true :=
    PlainPath.isRooted_ofPath absolute output
  have directoryNamed : ∀ name ∈ (PlainPath.ofPath workingDirectory output).directory.names,
      Path.IsName name :=
    fun name member => PlainPath.isName_of_mem_ofPath name (List.dropLast_subset _ member)
  unfold relativePath
  simp only
  split
  · exact PlainPath.ofPath_stepsBetween directoryRooted targetRooted directoryNamed
      PlainPath.isName_of_mem_ofPath
  · exact PlainPath.ofPath_text _ targetRooted PlainPath.isName_of_mem_ofPath

/-- The input lies beside a directory that the output path leaves and enters again. -/
theorem ofPath_relativePath_siblings :
    Path.isAbsolute "/home/user" = true ∧
      PlainPath.ofPath (PlainPath.ofPath "/home/user" "x/../out//gen/./w.cpp").directory.text
          (relativePath "/home/user" (some 260) "../user/src/w.h" "x/../out//gen/./w.cpp") =
        PlainPath.ofPath "/home/user" "../user/src/w.h" := by
  have absolute : Path.isAbsolute "/home/user" = true := by decide
  exact ⟨absolute, ofPath_relativePath "/home/user" (some 260) "../user/src/w.h"
    "x/../out//gen/./w.cpp" absolute⟩

end CommandLine
end ObjectWrapper
