import Mathlib.Data.List.Basic
import ObjectWrapper.Files.Path

namespace ObjectWrapper
namespace Path

/-!
# Where paths lead

Followed as it is written, a path leads from a list of names to another one,
whatever files there are.  To follow the path that joins two others is to follow
the one and then the other.  A path put together from segments leads to where its
segments lead, and from names that could stand in a path no others are reached.
-/

/-- The names that a path leads to from the given ones. -/
def follow (names : List String) (path : String) : List String :=
  (segments path).foldl step names

/-- A segment that leads to an entry of the directory it is read in. -/
def IsName (segment : String) : Prop :=
  isIdle segment = false ∧ segment ≠ ".." ∧ '/' ∉ segment.toList

theorem step_of_isName {segment : String} (named : IsName segment) (names : List String) :
    step names segment = names ++ [segment] := by
  rw [step, named.1, if_neg Bool.false_ne_true, if_neg named.2.1]

/-! ## Segments of composed paths -/

theorem segments_append_slash (first second : String) :
    segments (first ++ "/" ++ second) = segments first ++ segments second := by
  have whole : (first ++ "/" ++ second).toList = first.toList ++ '/' :: second.toList := by
    simp
  rw [segments, whole, Text.cut_append_separator, List.map_append]
  rfl

theorem segments_ofSegments {parts : List String} (nonempty : parts ≠ [])
    (whole : ∀ part ∈ parts, '/' ∉ part.toList) : segments (ofSegments parts) = parts := by
  have cut : Text.cut '/' (ofSegments parts).toList = parts.map String.toList := by
    rw [ofSegments, String.toList_intercalate]
    apply Text.cut_intercalate (by simpa using nonempty)
    intro part member
    rcases List.mem_map.mp member with ⟨text, textMember, rfl⟩
    exact whole text textMember
  rw [segments, cut, List.map_map]
  simp [Function.comp_def]

theorem slash_notMem_of_mem_segments {path segment : String}
    (member : segment ∈ segments path) : '/' ∉ segment.toList := by
  rcases List.mem_map.mp member with ⟨characters, cutMember, rfl⟩
  simpa using Text.separator_notMem_cut cutMember

theorem eq_slash_append_of_isAbsolute {path : String} (absolute : isAbsolute path = true) :
    ∃ rest, path = "" ++ "/" ++ rest := by
  rcases List.head?_eq_some_iff.mp (beq_iff_eq.mp absolute) with ⟨characters, equal⟩
  exact ⟨String.ofList characters, String.toList_inj.mp (by simp [equal])⟩

theorem eq_append_slash_of_endsOpen {path : String} (isOpen : endsOpen path = true) :
    ∃ before, path = before ++ "/" := by
  rcases List.getLast?_eq_some_iff.mp (beq_iff_eq.mp isOpen) with ⟨characters, equal⟩
  exact ⟨String.ofList characters, String.toList_inj.mp (by simp [equal])⟩

/-- The first segment of an absolute path is empty. -/
theorem exists_segments_of_isAbsolute {path : String} (absolute : isAbsolute path = true) :
    ∃ rest, segments path = "" :: rest := by
  rcases eq_slash_append_of_isAbsolute absolute with ⟨rest, rfl⟩
  exact ⟨segments rest, segments_append_slash "" rest⟩

theorem isAbsolute_slash_append (rest : String) : isAbsolute ("/" ++ rest) = true := by
  simp [isAbsolute]

theorem isAbsolute_append {path : String} (absolute : isAbsolute path = true) (rest : String) :
    isAbsolute (path ++ rest) = true := by
  rcases eq_slash_append_of_isAbsolute absolute with ⟨inner, rfl⟩
  rw [String.empty_append, String.append_assoc]
  exact isAbsolute_slash_append _

theorem isEmpty_of_isAbsolute {path : String} (absolute : isAbsolute path = true) :
    path.isEmpty = false := by
  rcases eq_slash_append_of_isAbsolute absolute with ⟨rest, rfl⟩
  simp

/-- A path that begins with a name is not absolute. -/
theorem isAbsolute_ofSegments {parts : List String} (leads : ∀ part ∈ parts, part ≠ "")
    (whole : ∀ part ∈ parts, '/' ∉ part.toList) : isAbsolute (ofSegments parts) = false := by
  cases parts with
  | nil => rfl
  | cons first more =>
      cases absolute : isAbsolute (ofSegments (first :: more)) with
      | false => rfl
      | true =>
          rcases exists_segments_of_isAbsolute absolute with ⟨rest, found⟩
          rw [segments_ofSegments (List.cons_ne_nil first more) whole] at found
          exact absurd (List.cons.inj found).1 (leads first List.mem_cons_self)

/-! ## Following composed paths -/

theorem follow_empty (names : List String) : follow names "" = names :=
  rfl

theorem follow_append_slash (names : List String) (first second : String) :
    follow names (first ++ "/" ++ second) = follow (follow names first) second := by
  rw [follow, segments_append_slash, List.foldl_append]
  rfl

theorem follow_slash_append (names : List String) (path : String) :
    follow names ("/" ++ path) = follow names path := by
  have separated : "/" ++ path = "" ++ "/" ++ path := by rw [String.empty_append]
  rw [separated, follow_append_slash, follow_empty]

theorem follow_ofSegments (names : List String) {parts : List String}
    (whole : ∀ part ∈ parts, '/' ∉ part.toList) :
    follow names (ofSegments parts) = parts.foldl step names := by
  cases parts with
  | nil => rfl
  | cons first more => rw [follow, segments_ofSegments (List.cons_ne_nil first more) whole]

/-- A relative path is followed from where its directory leads. -/
theorem follow_join (names : List String) {directory name : String}
    (relative : isAbsolute name = false) (nonempty : directory.isEmpty = false) :
    follow names (join directory name) = follow (follow names directory) name := by
  rw [join, relative, nonempty, Bool.or_self, if_neg Bool.false_ne_true]
  split
  · rename_i isOpen
    rcases eq_append_slash_of_endsOpen isOpen with ⟨before, rfl⟩
    have closed : follow names (before ++ "/") = follow names before := by
      have separated : before ++ "/" = before ++ "/" ++ "" := by rw [String.append_empty]
      rw [separated, follow_append_slash, follow_empty]
    rw [follow_append_slash, closed]
  · exact follow_append_slash names directory name

/-! ## Text of joined paths -/

theorem isAbsolute_append_of_ne {first : String} (nonempty : first ≠ "") (more : String) :
    isAbsolute (first ++ more) = isAbsolute first := by
  rw [isAbsolute, isAbsolute, String.toList_append, List.head?_append_of_ne_nil]
  exact mt String.toList_eq_nil_iff.mp nonempty

/-- What is appended to a name is appended to every path that is joined with it. -/
theorem join_append (directory : String) {name : String} (nonempty : name ≠ "") (more : String) :
    join directory (name ++ more) = join directory name ++ more := by
  rw [join, join, isAbsolute_append_of_ne nonempty]
  split
  · rfl
  split
  · exact String.append_assoc.symm
  · exact String.append_assoc.symm

/-- A joined path ends as the name does. -/
theorem exists_join_eq_append (directory name : String) :
    ∃ before, join directory name = before ++ name := by
  unfold join
  split
  · exact ⟨"", by rw [String.empty_append]⟩
  split
  · exact ⟨directory, rfl⟩
  · exact ⟨directory ++ "/", rfl⟩

/-- Two names are joined by one slash, if the second one is no path of its own. -/
theorem join_join (directory : String) {first second : String} (nonempty : first ≠ "")
    (closed : endsOpen first = false) (relative : isAbsolute second = false) :
    join (join directory first) second = join directory (first ++ "/" ++ second) := by
  have whole : (join directory first).isEmpty = false ∧
      endsOpen (join directory first) = false := by
    rcases exists_join_eq_append directory first with ⟨before, joined⟩
    have last : first.toList ≠ [] := mt String.toList_eq_nil_iff.mp nonempty
    rw [joined, endsOpen, String.toList_append, List.getLast?_append_of_ne_nil _ last]
    exact ⟨by simp [nonempty], closed⟩
  rw [String.append_assoc, join_append directory nonempty, join, relative, whole.1, whole.2]
  simp [String.append_assoc]

theorem join_of_isAbsolute (directory : String) {name : String}
    (absolute : isAbsolute name = true) : join directory name = name := by
  rw [join, absolute, Bool.true_or, if_pos rfl]

/-! ## Names -/

theorem foldl_step_of_isName {parts : List String} (named : ∀ part ∈ parts, IsName part)
    (names : List String) : parts.foldl step names = names ++ parts := by
  induction parts generalizing names with
  | nil => simp
  | cons first more ih =>
      rw [List.foldl_cons, step_of_isName (named first List.mem_cons_self),
        ih (fun part member => named part (List.mem_cons_of_mem first member)),
        List.append_assoc, List.singleton_append]

/-- Each `..` takes back one name, as long as there is one. -/
theorem foldl_step_replicate (count : Nat) (names : List String) :
    (List.replicate count "..").foldl step names = names.take (names.length - count) := by
  induction count generalizing names with
  | zero => simp
  | succ count ih =>
      have back : step names ".." = names.dropLast := rfl
      rw [List.replicate_succ, List.foldl_cons, back, ih, List.dropLast_eq_take, List.take_take,
        List.length_take]
      congr 1
      omega

theorem isName_of_mem_step {names : List String} {segment : String} (whole : '/' ∉ segment.toList)
    (named : ∀ name ∈ names, IsName name) : ∀ name ∈ step names segment, IsName name := by
  intro name member
  unfold step at member
  split at member
  · exact named name member
  · rename_i leads
    split at member
    · exact named name (List.dropLast_subset names member)
    · rename_i forward
      rcases List.mem_append.mp member with before | last
      · exact named name before
      · rw [List.mem_singleton] at last
        subst name
        exact ⟨Bool.eq_false_iff.mpr leads, forward, whole⟩

theorem isName_of_mem_foldl_step {parts names : List String}
    (whole : ∀ part ∈ parts, '/' ∉ part.toList) (named : ∀ name ∈ names, IsName name) :
    ∀ name ∈ parts.foldl step names, IsName name := by
  induction parts generalizing names with
  | nil => exact named
  | cons first more ih =>
      exact ih (fun part member => whole part (List.mem_cons_of_mem first member))
        (isName_of_mem_step (whole first List.mem_cons_self) named)

theorem isName_of_mem_follow {names : List String} (named : ∀ name ∈ names, IsName name)
    (path : String) : ∀ name ∈ follow names path, IsName name :=
  isName_of_mem_foldl_step (fun _ member => slash_notMem_of_mem_segments member) named

end Path
end ObjectWrapper
