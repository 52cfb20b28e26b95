namespace ObjectWrapper
namespace Text

/-!
# Text cut at a separator

A text with so many separators has one part more than that, and parts may be
empty.  Put together again with the separators between them, the parts are the
text.
-/

/-- The parts of a text between separators. -/
def cut (separator : Char) : List Char -> List (List Char)
  | [] => [[]]
  | character :: rest =>
    if character = separator then [] :: cut separator rest
    else
      match cut separator rest with
      | [] => [[character]]
      | first :: more => (character :: first) :: more

theorem cut_ne_nil (separator : Char) (text : List Char) : cut separator text ≠ [] := by
  cases text with
  | nil => simp [cut]
  | cons character rest =>
    unfold cut
    split
    · simp
    · split <;> simp

/-- Nothing but the separators is lost. -/
theorem intercalate_cut (separator : Char) (text : List Char) :
    [separator].intercalate (cut separator text) = text := by
  induction text with
  | nil => rfl
  | cons character rest ih =>
    have nonempty := cut_ne_nil separator rest
    unfold cut
    cases shape : cut separator rest with
    | nil => exact absurd shape nonempty
    | cons first more =>
      rw [shape] at ih
      split
      · rename_i same
        subst same
        rw [List.intercalate_cons_cons, ih]
        rfl
      · cases more with
        | nil => simpa using ih
        | cons second others => simpa [List.intercalate_cons_cons] using ih

/-- No part holds the separator. -/
theorem separator_notMem_cut {separator : Char} {text part : List Char}
    (member : part ∈ cut separator text) : separator ∉ part := by
  induction text generalizing part with
  | nil =>
    rw [cut, List.mem_singleton] at member
    simp [member]
  | cons character rest ih =>
    unfold cut at member
    split at member
    · rcases List.mem_cons.mp member with rfl | inner
      · simp
      · exact ih inner
    · rename_i differs
      cases shape : cut separator rest with
      | nil => exact absurd shape (cut_ne_nil separator rest)
      | cons first more =>
        rw [shape] at member
        rcases List.mem_cons.mp member with rfl | inner
        · have absent : separator ∉ first := ih (by simp [shape])
          exact List.not_mem_cons_of_ne_of_not_mem (Ne.symm differs) absent
        · exact ih (by simp [shape, inner])

/-- A separator ends a part, whatever stands around it. -/
theorem cut_append_separator (separator : Char) (first second : List Char) :
    cut separator (first ++ separator :: second) =
      cut separator first ++ cut separator second := by
  induction first with
  | nil => simp [cut]
  | cons character rest ih =>
    rw [List.cons_append, cut, cut, ih]
    split
    · rfl
    · cases shape : cut separator rest with
      | nil => exact absurd shape (cut_ne_nil separator rest)
      | cons part more => rfl

theorem cut_of_separator_notMem {separator : Char} {text : List Char}
    (absent : separator ∉ text) : cut separator text = [text] := by
  induction text with
  | nil => rfl
  | cons character rest ih =>
    rw [List.mem_cons, not_or] at absent
    rw [cut, if_neg (Ne.symm absent.1), ih absent.2]

/-- Parts that are put together with separators are found again. -/
theorem cut_intercalate {separator : Char} {parts : List (List Char)} (nonempty : parts ≠ [])
    (absent : ∀ part ∈ parts, separator ∉ part) :
    cut separator ([separator].intercalate parts) = parts := by
  induction parts with
  | nil => exact absurd rfl nonempty
  | cons first more ih =>
    have firstCut := cut_of_separator_notMem (absent first List.mem_cons_self)
    cases more with
    | nil => simpa using firstCut
    | cons second others =>
      rw [List.intercalate_cons_cons, List.append_assoc, List.singleton_append,
        cut_append_separator, firstCut, ih (List.cons_ne_nil second others)
          (fun part member => absent part (List.mem_cons_of_mem first member)),
        List.singleton_append]

end Text
end ObjectWrapper
