import Mathlib.Data.List.Flatten
import ObjectWrapper.Proofs.Source.Lines

namespace ObjectWrapper
namespace Source

/-!
# Where tokens begin

A token begins at a place of the text as it is written, splices included.  It has
the line of this place: one more than there are line feeds before it, whether they
end lines, belong to splices or stand in comments.  So the lines of the tokens of a
text never go down.
-/

/-- How many characters of a text stand before the one that has `index` others
before it once splices are removed. -/
def offset : List Char -> Nat -> Nat
  | [], _ => 0
  | '\\' :: '\n' :: rest, index => offset rest index + 2
  | '\\' :: '\r' :: '\n' :: rest, index => offset rest index + 3
  | _ :: _, 0 => 0
  | _ :: rest, index + 1 => offset rest index + 1

/-- The segments of a text once splices are removed. -/
def splicedSegments (text : List Char) : List Segment :=
  segments ((locate 1 text).map Located.character)

/-- How many characters of a text stand before its `index`-th token. -/
def tokenOffset (text : List Char) (index : Nat) : Nat :=
  offset text (((splicedSegments text).take index).flatMap Segment.text).length

theorem of_getElem?_locate {line index : Nat} {text : List Char} {located : Located}
    (found : (locate line text)[index]? = some located) :
    text[offset text index]? = some located.character ∧
      located.line = line + (text.take (offset text index)).count '\n' := by
  fun_induction locate line text generalizing index with
  | case1 => cases found
  | case2 line rest ih =>
      have here := ih found
      refine ⟨here.1, ?_⟩
      rw [here.2, offset]
      simp only [List.take_succ_cons, List.count_cons]
      simp
      omega
  | case3 line rest ih =>
      have here := ih found
      refine ⟨here.1, ?_⟩
      rw [here.2, offset]
      simp only [List.take_succ_cons, List.count_cons]
      simp
      omega
  | case4 line character rest noSplice noLongSplice ih =>
      cases index with
      | zero =>
          have atStart : offset (character :: rest) 0 = 0 := by
            rw [offset]
            · exact noSplice
            · exact noLongSplice
          cases found
          rw [atStart]
          exact ⟨rfl, rfl⟩
      | succ index =>
          have later : offset (character :: rest) (index + 1) = offset rest index + 1 := by
            rw [offset]
            · exact noSplice
            · exact noLongSplice
          have here := ih found
          rw [later]
          refine ⟨here.1, ?_⟩
          rw [here.2, List.take_succ_cons]
          by_cases lineEnd : character = '\n'
          · subst lineEnd
            rw [if_pos rfl, List.count_cons_self]
            omega
          · rw [if_neg lineEnd, List.count_cons_of_ne lineEnd]

theorem offset_le_offset (text : List Char) {first second : Nat} (le : first ≤ second) :
    offset text first ≤ offset text second := by
  fun_induction offset text first generalizing second with
  | case1 => exact Nat.zero_le _
  | case2 first rest ih => simpa only [offset, Nat.add_le_add_iff_right] using ih le
  | case3 first rest ih => simpa only [offset, Nat.add_le_add_iff_right] using ih le
  | case4 => exact Nat.zero_le _
  | case5 character rest first noSplice noLongSplice ih =>
      cases second with
      | zero => cases le
      | succ second =>
          rw [offset]
          · exact Nat.succ_le_succ (ih (Nat.le_of_succ_le_succ le))
          · exact noSplice
          · exact noLongSplice

theorem exists_of_getElem?_place {lines : List Nat} {read : List Segment} {index : Nat}
    {token : Token} (found : (place lines read)[index]? = some token) :
    ∃ segment, read[index]? = some segment ∧ token =
      segment.token ((lines.drop ((read.take index).flatMap Segment.text).length).headD 1) := by
  induction read generalizing lines index with
  | nil => cases found
  | cons segment rest ih =>
      cases index with
      | zero =>
          cases found
          exact ⟨segment, rfl, rfl⟩
      | succ index =>
          rcases ih found with ⟨other, otherFound, equal⟩
          refine ⟨other, otherFound, ?_⟩
          rw [equal, List.take_succ_cons, List.flatMap_cons, List.length_append, List.drop_drop]

theorem text_ne_nil_of_mem_segments {text : List Char} {segment : Segment}
    (member : segment ∈ segments text) : segment.text ≠ [] := by
  rcases exists_standsBefore_of_mem_segments member with ⟨left, first, others, equal, _⟩
  rw [equal]
  exact List.cons_ne_nil first others

/-- The characters before a segment, and the one it begins with. -/
theorem getElem?_flatMap_text_of_getElem? {read : List Segment} {index : Nat}
    {segment : Segment} (found : read[index]? = some segment) (nonempty : segment.text ≠ []) :
    (read.flatMap Segment.text)[((read.take index).flatMap Segment.text).length]? =
      segment.text.head? := by
  induction read generalizing index with
  | nil => cases found
  | cons other rest ih =>
      cases index with
      | zero =>
          cases found
          rcases List.exists_cons_of_ne_nil nonempty with ⟨first, others, equal⟩
          simp [equal]
      | succ index =>
          rw [List.take_succ_cons, List.flatMap_cons, List.flatMap_cons, List.length_append,
            List.getElem?_append_right (Nat.le_add_right _ _), Nat.add_sub_cancel_left]
          exact ih found

/-- A token stands where its segment begins, and counts the lines up to there. -/
theorem exists_of_getElem?_tokenize {text : String} {index : Nat} {token : Token}
    (found : (tokenize text)[index]? = some token) :
    ∃ segment, (splicedSegments text.toList)[index]? = some segment ∧
      token = segment.token token.line ∧
      text.toList[tokenOffset text.toList index]? = segment.text.head? ∧
      token.line = 1 + (text.toList.take (tokenOffset text.toList index)).count '\n' := by
  rcases exists_of_getElem?_place found with ⟨segment, inSegments, equal⟩
  have nonempty := text_ne_nil_of_mem_segments (List.mem_of_getElem? inSegments)
  have begins := getElem?_flatMap_text_of_getElem? inSegments nonempty
  rw [flatMap_text_segments] at begins
  rcases List.exists_cons_of_ne_nil nonempty with ⟨first, others, shape⟩
  rw [shape, List.head?_cons, List.getElem?_map] at begins
  rcases Option.map_eq_some_iff.mp begins with ⟨located, here, rfl⟩
  have placed := of_getElem?_locate here
  have line : token.line = located.line := by
    rw [equal, Segment.token, List.headD_eq_head?_getD, List.head?_drop, List.getElem?_map, here]
    rfl
  refine ⟨segment, inSegments, ?_, ?_, ?_⟩
  · rw [equal]
    rfl
  · rw [shape]
    exact placed.1
  · rw [line]
    exact placed.2

/-- A token that is not blank is written as its segment, on one line. -/
theorem lexeme_of_getElem?_tokenize {text : String} {index : Nat} {token : Token}
    (found : (tokenize text)[index]? = some token) (noBlank : token.isBlank = false) :
    '\n' ∉ token.lexeme.toList ∧ token.lexeme.toList ≠ [] ∧
      text.toList[tokenOffset text.toList index]? = token.lexeme.toList.head? := by
  rcases exists_of_getElem?_tokenize found with ⟨segment, inSegments, equal, begins, _⟩
  have member := List.mem_of_getElem? inSegments
  rcases exists_standsBefore_of_mem_segments member with ⟨left, stands⟩
  rw [equal] at noBlank
  have lexeme : token.lexeme.toList = segment.text := by
    rw [equal]
    exact Segment.toList_lexeme noBlank
  rw [lexeme]
  exact ⟨stands.lineFeed_notMem noBlank, text_ne_nil_of_mem_segments member, begins⟩

/-- No token stands further down than one behind it. -/
def InLineOrder (tokens : List Token) : Prop :=
  tokens.Pairwise fun first second : Token => first.line ≤ second.line

instance : DecidablePred InLineOrder :=
  fun tokens => inferInstanceAs
    (Decidable (tokens.Pairwise fun first second : Token => first.line ≤ second.line))

/-- The lines of the tokens of a text never go down. -/
theorem inLineOrder_tokenize (text : String) : InLineOrder (tokenize text) := by
  rw [InLineOrder, List.pairwise_iff_getElem]
  intro first second firstBound secondBound before
  rcases exists_of_getElem?_tokenize (List.getElem?_eq_getElem firstBound) with
    ⟨_, _, _, _, firstLine⟩
  rcases exists_of_getElem?_tokenize (List.getElem?_eq_getElem secondBound) with
    ⟨_, _, _, _, secondLine⟩
  have fewer : (((splicedSegments text.toList).take first).flatMap Segment.text).length ≤
      (((splicedSegments text.toList).take second).flatMap Segment.text).length :=
    ((List.take_sublist_take_left (Nat.le_of_lt before)).flatMap Segment.text).length_le
  have earlier : tokenOffset text.toList first ≤ tokenOffset text.toList second :=
    offset_le_offset text.toList fewer
  rw [firstLine, secondLine]
  exact Nat.add_le_add_left ((List.take_sublist_take_left earlier).count_le '\n') 1

end Source
end ObjectWrapper
