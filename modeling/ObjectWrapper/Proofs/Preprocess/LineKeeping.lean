import ObjectWrapper.Proofs.Preprocess.Trace
import ObjectWrapper.Proofs.Source.LineFeeds
import ObjectWrapper.Proofs.Source.Position

namespace ObjectWrapper
namespace Preprocess

open Source Directive
open Macro (Element Table)

/-!
# Source lines in preprocessed text

Line numbers go a long way from a source to the text that preprocessing makes of it:
splices are removed, directives and inactive branches disappear, invocations are
replaced by tokens on their lines, and the text is put together with line feeds of its
own.  For a source that includes nothing, the main statement compares the two ends in
bytes.  A token that stands for itself, and is not joined to a string literal before
it, begins in the text behind as many line feeds as it does in the source.

The macros in force must be such as sources define, with no line feed in a token that
is not blank.  The string literals that come out must be closed; whether macros or
arguments hold literals that are not does not matter.
-/

/-- Each token that stands for itself, unless it is blank or joined to a string literal
before it, begins in the preprocessed text behind the text of the tokens before it and
some line feeds.  All in all these are as many line feeds as stand before the token in
the source. -/
def CopiesKeepLines (bytes : List UInt8) (traced : List Element) : Prop :=
  ∀ before token later, traced = before ++ .copied token :: later -> token.isBlank = false ->
    ¬ (endsInString (before.flatMap Element.result) && token.isString) = true ->
    ∃ index lineFeeds rest,
      (tokenize (ByteText.ofBytes bytes))[index]? = some token ∧
      token.opened ≠ [] ∧
      (ByteText.ofBytes bytes).toList[tokenOffset (ByteText.ofBytes bytes).toList index]? =
        token.opened.head? ∧
      reassembledBytes (traced.flatMap Element.result) =
        reassembledBytes (before.flatMap Element.result) ++ List.replicate lineFeeds 10 ++
          (ByteText.toBytes (String.ofList token.opened) ++ rest) ∧
      (reassembledBytes (before.flatMap Element.result) ++ List.replicate lineFeeds 10).count 10 =
        (bytes.take (tokenOffset (ByteText.ofBytes bytes).toList index)).count 10

/-- Where the lines of elements never go down, no token before a copied one stands
further down. -/
theorem line_le_of_mem_result {before later : List Element} {token : Token}
    (ordered : InLineOrder ((before ++ .copied token :: later).flatMap Element.source))
    (keepsLines : ∀ element ∈ before ++ .copied token :: later, element.KeepsLines) :
    ∀ other ∈ before.flatMap Element.result, other.line ≤ token.line := by
  intro other member
  rcases List.mem_flatMap.mp member with ⟨element, inBefore, inResult⟩
  rcases keepsLines element (List.mem_append_left _ inBefore) other inResult with
    ⟨placed, inSource, sameLine⟩
  rw [List.flatMap_append, InLineOrder, List.pairwise_append] at ordered
  rw [sameLine]
  exact ordered.2.2 placed (List.mem_flatMap.mpr ⟨element, inBefore, inSource⟩) token
    List.mem_cons_self

/-- Tokens that stand for themselves keep the lines they have in the source. -/
theorem copiesKeepLines_of_traces {bytes : List UInt8} {traced : List Element}
    (traces : Traces (fun token => token.kind.isMarker = false ∧ token.IsOnOneLine)
      (pieces (tokenize (ByteText.ofBytes bytes))) traced)
    (closed : ∀ token ∈ traced.flatMap Element.result, token.isString = true ->
      InQuotes '"' token.lexeme.toList) : CopiesKeepLines bytes traced := by
  rintro before token later rfl noBlank apart
  have covered := flatMap_tokens_pieces_sublist (tokenize (ByteText.ofBytes bytes))
  rw [← traces.covers] at covered
  have inSource : token ∈ tokenize (ByteText.ofBytes bytes) := covered.subset (by
    rw [List.flatMap_append, List.flatMap_cons]
    exact List.mem_append_right _ List.mem_cons_self)
  rcases List.mem_iff_getElem?.mp inSource with ⟨index, found⟩
  rcases exists_of_getElem?_tokenize found with ⟨_, _, _, _, line⟩
  have written := lexeme_of_getElem?_tokenize found noBlank
  have ordered : InLineOrder _ := (inLineOrder_tokenize (ByteText.ofBytes bytes)).sublist covered
  have results : (before ++ .copied token :: later).flatMap Element.result =
      before.flatMap Element.result ++ token :: later.flatMap Element.result := by
    rw [List.flatMap_append, List.flatMap_cons]
    rfl
  have fits : ∀ other ∈ (before ++ .copied token :: later).flatMap Element.result,
      other.FitsLine := by
    intro other member
    rcases List.mem_flatMap.mp member with ⟨element, inTraced, inResult⟩
    have holds := traces.holds element inTraced other inResult
    exact ⟨holds.1, closed other member, holds.2⟩
  rw [results] at fits
  rcases exists_reassemble_append_cons fits noBlank apart
    (line_le_of_mem_result ordered traces.keepsLines) (by omega) with
    ⟨lineFeeds, rest, text, counted⟩
  have opening := Token.head?_opened (fits token (by simp)).quoted written.2.1
  refine ⟨index, lineFeeds, rest.flatMap ByteText.charBytes, found, opening.1, ?_, ?_, ?_⟩
  · rw [opening.2]
    exact written.2.2
  · rw [results, reassembledBytes, ByteText.toBytes, text]
    simp only [List.flatMap_append, ByteText.flatMap_charBytes_replicate, reassembledBytes,
      ByteText.toBytes, String.toList_ofList]
  · have characters : (ByteText.ofBytes bytes).toList = bytes.map ByteText.ofByte :=
      String.toList_ofList
    rw [List.count_append, List.count_replicate_self, reassembledBytes, ByteText.count_toBytes]
    rw [characters, ← List.map_take, ByteText.count_map_ofByte, ← characters] at line
    omega

/-- Preprocessing keeps the lines of a source that includes nothing: it can be traced,
and what stands for itself in the trace is on its line in the text that is written. -/
theorem exists_copiesKeepLines_of_preprocess {setup : Setup} {file : String}
    {bytes : List UInt8} {state after : State} {tokens : List Token}
    (plain : Plain (sourceClauses bytes)) (unmarked : state.macros.HoldsNoMarker)
    (oneLine : state.macros.Holds Token.IsOnOneLine)
    (ran : preprocess setup file bytes state = .ok tokens after)
    (closed : ∀ token ∈ tokens, token.isString = true -> InQuotes '"' token.lexeme.toList) :
    ∃ traced, tracePreprocess setup file bytes state = .ok traced after ∧
      traced.flatMap Element.result = tokens ∧ CopiesKeepLines bytes traced := by
  rcases exists_tracePreprocess_of_preprocess ran with ⟨traced, traces, rfl⟩
  refine ⟨traced, traces, rfl, copiesKeepLines_of_traces ?_ closed⟩
  have holds : state.macros.Holds fun token =>
      token.kind.isMarker = false ∧ token.IsOnOneLine :=
    fun name definition found token member =>
      ⟨unmarked name definition found token member, oneLine name definition found token member⟩
  apply traces_of_tracePreprocess _ plain holds _ traces
  · exact fun _ _ both => both
  · intro token member
    refine ⟨isMarker_of_mem_tokenize token member, fun noBlank => ?_⟩
    rcases List.mem_iff_getElem?.mp member with ⟨index, found⟩
    exact (lexeme_of_getElem?_tokenize found noBlank).1

/-- An invocation over two lines, a splice, an inactive branch, and string literals that
become one. -/
def multiLine : List UInt8 :=
  "#define F(x, y) x y\na F(1,\n2) \\\nb\n#if 0\nc\n#endif\n\"s\"\n\"t\" /*\n*/ d".toUTF8.toList

theorem exists_copiesKeepLines_of_preprocess_multiLine :
    Plain (sourceClauses multiLine) ∧ Table.builtins.HoldsNoMarker ∧
      Table.builtins.Holds Token.IsOnOneLine ∧
      ∃ tokens after,
        preprocess ⟨fun _ => none, []⟩ "a.h" multiLine (.initial .builtins) = .ok tokens after ∧
          reassembledBytes tokens = " \na 1 \n2 \nb \n\n\n\n\"st\" \n\nd".toUTF8.toList ∧
          (∀ token ∈ tokens, token.isString = true -> InQuotes '"' token.lexeme.toList) ∧
          ∃ traced, tracePreprocess ⟨fun _ => none, []⟩ "a.h" multiLine (.initial .builtins) =
              .ok traced after ∧
            traced.flatMap Element.result = tokens ∧ CopiesKeepLines multiLine traced := by
  have plain : Plain (sourceClauses multiLine) := by decide +kernel
  have outcome : ((preprocess ⟨fun _ => none, []⟩ "a.h" multiLine).run' (.initial .builtins)).map
      (fun tokens => (reassembledBytes tokens, tokens.all fun token =>
        ! token.isString || decide (InQuotes '"' token.lexeme.toList))) =
      some (" \na 1 \n2 \nb \n\n\n\n\"st\" \n\nd".toUTF8.toList, true) := by
    decide +kernel
  rcases Option.map_eq_some_iff.mp outcome with ⟨tokens, yields, facts⟩
  rw [Prod.mk.injEq, List.all_eq_true] at facts
  rcases exists_of_run'_eq_some yields with ⟨after, ran⟩
  have closed : ∀ token ∈ tokens, token.isString = true -> InQuotes '"' token.lexeme.toList := by
    intro token member isString
    have checked := facts.2 token member
    rw [isString] at checked
    exact of_decide_eq_true checked
  exact ⟨plain, Macro.holdsNoMarker_builtins, Table.holds_builtins, tokens, after, ran, facts.1,
    closed, exists_copiesKeepLines_of_preprocess plain Macro.holdsNoMarker_builtins
      Table.holds_builtins ran closed⟩

end Preprocess
end ObjectWrapper
