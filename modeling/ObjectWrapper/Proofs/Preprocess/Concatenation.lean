import ObjectWrapper.Proofs.Preprocess.Nesting

namespace ObjectWrapper
namespace Preprocess

open Source Directive

/-!
# Sources in a row

Where one source text follows another, the text at the end of the first and the text at
the start of the second are one clause.  So the clauses of both in a row are not those of
the first followed by those of the second.  They are so before texts are collected, while
each token of a text is a clause of its own: if the second source begins at a line end, or
the first one stops at one, reading them in a row is reading one after the other.

The clauses of a source are obtained from these smallest ones by putting neighbouring texts
together, and nothing else is lost on the way: the directives and their order stay.
-/

/-- No line goes on into the tokens. -/
def BeginsWithNewline (tokens : List Token) : Prop :=
  ∀ token ∈ tokens.head?, token.isNewline = true

/-- No line goes on behind the tokens. -/
def EndsWithNewline (tokens : List Token) : Prop :=
  ∀ token ∈ tokens.getLast?, token.isNewline = true

instance : DecidablePred BeginsWithNewline :=
  fun tokens => inferInstanceAs (Decidable (∀ token ∈ tokens.head?, token.isNewline = true))

instance : DecidablePred EndsWithNewline :=
  fun tokens => inferInstanceAs (Decidable (∀ token ∈ tokens.getLast?, token.isNewline = true))

theorem beginsWithNewline_cons {token : Token} {rest : List Token} :
    BeginsWithNewline (token :: rest) ↔ token.isNewline = true := by
  simp [BeginsWithNewline]

/-- A line end in front of whole lines. -/
theorem EndsWithNewline.cons {newline : Token} (ends : newline.isNewline = true)
    {tokens : List Token} (whole : EndsWithNewline tokens) : EndsWithNewline (newline :: tokens) := by
  intro last member
  rw [List.getLast?_cons, Option.mem_def, Option.some.injEq] at member
  subst last
  cases shape : tokens.getLast? with
  | none => exact ends
  | some token => exact whole token shape

/-! ## Directives in front of a line end -/

theorem isWhitespace_of_isNewline {token : Token} (newline : token.isNewline = true) :
    token.isWhitespace = false := by
  have kind : token.kind = .newline := by simpa [Token.isNewline] using newline
  simp [Token.isWhitespace, kind]

theorem isPunctuator_of_isNewline {token : Token} (newline : token.isNewline = true)
    (lexeme : String) : token.isPunctuator lexeme = false := by
  have kind : token.kind = .newline := by simpa [Token.isNewline] using newline
  simp [Token.isPunctuator, kind]

theorem heading?_of_beginsWithNewline {tokens : List Token} (begins : BeginsWithNewline tokens) :
    heading? tokens = none := by
  cases tokens with
  | nil => rfl
  | cons token rest =>
      have newline := beginsWithNewline_cons.mp begins
      simp [heading?, isWhitespace_of_isNewline newline, isPunctuator_of_isNewline newline]

theorem takeWhile_append_of_isNewline (line : List Token) {newline : Token} (rest : List Token)
    (ends : newline.isNewline = true) :
    (line ++ newline :: rest).takeWhile (! ·.isNewline) = line.takeWhile (! ·.isNewline) := by
  induction line with
  | nil => simp [ends]
  | cons token following ih =>
      rw [List.cons_append, List.takeWhile_cons, List.takeWhile_cons, ih]

theorem dropWhile_append_of_isNewline (line : List Token) {newline : Token} (rest : List Token)
    (ends : newline.isNewline = true) :
    (line ++ newline :: rest).dropWhile (! ·.isNewline) =
      line.dropWhile (! ·.isNewline) ++ newline :: rest := by
  induction line with
  | nil => simp [ends]
  | cons token following ih =>
      rw [List.cons_append, List.dropWhile_cons, List.dropWhile_cons, ih]
      split <;> rfl

/-- What follows at a line end is behind a directive, and takes no part in it. -/
theorem heading?_append (first : List Token) {second : List Token}
    (begins : BeginsWithNewline second) :
    heading? (first ++ second) =
      (heading? first).map fun heading => { heading with after := heading.after ++ second } := by
  cases second with
  | nil => cases shape : heading? first <;> simp [shape]
  | cons newline rest =>
      have ends := beginsWithNewline_cons.mp begins
      unfold heading?
      rw [List.dropWhile_append]
      cases shape : first.dropWhile Token.isWhitespace with
      | nil =>
          simp [isWhitespace_of_isNewline ends, isPunctuator_of_isNewline ends]
      | cons hash following =>
          simp only [List.isEmpty_cons, Bool.false_eq_true, if_false, List.cons_append,
            takeWhile_append_of_isNewline following rest ends,
            dropWhile_append_of_isNewline following rest ends]
          split <;> rfl

/-! ## The smallest clauses -/

/-- The clauses of tokens before texts are collected, at the start of a line or inside
one. -/
def grains (lineStart : Bool) : List Token -> List Clause
  | [] => []
  | token :: rest =>
    match _found : if lineStart then heading? (token :: rest) else none with
    | some heading => .request heading.line heading.request :: grains false heading.after
    | none => .text [token] :: grains token.isNewline rest
termination_by tokens => tokens.length
decreasing_by
  · split at _found
    · exact (heading?_after _found).2
    · cases _found
  · exact Nat.lt_succ_self _

theorem grains_of_heading {token : Token} {rest : List Token} {heading : Heading}
    (found : heading? (token :: rest) = some heading) :
    grains true (token :: rest) =
      .request heading.line heading.request :: grains false heading.after := by
  rw [grains]
  split
  · rename_i other same
    cases found.symm.trans same
    rfl
  · rename_i absent
    cases found.symm.trans absent

theorem grains_of_text {lineStart : Bool} {token : Token} {rest : List Token}
    (absent : (if lineStart then heading? (token :: rest) else none) = none) :
    grains lineStart (token :: rest) = .text [token] :: grains token.isNewline rest := by
  rw [grains]
  split
  · rename_i heading found
    cases absent.symm.trans found
  · rfl

/-- A line end is text wherever it stands. -/
theorem grains_of_isNewline (lineStart : Bool) {newline : Token} (rest : List Token)
    (ends : newline.isNewline = true) :
    grains lineStart (newline :: rest) = .text [newline] :: grains true rest := by
  have absent : heading? (newline :: rest) = none :=
    heading?_of_beginsWithNewline (beginsWithNewline_cons.mpr ends)
  rw [grains_of_text (by rw [absent, ite_self]), ends]

theorem grains_of_beginsWithNewline (lineStart : Bool) {tokens : List Token}
    (begins : BeginsWithNewline tokens) : grains lineStart tokens = grains false tokens := by
  cases tokens with
  | nil => rw [grains, grains]
  | cons newline rest =>
      have ends := beginsWithNewline_cons.mp begins
      rw [grains_of_isNewline lineStart rest ends, grains_of_isNewline false rest ends]

/-- Sources in a row are read one after the other if the second begins at a line end. -/
theorem grains_append (lineStart : Bool) (first : List Token) {second : List Token}
    (begins : BeginsWithNewline second) :
    grains lineStart (first ++ second) = grains lineStart first ++ grains false second := by
  fun_induction grains lineStart first with
  | case1 lineStart => exact grains_of_beginsWithNewline lineStart begins
  | case2 lineStart token rest heading found ih =>
      cases lineStart with
      | false => cases found
      | true =>
          have longer := heading?_append (token :: rest) begins
          rw [dif_pos rfl] at found
          rw [found, Option.map_some, List.cons_append] at longer
          rw [List.cons_append, grains_of_heading longer, ih]
          rfl
  | case3 lineStart token rest absent ih =>
      -- more tokens do not make a directive of what has been text
      have longer := heading?_append (token :: rest) begins
      have stillAbsent : (if lineStart then heading? (token :: (rest ++ second)) else none) =
          none := by
        cases lineStart with
        | false => rfl
        | true =>
            rw [dif_pos rfl] at absent
            rw [absent] at longer
            exact longer
      rw [List.cons_append, grains_of_text stillAbsent, ih]
      rfl

/-- They are so too if the first one stops at a line end. -/
theorem grains_append_of_endsWithNewline {first : List Token} (ends : EndsWithNewline first)
    (second : List Token) :
    grains true (first ++ second) = grains true first ++ grains true second := by
  rcases List.eq_nil_or_concat first with rfl | ⟨before, newline, rfl⟩
  · rw [grains]
    rfl
  · have isNewline : newline.isNewline = true := ends newline (by simp)
    have begins : ∀ rest, BeginsWithNewline (newline :: rest) :=
      fun _ => beginsWithNewline_cons.mpr isNewline
    rw [List.concat_eq_append, List.append_assoc, List.singleton_append,
      grains_append true before (begins second),
      grains_append true before (begins []), grains_of_isNewline false second isNewline,
      grains_of_isNewline false [] isNewline, List.append_assoc]
    rw [grains]
    rfl

/-! ## Texts put together -/

/-- Put neighbouring texts together. -/
def collect (pending : List Token) : List Clause -> List Clause
  | [] => flush pending
  | .text tokens :: rest => collect (pending ++ tokens) rest
  | .request line request :: rest =>
    flush pending ++ .request line request :: collect [] rest

/-- The clauses are the smallest ones with neighbouring texts put together. -/
theorem clausesFrom_eq_collect_grains (lineStart : Bool) (pending tokens : List Token) :
    clausesFrom lineStart pending tokens = collect pending (grains lineStart tokens) := by
  fun_induction clausesFrom lineStart pending tokens with
  | case1 => simp [grains, collect]
  | case2 lineStart pending token rest heading found ih =>
      cases lineStart with
      | false => cases found
      | true =>
          rw [grains_of_heading found, ih]
          rfl
  | case3 lineStart pending token rest absent ih =>
      rw [grains_of_text absent, ih]
      rfl

theorem clauses_eq_collect_grains (tokens : List Token) :
    clauses tokens = collect [] (grains true tokens) :=
  clausesFrom_eq_collect_grains true [] tokens

/-- A directive separates the texts before it from those behind it. -/
theorem collect_append_request (pending : List Token) (first : List Clause) (line : Nat)
    (request : Request) (rest : List Clause) :
    collect pending (first ++ .request line request :: rest) =
      collect pending first ++ .request line request :: collect [] rest := by
  fun_induction collect pending first with
  | case1 pending => rfl
  | case2 pending tokens following ih => exact ih
  | case3 pending other asked following ih =>
      rw [List.cons_append, collect, ih, List.append_assoc, List.cons_append]

/-- The text read so far is a clause without a mark, if it is one. -/
theorem mark?_of_mem_flush {tokens : List Token} {clause : Clause} (member : clause ∈ flush tokens) :
    clause.mark? = none := by
  unfold flush at member
  split at member
  · cases member
  · cases List.mem_singleton.mp member
    rfl

/-- Putting texts together keeps the structure of groups. -/
theorem marks_collect (pending : List Token) (source : List Clause) :
    marks (collect pending source) = marks source := by
  fun_induction collect pending source with
  | case1 pending => exact List.filterMap_eq_nil_iff.mpr fun _ => mark?_of_mem_flush
  | case2 pending tokens following ih => exact ih
  | case3 pending line request following ih =>
      rw [marks_unmarked_append _ fun _ => mark?_of_mem_flush]
      unfold marks at *
      rw [List.filterMap_cons, List.filterMap_cons, ih]

/-- Putting texts together keeps the directives. -/
theorem request_mem_collect {pending : List Token} {source : List Clause} {line : Nat}
    {request : Request} (member : .request line request ∈ source) :
    .request line request ∈ collect pending source := by
  fun_induction collect pending source with
  | case1 => cases member
  | case2 pending tokens following ih =>
      rcases List.mem_cons.mp member with same | later
      · cases same
      · exact ih later
  | case3 pending other asked following ih =>
      rcases List.mem_cons.mp member with same | later
      · cases same
        exact List.mem_append_right _ List.mem_cons_self
      · exact List.mem_append_right _ (List.mem_cons_of_mem _ (ih later))

/-- Where a directive stands on a line of its own between two sources, the clauses are those
of the first source, the directive, and those of the second. -/
theorem clauses_append_heading {first line : List Token} {number : Nat} {request : Request}
    (ends : EndsWithNewline first) (heads : heading? line = some ⟨number, request, []⟩)
    {second : List Token} (begins : BeginsWithNewline second) :
    clauses (first ++ (line ++ second)) =
      clauses first ++ .request number request :: clauses second := by
  have longer := heading?_append line begins
  rw [heads, Option.map_some, List.nil_append] at longer
  have read : grains true (line ++ second) = .request number request :: grains true second := by
    rw [grains_of_beginsWithNewline true begins]
    cases line with
    | nil => cases heads
    | cons token rest => exact grains_of_heading longer
  rw [clauses_eq_collect_grains, grains_append_of_endsWithNewline ends, read,
    collect_append_request, ← clauses_eq_collect_grains, ← clauses_eq_collect_grains]

end Preprocess
end ObjectWrapper
