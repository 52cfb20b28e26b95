import ObjectWrapper.Proofs.Source.Words

namespace ObjectWrapper
namespace Source

/-!
# Neighbours

Whether a token is read where it stands may take all that follows it: a literal looks for
its closing quote, and two characters begin a comment.  For names, numbers and most
punctuators the next character tells.  Such tokens, written one after the other, are read
again exactly if none of them is continued by the first character of the next one.
-/

/-! ## The longest punctuator -/

theorem pairwise_length_punctuators :
    (punctuators.map String.toList).Pairwise fun earlier later =>
      later.length ≤ earlier.length := by
  decide

theorem length_le_of_punctuatorAt {text found other : List Char}
    (read : punctuatorAt text = some found) (listed : other ∈ punctuators.map String.toList)
    (begins : other <+: text) : other.length ≤ found.length := by
  unfold punctuatorAt at read
  rcases List.find?_eq_some_iff_append.mp read with ⟨_, before, after, split, absent⟩
  have ordered := pairwise_length_punctuators
  rw [split] at listed ordered
  rcases List.mem_append.mp listed with earlier | later
  · have missing := absent other earlier
    rw [List.isPrefixOf_iff_prefix.mpr begins] at missing
    cases missing
  · rcases List.mem_cons.mp later with rfl | later
    · exact le_rfl
    · exact List.rel_of_pairwise_cons (List.pairwise_append.mp ordered).2.1 later

/-- The punctuator that is read is the longest one the text begins with. -/
theorem punctuatorAt_eq_some_iff {text sign : List Char} :
    punctuatorAt text = some sign ↔
      (sign ∈ punctuators.map String.toList ∧ sign <+: text) ∧
        ∀ other ∈ punctuators.map String.toList, other <+: text -> other.length ≤ sign.length := by
  constructor
  · intro read
    exact ⟨⟨List.mem_of_find?_eq_some read, isPrefix_of_punctuatorAt read⟩,
      fun other => length_le_of_punctuatorAt read⟩
  · rintro ⟨⟨listed, begins⟩, noLonger⟩
    cases read : punctuatorAt text with
    | none =>
        unfold punctuatorAt at read
        exact absurd (List.isPrefixOf_iff_prefix.mpr begins)
          (List.find?_eq_none.mp read sign listed)
    | some found =>
        have foundBegins := isPrefix_of_punctuatorAt read
        have atMost := noLonger found (List.mem_of_find?_eq_some read) foundBegins
        have atLeast := length_le_of_punctuatorAt read listed begins
        have nested := List.prefix_of_prefix_length_le begins foundBegins atLeast
        rw [nested.eq_of_length (le_antisymm atLeast atMost)]

/-! ## Continued tokens -/

/-- Behind these punctuators one character does not tell: `...` and `%:%:` are longer by
more than one, a number may begin with a point, and a comment with a slash. -/
def ambiguousSigns : List (List Char) :=
  [['.'], ['%'], ['/']]

namespace Token

/-- The next character tells where the token ends: it is a name, a number or a punctuator
other than those. -/
def hasLocalEnd (token : Token) : Bool :=
  match token.kind with
  | .identifier => true
  | .number => true
  | .punctuator => ! ambiguousSigns.contains token.lexeme.toList
  | _ => false

/-- The character belongs to the token if it follows it at once. -/
def isContinuedBy (token : Token) (character : Char) : Bool :=
  match token.kind with
  | .identifier => isNameChar character
  | .number => token.lexeme.toList.getLast?.any fun last => continuesNumber last character
  | .punctuator => (punctuators.map String.toList).contains (token.lexeme.toList ++ [character])
  | _ => false

/-- The other token begins with a character that belongs to this one. -/
def runsInto (token next : Token) : Bool :=
  next.lexeme.toList.head?.any token.isContinuedBy

end Token

/-! ## What is read before any text -/

section Alone

variable {segment : Segment} {first : Char} {others left : List Char}

theorem Segment.standsBefore_iff_of_text (text : segment.text = first :: others) :
    segment.StandsBefore left ↔ readSegment first (others ++ left) = ⟨segment, left⟩ := by
  constructor
  · rintro ⟨other, more, sameText, read⟩
    rw [text, List.cons.injEq] at sameText
    rcases sameText with ⟨rfl, rfl⟩
    exact read
  · intro read
    exact ⟨first, others, text, read⟩

/-- What is read without a blank before any text begins a lexeme there, unless it is a slash. -/
theorem BeginsLexeme.append (begins : BeginsLexeme first others)
    (noSlash : first = '/' -> others ≠ []) : BeginsLexeme first (others ++ left) := by
  have unchanged : first = '/' -> (others ++ left).head? = others.head? :=
    fun slash => List.head?_append_of_ne_nil others (noSlash slash)
  refine ⟨begins.noLineEnd, begins.noBlank, fun found => ?_, fun found => ?_⟩
  · rcases pair_isPrefix_iff.mp found with ⟨slash, head⟩
    exact begins.noLineComment (pair_isPrefix_iff.mpr ⟨slash, unchanged slash ▸ head⟩)
  · rcases pair_isPrefix_iff.mp found with ⟨slash, head⟩
    exact begins.noBlockComment (pair_isPrefix_iff.mpr ⟨slash, unchanged slash ▸ head⟩)

/-! ### Names -/

/-- A name ends where no character of names follows. -/
theorem Segment.standsBefore_identifier_iff (alone : segment.StandsBefore [])
    (identifier : segment.kind = .identifier)
    (noQuote : ∀ character ∈ left.head?, character ≠ '"' ∧ character ≠ '\'') :
    segment.StandsBefore left ↔ ∀ character ∈ left.head?, isNameChar character = false := by
  refine ⟨fun stands => (stands.of_identifier identifier).2, fun outside => ?_⟩
  have significant : segment.kind.isBlank = false := by rw [identifier]; rfl
  rcases alone.exists_readBy significant with ⟨first, others, text, _, readBy⟩
  have isName := readBy.of_kind
  rw [identifier] at isName
  rcases isName with ⟨start, whole, _⟩
  have taken : others.takeWhile isNameChar = others := by
    rw [whole, List.append_nil] at text
    exact (List.cons.inj text).2
  rw [Segment.standsBefore_iff_of_text text,
    readSegment_name start (List.takeWhile_eq_self_iff.mp taken) outside, whole, List.append_nil,
    taken]
  exact nameReading_eq_identifier_iff.mpr fun _ => noQuote

/-! ### Numbers -/

theorem Cut.after_eq_iff {characters taken : List Char} {cut : Cut} :
    cut.after characters = ⟨characters ++ taken, left⟩ ↔ cut = ⟨taken, left⟩ := by
  rw [Cut.after, Cut.mk.injEq, List.append_cancel_left_eq]
  exact Cut.mk.injEq .. ▸ Iff.rfl

theorem Cut.after_append (characters more : List Char) (cut : Cut) :
    cut.after (characters ++ more) = (cut.after more).after characters := by
  rw [Cut.after, Cut.after, Cut.after, List.append_assoc]

/-- Where a number that was read as a whole has more text after it, it is read on there. -/
theorem numberTail_append {previous : Char} {taken : List Char}
    (whole : numberTail previous taken = ⟨taken, []⟩) (left : List Char) :
    numberTail previous (taken ++ left) =
      (numberTail (taken.getLastD previous) left).after taken := by
  fun_induction numberTail previous taken with
  | case1 => rfl
  | case2 previous character rest sign ih =>
      have continues : continuesNumber previous character = true := by simp [continuesNumber, sign]
      have later := ih (Cut.after_eq_iff.mp whole)
      rw [List.cons_append, numberTail_cons_of_continues continues, later, ← Cut.after_append,
        List.getLastD_cons]
      rfl
  | case3 previous digit after isDigit noSign ih =>
      have later := ih (Cut.after_eq_iff.mp whole)
      rw [List.cons_append, List.cons_append, numberTail_separator isDigit, later,
        ← Cut.after_append, List.getLastD_cons, List.getLastD_cons]
      rfl
  | case4 previous digit after noDigit noSign => cases whole
  | case5 previous noSign => cases whole
  | case6 previous character rest noSign noSeparator part ih =>
      have continues : continuesNumber previous character = true := continuesNumber_of_isPart part
      have later := ih (Cut.after_eq_iff.mp whole)
      rw [List.cons_append, numberTail_cons_of_continues continues, later, ← Cut.after_append,
        List.getLastD_cons]
      rfl
  | case7 previous character rest noSign noSeparator noPart => cases whole

/-- Nothing is added to a number where no character continues it. -/
theorem numberTail_eq_nil_iff {last : Char}
    (noSeparator : ∀ character ∈ left.head?, character ≠ '\'') :
    numberTail last left = ⟨[], left⟩ ↔
      ∀ character ∈ left.head?, continuesNumber last character = false := by
  cases left with
  | nil =>
      rw [numberTail.eq_def]
      refine iff_of_true rfl fun _ never => ?_
      cases never
  | cons character rest =>
      simp only [List.head?_cons, Option.mem_some_iff, forall_eq'] at noSeparator ⊢
      cases continues : continuesNumber last character with
      | true =>
          rw [numberTail_cons_of_continues continues]
          refine iff_of_false (fun same => ?_) Bool.noConfusion
          cases congrArg Cut.taken same
      | false =>
          rw [numberTail_cons_of_not_continues continues noSeparator]
          exact iff_of_true rfl rfl

theorem Cut.reading_eq_iff {cut : Cut} {shape : Shape} {text : List Char} :
    cut.reading shape = ⟨⟨shape, text⟩, left⟩ ↔ cut = ⟨text, left⟩ := by
  rcases cut with ⟨taken, after⟩
  simp [Cut.reading]

/-- A number ends where neither a character of numbers follows nor a separator of digits. -/
theorem Segment.standsBefore_number_iff (alone : segment.StandsBefore [])
    (number : segment.kind = .number)
    (noSeparator : ∀ character ∈ left.head?, character ≠ '\'') :
    segment.StandsBefore left ↔ ∀ character ∈ left.head?,
      segment.text.getLast?.any (continuesNumber · character) = false := by
  have significant : segment.kind.isBlank = false := by rw [number]; rfl
  rcases alone.exists_readBy significant with ⟨first, others, text, begins, readBy⟩
  have isNumber := readBy.of_kind
  rw [number] at isNumber
  rw [List.append_nil] at isNumber begins
  rcases isNumber with ⟨noName, opens, read⟩
  have noSlash : first = '/' -> others ≠ [] := by
    rintro rfl
    cases opens
  have opensHere : (first.isDigit ||
      (first == '.' && (others ++ left).head?.any Char.isDigit)) = true := by
    cases others with
    | nil =>
        rw [List.head?_nil, Option.any_none, Bool.and_false, Bool.or_false] at opens
        rw [opens, Bool.true_or]
    | cons => exact opens
  have isSegment : segment = ⟨.verbatim .number, [first] ++ others⟩ := by
    rw [segment.eq_verbatim significant, number, text]
    rfl
  have whole : numberTail first others = ⟨others, []⟩ := by
    rw [isSegment, Cut.reading_eq_iff, Cut.after_eq_iff] at read
    exact read
  have last : segment.text.getLast? = some (others.getLastD first) := by
    rw [text, List.getLast?_cons, List.getLastD_eq_getLast?]
  rw [Segment.standsBefore_iff_of_text text, (begins.append noSlash).readSegment_eq,
    lexemeReading, if_neg noName, if_pos opensHere, numberTail_append whole, last, isSegment,
    Cut.reading_eq_iff, Cut.after_eq_iff]
  have atEnd : (numberTail (others.getLastD first) left).after others = ⟨others ++ [], left⟩ ↔ _ :=
    Cut.after_eq_iff
  rw [List.append_nil] at atEnd
  exact atEnd.trans (numberTail_eq_nil_iff noSeparator)

/-! ### Punctuators -/

/-- Of every longer punctuator the part that is longer by one is a punctuator. -/
theorem take_succ_mem_punctuators : ∀ sign ∈ punctuators.map String.toList,
    sign ∉ ambiguousSigns -> ∀ longer ∈ punctuators.map String.toList, sign <+: longer ->
      sign.length < longer.length ->
        longer.take (sign.length + 1) ∈ punctuators.map String.toList := by
  decide +kernel

/-- A punctuator is read where it stands unless the next character makes another one of it. -/
theorem punctuatorAt_append_iff {sign : List Char} (listed : sign ∈ punctuators.map String.toList)
    (plain : sign ∉ ambiguousSigns) :
    punctuatorAt (sign ++ left) = some sign ↔
      ∀ character ∈ left.head?, sign ++ [character] ∉ punctuators.map String.toList := by
  rw [punctuatorAt_eq_some_iff]
  constructor
  · rintro ⟨_, longest⟩ character head longer
    have begins : sign ++ [character] <+: sign ++ left := by
      rw [List.prefix_append_right_inj, eq_cons_drop_of_head? head]
      exact List.prefix_append [character] _
    have bounded := longest _ longer begins
    rw [List.length_append, List.length_singleton] at bounded
    omega
  · intro ended
    refine ⟨⟨listed, List.prefix_append sign left⟩, fun other otherListed begins => ?_⟩
    by_contra longer
    have isLonger : sign.length < other.length := by omega
    have nested : sign <+: other :=
      List.prefix_of_prefix_length_le (List.prefix_append sign left) begins isLonger.le
    have next := take_succ_mem_punctuators sign listed plain other otherListed nested isLonger
    cases left with
    | nil =>
        have atMost := begins.length_le
        rw [List.append_nil] at atMost
        omega
    | cons character rest =>
        refine ended character rfl ?_
        have taken : other.take (sign.length + 1) = sign ++ [character] := by
          rw [List.prefix_iff_eq_take.mp begins, List.take_take, min_eq_left (by omega),
            List.take_append, List.take_of_length_le (Nat.le_succ _), Nat.add_sub_cancel_left,
            List.take_one, List.head?_cons, Option.toList_some]
        rw [← taken]
        exact next

theorem symbolReading_eq_punctuator_iff {rest sign : List Char} :
    symbolReading first rest = ⟨⟨.verbatim .punctuator, sign⟩, left⟩ ↔
      punctuatorAt (first :: rest) = some sign ∧ left = (first :: rest).drop sign.length := by
  unfold symbolReading
  split
  · rename_i punctuator found
    rw [found, Option.some.injEq, Reading.mk.injEq, Segment.mk.injEq]
    constructor
    · rintro ⟨⟨_, rfl⟩, rfl⟩
      exact ⟨rfl, rfl⟩
    · rintro ⟨rfl, rfl⟩
      exact ⟨⟨rfl, rfl⟩, rfl⟩
  · rename_i notFound
    rw [notFound]
    refine iff_of_false (fun same => ?_) (fun found => ?_)
    · cases congrArg (·.segment.kind) same
    · cases found.1

/-- A punctuator ends where the next character makes no longer one of it. -/
theorem Segment.standsBefore_punctuator_iff (alone : segment.StandsBefore [])
    (punctuator : segment.kind = .punctuator) (plain : segment.text ∉ ambiguousSigns) :
    segment.StandsBefore left ↔ ∀ character ∈ left.head?,
      segment.text ++ [character] ∉ punctuators.map String.toList := by
  have significant : segment.kind.isBlank = false := by rw [punctuator]; rfl
  rcases alone.exists_readBy significant with ⟨first, others, text, begins, readBy⟩
  have isSymbol := readBy.of_kind
  rw [punctuator] at isSymbol
  rw [List.append_nil] at isSymbol begins
  rcases isSymbol with ⟨noName, noNumber, ⟨noString, noChar⟩, read⟩
  rw [text] at plain
  have noSlash : first = '/' -> others ≠ [] := by
    rintro rfl rfl
    exact plain (by decide)
  have noNumberHere : ¬ (first.isDigit ||
      (first == '.' && (others ++ left).head?.any Char.isDigit)) = true := by
    cases others with
    | nil =>
        have noPoint : (first == '.') = false := by
          rw [beq_eq_false_iff_ne]
          rintro rfl
          exact plain (by decide)
        rw [noPoint, Bool.false_and, Bool.or_false] at noNumber ⊢
        exact noNumber
    | cons => exact noNumber
  have isSegment : segment = ⟨.verbatim .punctuator, first :: others⟩ := by
    rw [segment.eq_verbatim significant, punctuator, text]
  rw [isSegment, symbolReading_eq_punctuator_iff] at read
  have listed := (punctuatorAt_eq_some_iff.mp read.1).1.1
  rw [Segment.standsBefore_iff_of_text text, (begins.append noSlash).readSegment_eq,
    lexemeReading, if_neg noName, if_neg noNumberHere, if_neg noString, if_neg noChar, isSegment,
    symbolReading_eq_punctuator_iff, ← List.cons_append, List.drop_left, and_iff_left rfl]
  exact punctuatorAt_append_iff listed plain

end Alone

/-! ## Words of such tokens -/

namespace Token

variable {token : Token} {left : List Char}

theorem hasLocalEnd_iff :
    token.hasLocalEnd = true ↔ token.kind = .identifier ∨ token.kind = .number ∨
      token.kind = .punctuator ∧ token.lexeme.toList ∉ ambiguousSigns := by
  unfold hasLocalEnd
  cases token.kind <;> simp

theorem isBlank_of_hasLocalEnd (localEnd : token.hasLocalEnd = true) : token.isBlank = false := by
  rcases hasLocalEnd_iff.mp localEnd with kind | kind | ⟨kind, _⟩ <;> rw [isBlank, kind] <;> rfl

/-- A token that has been read is read again alone. -/
theorem IsRead.standsBefore_nil (read : token.IsRead) (significant : token.isBlank = false) :
    token.segment.StandsBefore [] := by
  rcases read.exists_standsBefore significant with ⟨left, stands⟩
  rw [← List.nil_append left] at stands
  exact stands.of_append significant

/-- No such token begins with a quotation mark. -/
theorem ne_quote_of_hasLocalEnd (localEnd : token.hasLocalEnd = true) (read : token.IsRead) :
    ∀ character ∈ token.lexeme.toList.head?, character ≠ '"' ∧ character ≠ '\'' := by
  have significant := isBlank_of_hasLocalEnd localEnd
  rcases (read.standsBefore_nil significant).exists_readBy significant with
    ⟨first, others, text, _, readBy⟩
  have lexeme : token.lexeme.toList = first :: others := text
  have reader := readBy.of_kind
  rw [lexeme]
  rintro character ⟨⟩
  rcases hasLocalEnd_iff.mp localEnd with kind | kind | ⟨kind, _⟩
  · rw [show token.segment.kind = .identifier from kind] at reader
    constructor <;> rintro rfl <;> cases reader.1
  · rw [show token.segment.kind = .number from kind] at reader
    constructor <;> rintro rfl <;> cases reader.2.1
  · rw [show token.segment.kind = .punctuator from kind] at reader
    exact reader.2.2.1

/-- One character tells whether the token is read where it stands. -/
theorem standsBefore_iff_of_hasLocalEnd (localEnd : token.hasLocalEnd = true) (read : token.IsRead)
    (noQuote : ∀ character ∈ left.head?, character ≠ '"' ∧ character ≠ '\'') :
    token.segment.StandsBefore left ↔
      ∀ character ∈ left.head?, token.isContinuedBy character = false := by
  have alone := read.standsBefore_nil (isBlank_of_hasLocalEnd localEnd)
  unfold isContinuedBy
  rcases hasLocalEnd_iff.mp localEnd with kind | kind | ⟨kind, unambiguous⟩
  · rw [kind]
    exact Segment.standsBefore_identifier_iff alone kind noQuote
  · rw [kind]
    exact Segment.standsBefore_number_iff alone kind
      fun character head => (noQuote character head).2
  · rw [kind]
    simp only [List.contains_eq_mem, decide_eq_false_iff_not]
    exact Segment.standsBefore_punctuator_iff alone kind unambiguous

end Token

/-- What begins the texts of tokens begins the text of the first one. -/
theorem head?_spelled_cons {token : Token} (read : token.IsRead) (rest : List Token) :
    (spelled (token :: rest)).head? = token.lexeme.toList.head? := by
  rcases read.exists_begins with ⟨first, others, lexeme, _⟩
  rw [spelled_cons, lexeme]
  rfl

/-- Names, numbers and punctuators are read again exactly if none runs into the next one. -/
theorem standInOrder_iff_isChain {word : List Token} (read : ∀ token ∈ word, token.IsRead)
    (localEnd : ∀ token ∈ word, token.hasLocalEnd = true) :
    StandInOrder word ↔ word.IsChain fun token next => token.runsInto next = false := by
  induction word with
  | nil => exact iff_of_true trivial List.isChain_nil
  | cons token rest ih =>
      rcases List.forall_mem_cons.mp read with ⟨isRead, readRest⟩
      rcases List.forall_mem_cons.mp localEnd with ⟨endsHere, endsLater⟩
      have here : token.segment.StandsBefore (spelled rest) ↔
          ∀ next ∈ rest.head?, token.runsInto next = false := by
        cases rest with
        | nil =>
            have alone := isRead.standsBefore_nil (Token.isBlank_of_hasLocalEnd endsHere)
            exact iff_of_true alone fun _ never => nomatch never
        | cons next others =>
            have head := head?_spelled_cons (readRest next List.mem_cons_self) others
            have noQuote := Token.ne_quote_of_hasLocalEnd (endsLater next List.mem_cons_self)
              (readRest next List.mem_cons_self)
            rw [← head] at noQuote
            rw [Token.standsBefore_iff_of_hasLocalEnd endsHere isRead noQuote, head]
            simp [Token.runsInto, Option.any_eq_false]
      rw [StandInOrder, List.isChain_cons, ih readRest endsLater, here,
        Token.isBlank_of_hasLocalEnd endsHere]
      exact and_congr_left fun _ => forall_prop_of_true rfl

end Source
end ObjectWrapper
