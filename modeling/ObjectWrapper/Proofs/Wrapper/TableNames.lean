import Mathlib.Data.List.Infix
import ObjectWrapper.Source.Segment
import ObjectWrapper.Wrapper.Code

namespace ObjectWrapper
namespace Wrapper

open Declaration Source

/-!
# The tables of different classes

The table of a class is called by its qualified name, in which two underscores take the
place of every `::`.  From this the name can be read back only if it is known which
underscores were put there.  As they may also be part of a name, different classes may have
tables of one name: `a::b` and a class `a__b`, but also `a_::b` and `a::_b`.

Names without two underscores in a row do not suffice, since one at the end of a name is
taken for the first of the two behind it.  Where this is excluded as well, the first two
underscores in a row are the ones after the first name, and the rest follows.
-/

/-! ## Names of classes -/

/-- A text that is one identifier. -/
structure IsIdentifier (text : List Char) : Prop where
  begins : ∃ first ∈ text.head?, isNameStart first = true
  inside : ∀ character ∈ text, isNameChar character = true

/-- The identifiers that the qualified name of a class consists of. -/
def nameParts (declared : WrappedClass) : List (List Char) :=
  (declared.enclosing ++ [declared.name]).map String.toList

/-- Whether two underscores in a row always come from a separator. -/
structure KeepsUnderscoresApart (parts : List (List Char)) : Prop where
  noPair : ∀ part ∈ parts, ¬ ['_', '_'] <:+: part
  noTrailing : ∀ part ∈ parts.dropLast, part.getLast? ≠ some '_'

instance : DecidablePred IsIdentifier := fun text =>
  decidable_of_iff (text.head?.any isNameStart = true ∧ text.all isNameChar = true) (by
    rw [Option.any_eq_true, List.all_eq_true]
    exact ⟨fun both => ⟨both.1, both.2⟩, fun identifier => ⟨identifier.begins, identifier.inside⟩⟩)

instance : DecidablePred KeepsUnderscoresApart := fun parts =>
  decidable_of_iff ((∀ part ∈ parts, ¬ ['_', '_'] <:+: part) ∧
      ∀ part ∈ parts.dropLast, part.getLast? ≠ some '_')
    ⟨fun both => ⟨both.1, both.2⟩, fun apart => ⟨apart.noPair, apart.noTrailing⟩⟩

theorem nameParts_ne_nil (declared : WrappedClass) : nameParts declared ≠ [] := by
  simp [nameParts]

theorem toList_qualifiedName (declared : WrappedClass) :
    declared.qualifiedName.toList = [':', ':'].intercalate (nameParts declared) := by
  rw [WrappedClass.qualifiedName, String.toList_intercalate]
  rfl

theorem qualifiedName_eq_of_nameParts {first second : WrappedClass}
    (same : nameParts first = nameParts second) :
    first.qualifiedName = second.qualifiedName := by
  rw [← String.toList_inj, toList_qualifiedName, toList_qualifiedName, same]

/-! ## The identifier of a table -/

theorem identifierChars_cons {character : Char} (noColon : character ≠ ':') (rest : List Char) :
    identifierChars (character :: rest) = character :: identifierChars rest := by
  rw [identifierChars]
  intro more colon
  exact absurd colon noColon

theorem identifierChars_append {part : List Char} (noColon : ':' ∉ part) (rest : List Char) :
    identifierChars (part ++ rest) = part ++ identifierChars rest := by
  induction part with
  | nil => rfl
  | cons character others ih =>
      rcases List.ne_and_not_mem_of_not_mem_cons noColon with ⟨differs, later⟩
      rw [List.cons_append, identifierChars_cons (Ne.symm differs), ih later]
      rfl

/-- Only separators are replaced. -/
theorem identifierChars_intercalate {parts : List (List Char)}
    (noColon : ∀ part ∈ parts, ':' ∉ part) :
    identifierChars ([':', ':'].intercalate parts) = ['_', '_'].intercalate parts := by
  induction parts with
  | nil => rfl
  | cons part more ih =>
      rcases List.forall_mem_cons.mp noColon with ⟨inFirst, inMore⟩
      cases more with
      | nil =>
          rw [List.intercalate_singleton, List.intercalate_singleton]
          simpa [identifierChars] using identifierChars_append inFirst []
      | cons second others =>
          rw [List.intercalate_cons_cons, List.intercalate_cons_cons, List.append_assoc,
            identifierChars_append inFirst]
          change part ++ '_' :: '_' ::
            identifierChars ([':', ':'].intercalate (second :: others)) = _
          rw [ih inMore, List.append_assoc]
          rfl

theorem IsIdentifier.colon_notMem {text : List Char} (identifier : IsIdentifier text) :
    ':' ∉ text := by
  intro member
  cases identifier.inside ':' member

theorem tableName_eq {declared : WrappedClass}
    (named : ∀ part ∈ nameParts declared, IsIdentifier part) :
    tableName declared =
      "owc_stringdata_" ++ String.ofList (['_', '_'].intercalate (nameParts declared)) := by
  change "owc_stringdata_" ++ String.ofList (identifierChars declared.qualifiedName.toList) = _
  rw [toList_qualifiedName,
    identifierChars_intercalate fun part member => (named part member).colon_notMem]

/-- Two tables have the same name if the parts of the class names are the same text with
underscores between them. -/
theorem tableName_eq_iff {first second : WrappedClass}
    (firstNamed : ∀ part ∈ nameParts first, IsIdentifier part)
    (secondNamed : ∀ part ∈ nameParts second, IsIdentifier part) :
    tableName first = tableName second ↔
      ['_', '_'].intercalate (nameParts first) = ['_', '_'].intercalate (nameParts second) := by
  rw [tableName_eq firstNamed, tableName_eq secondNamed, String.append_right_inj, String.ofList_inj]

/-! ## Reading the parts back -/

theorem pair_append_ne {part left right : List Char} (nonempty : part ≠ [])
    (noPair : ¬ ['_', '_'] <:+: part) (noTrailing : part.getLast? ≠ some '_') :
    '_' :: '_' :: left ≠ part ++ '_' :: '_' :: right := by
  intro same
  match part with
  | [] => exact nonempty rfl
  | [only] =>
      cases same
      exact noTrailing rfl
  | first :: second :: others =>
      cases same
      exact noPair ⟨[], others, rfl⟩

/-- The first pair of underscores is the one after the first part. -/
theorem append_pair_inj {first second left right : List Char}
    (firstPair : ¬ ['_', '_'] <:+: first) (firstEnds : first.getLast? ≠ some '_')
    (secondPair : ¬ ['_', '_'] <:+: second) (secondEnds : second.getLast? ≠ some '_')
    (same : first ++ '_' :: '_' :: left = second ++ '_' :: '_' :: right) :
    first = second ∧ left = right := by
  have endsTail : ∀ {character : Char} {others : List Char},
      (character :: others).getLast? ≠ some '_' -> others.getLast? ≠ some '_' := by
    intro character others ends last
    rw [List.getLast?_cons, last] at ends
    exact ends rfl
  induction first generalizing second with
  | nil =>
      cases second with
      | nil =>
          cases same
          exact ⟨rfl, rfl⟩
      | cons other more => exact absurd same (pair_append_ne (by simp) secondPair secondEnds)
  | cons character others ih =>
      cases second with
      | nil => exact absurd same.symm (pair_append_ne (by simp) firstPair firstEnds)
      | cons other more =>
          rw [List.cons_append, List.cons_append, List.cons.injEq] at same
          rcases same with ⟨rfl, same⟩
          rcases ih (fun found => firstPair (List.infix_cons found)) (endsTail firstEnds)
            (fun found => secondPair (List.infix_cons found)) (endsTail secondEnds) same with
            ⟨rfl, rest⟩
          exact ⟨rfl, rest⟩

theorem KeepsUnderscoresApart.of_cons {part next : List Char} {others : List (List Char)}
    (apart : KeepsUnderscoresApart (part :: next :: others)) :
    ¬ ['_', '_'] <:+: part ∧ part.getLast? ≠ some '_' ∧ KeepsUnderscoresApart (next :: others) where
  left := apart.noPair part List.mem_cons_self
  right := ⟨apart.noTrailing part List.mem_cons_self,
    fun other member => apart.noPair other (List.mem_cons_of_mem _ member),
    fun other member => apart.noTrailing other (List.mem_cons_of_mem _ member)⟩

/-- A single part has no pair of underscores in it, and between several parts there is one. -/
theorem KeepsUnderscoresApart.singleton_ne {part first second : List Char}
    {others : List (List Char)} (apart : KeepsUnderscoresApart [part]) :
    ['_', '_'].intercalate [part] ≠ ['_', '_'].intercalate (first :: second :: others) := by
  rw [List.intercalate_singleton, List.intercalate_cons_cons]
  exact fun same => apart.noPair part List.mem_cons_self ⟨first, _, same.symm⟩

/-- The parts are found again in what is joined of them. -/
theorem KeepsUnderscoresApart.intercalate_inj {first second : List (List Char)}
    (firstApart : KeepsUnderscoresApart first) (secondApart : KeepsUnderscoresApart second)
    (firstNonempty : first ≠ []) (secondNonempty : second ≠ [])
    (same : ['_', '_'].intercalate first = ['_', '_'].intercalate second) : first = second := by
  induction first generalizing second with
  | nil => exact absurd rfl firstNonempty
  | cons part more ih =>
      match more, second with
      | _, [] => exact absurd rfl secondNonempty
      | [], [other] =>
          rw [List.intercalate_singleton, List.intercalate_singleton] at same
          rw [same]
      | [], _ :: _ :: _ => exact absurd same firstApart.singleton_ne
      | _ :: _, [other] => exact absurd same.symm secondApart.singleton_ne
      | next :: others, other :: following :: rest =>
          rcases firstApart.of_cons with ⟨firstPair, firstEnds, moreApart⟩
          rcases secondApart.of_cons with ⟨secondPair, secondEnds, restApart⟩
          rw [List.intercalate_cons_cons, List.intercalate_cons_cons, List.append_assoc,
            List.append_assoc] at same
          rcases append_pair_inj firstPair firstEnds secondPair secondEnds same with ⟨rfl, later⟩
          rw [ih moreApart restApart (List.cons_ne_nil _ _) (List.cons_ne_nil _ _) later]

/-! ## Tables in wrapper code -/

/-- What a line that defines a table begins with. -/
def tableKeywords : String :=
  "static const char "

/-- The identifier that a line defines as a table, if it does. -/
def definedTable? (line : String) : Option String :=
  if tableKeywords.toList <+: line.toList then
    some (String.ofList ((line.toList.drop tableKeywords.toList.length).takeWhile isNameChar))
  else none

/-- The identifiers that wrapper code defines as tables. -/
def definedTables (lines : List String) : List String :=
  lines.filterMap definedTable?

/-! ### The other lines -/

/-- The line begins with a text that does not begin like the keywords, whatever is put behind
that text. -/
inductive BeginsOtherwise : String -> Prop where
  | literal {first : Char} {rest : List Char} : first ≠ 's' ->
    BeginsOtherwise (String.ofList (first :: rest))
  | append {line : String} : BeginsOtherwise line -> ∀ more, BeginsOtherwise (line ++ more)

theorem BeginsOtherwise.exists_toList {line : String} (other : BeginsOtherwise line) :
    ∃ first rest, line.toList = first :: rest ∧ first ≠ 's' := by
  induction other with
  | @literal first rest differs => exact ⟨first, rest, String.toList_ofList, differs⟩
  | append _ more ih =>
      rcases ih with ⟨first, rest, text, differs⟩
      exact ⟨first, rest ++ more.toList, by rw [String.toList_append, text]; rfl, differs⟩

theorem definedTable?_eq_none {line : String} (other : line = "" ∨ BeginsOtherwise line) :
    definedTable? line = none := by
  refine if_neg fun ⟨rest, same⟩ => ?_
  rcases other with rfl | other
  · cases same
  · rcases other.exists_toList with ⟨first, more, text, differs⟩
    rw [text] at same
    cases same
    exact differs rfl

theorem definedTables_eq_nil {lines : List String}
    (others : ∀ line ∈ lines, line = "" ∨ BeginsOtherwise line) : definedTables lines = [] :=
  List.filterMap_eq_nil_iff.mpr fun line member => definedTable?_eq_none (others line member)

theorem definedTables_banner (input : String) : definedTables (banner input) = [] := by
  refine definedTables_eq_nil ?_
  simp only [banner, List.forall_mem_cons]
  exact ⟨.inr (.literal (by decide)), .inr (.append (.append (.literal (by decide)) _) _),
    .inr (.literal (by decide)), .inr (.append (.literal (by decide)) _),
    .inr (.literal (by decide)), .inr (.literal (by decide)), .inr (.literal (by decide)),
    .inl trivial, List.forall_mem_nil _⟩

theorem definedTables_revisionCheck (input : String) :
    definedTables (revisionCheck input) = [] := by
  refine definedTables_eq_nil ?_
  simp only [revisionCheck, List.forall_mem_cons]
  exact ⟨.inr (.literal (by decide)), .inr (.append (.append (.literal (by decide)) _) _),
    .inr (.append (.literal (by decide)) _), .inr (.append (.append (.literal (by decide)) _) _),
    .inr (.literal (by decide)), List.forall_mem_nil _⟩

theorem definedTables_includeDirectives (settings : Settings) :
    definedTables ((includeDirectives settings).map ByteText.ofUnicode) = [] := by
  have begins : ∀ {rest : List Char} (more : String),
      BeginsOtherwise (ByteText.ofUnicode (String.ofList ('#' :: rest) ++ more)) := by
    intro rest more
    rw [ByteText.ofUnicode, ByteText.ofBytes, Unicode.encode, String.toList_append,
      String.toList_ofList]
    exact .literal (by decide)
  refine definedTables_eq_nil fun line member => .inr ?_
  rcases List.mem_map.mp member with ⟨directive, among, rfl⟩
  unfold includeDirectives at among
  split at among
  · rcases List.mem_map.mp among with ⟨file, _, rfl⟩
    unfold includeDirective
    split
    · exact begins _
    · rw [String.append_assoc, String.append_assoc]
      exact begins _
  · cases among

/-! ### The lines of a class -/

theorem isNameChar_of_mem_intercalate {parts : List (List Char)}
    (named : ∀ part ∈ parts, IsIdentifier part) :
    ∀ character ∈ ['_', '_'].intercalate parts, isNameChar character = true := by
  induction parts with
  | nil =>
      intro character member
      cases member
  | cons part more ih =>
      rcases List.forall_mem_cons.mp named with ⟨first, later⟩
      cases more with
      | nil =>
          rw [List.intercalate_singleton]
          exact first.inside
      | cons next others =>
          rw [List.intercalate_cons_cons, List.forall_mem_append, List.forall_mem_append]
          exact ⟨⟨first.inside, List.all_eq_true.mp (by decide)⟩, ih later⟩

/-- The name of a table is an identifier itself. -/
theorem isNameChar_of_mem_tableName {declared : WrappedClass}
    (named : ∀ part ∈ nameParts declared, IsIdentifier part) :
    ∀ character ∈ (tableName declared).toList, isNameChar character = true := by
  rw [tableName_eq named, String.toList_append, List.forall_mem_append]
  refine ⟨List.all_eq_true.mp (by decide), ?_⟩
  rw [String.toList_ofList]
  exact isNameChar_of_mem_intercalate named

/-- A table is defined by the name between the keywords and the next character that is not
part of a name. -/
theorem definedTable?_append {name : String} {first : Char} {rest : List Char}
    (inside : ∀ character ∈ name.toList, isNameChar character = true)
    (ends : isNameChar first = false) (value closing : String) :
    definedTable? (tableKeywords ++ name ++ String.ofList (first :: rest) ++ value ++ closing) =
      some name := by
  have text : (tableKeywords ++ name ++ String.ofList (first :: rest) ++ value ++ closing).toList =
      tableKeywords.toList ++
        (name.toList ++ first :: (rest ++ value.toList ++ closing.toList)) := by
    simp only [String.toList_append, String.toList_ofList, List.append_assoc, List.cons_append]
  rw [definedTable?, text, if_pos (List.prefix_append _ _), List.drop_left,
    List.takeWhile_append_of_pos inside, List.takeWhile_cons_of_neg (by simp [ends]),
    List.append_nil, String.ofList_toList]

theorem beginsOtherwise_baseLine (declared : WrappedClass) :
    BeginsOtherwise (baseLine declared) := by
  unfold baseLine
  split
  · exact .literal (by decide)
  · exact .append (.append (.literal (by decide)) _) _

/-- The lines for a class define its table and no other. -/
theorem definedTables_classLines {declared : WrappedClass}
    (named : ∀ part ∈ nameParts declared, IsIdentifier part) :
    definedTables (classLines declared) = [tableName declared] := by
  have shows : ∀ {first : Char} {rest : List Char} (shown closing : String), first ≠ 's' ->
      BeginsOtherwise (String.ofList (first :: rest) ++ shown ++ closing) :=
    fun shown closing differs => .append (.append (.literal differs) shown) closing
  refine (List.filterMap_cons_none (definedTable?_eq_none (.inl rfl))).trans ?_
  refine (List.filterMap_cons_none (definedTable?_eq_none (.inr ?_))).trans ?_
  · exact .append (.append (.append (shows _ _ (by decide)) _) _) _
  refine (List.filterMap_cons_some (definedTable?_append (isNameChar_of_mem_tableName named)
    (by decide) _ _)).trans (congrArg _ (definedTables_eq_nil ?_))
  simp only [List.forall_mem_cons]
  exact ⟨.inl trivial, .inr (shows _ _ (by decide)), .inr (.literal (by decide)),
    .inr (shows _ _ (by decide)), .inr (.literal (by decide)), .inl trivial,
    .inr (shows _ _ (by decide)), .inr (.literal (by decide)),
    .inr (beginsOtherwise_baseLine declared), .inr (.literal (by decide)), List.forall_mem_nil _⟩

/-- Wrapper code defines one table for each class and nothing else of that form. -/
theorem definedTables_codeLines (settings : Settings) {classes : List WrappedClass}
    (named : ∀ declared ∈ classes, ∀ part ∈ nameParts declared, IsIdentifier part) :
    definedTables (codeLines settings classes) = classes.map tableName := by
  have append : ∀ first second, definedTables (first ++ second) =
      definedTables first ++ definedTables second := fun _ _ => List.filterMap_append
  have ofClasses : definedTables (classes.flatMap classLines) = classes.map tableName := by
    induction classes with
    | nil => rfl
    | cons declared others ih =>
        rcases List.forall_mem_cons.mp named with ⟨first, later⟩
        rw [List.flatMap_cons, append, definedTables_classLines first, ih later]
        rfl
  rw [codeLines, append, append, append, definedTables_banner, definedTables_includeDirectives,
    definedTables_revisionCheck, ofClasses]
  rfl

/-! ## Classes with the same table -/

/-- Where the names keep their underscores apart, classes have one table between them only if
they have the same qualified name. -/
theorem definedTables_and_tableName_eq_iff (settings : Settings) {classes : List WrappedClass}
    (named : ∀ declared ∈ classes, ∀ part ∈ nameParts declared, IsIdentifier part)
    (apart : ∀ declared ∈ classes, KeepsUnderscoresApart (nameParts declared)) :
    definedTables (codeLines settings classes) = classes.map tableName ∧
      ∀ first ∈ classes, ∀ second ∈ classes,
        tableName first = tableName second ↔ first.qualifiedName = second.qualifiedName := by
  refine ⟨definedTables_codeLines settings named, fun first isFirst second isSecond => ?_⟩
  constructor
  · intro same
    rw [tableName_eq_iff (named first isFirst) (named second isSecond)] at same
    exact qualifiedName_eq_of_nameParts ((apart first isFirst).intercalate_inj
      (apart second isSecond) (nameParts_ne_nil first) (nameParts_ne_nil second) same)
  · exact congrArg fun name : String =>
      "owc_stringdata_" ++ String.ofList (identifierChars name.toList)

/-- The class with the given names around it. -/
def classNamed (enclosing : List String) (name : String) : WrappedClass where
  name := name
  enclosing := enclosing
  bases := []
  line := 1
  kind := .object

/-- An underscore in a name and a separator, which is two of them. -/
theorem definedTables_and_tableName_eq_iff_widgets :
    (∀ declared ∈ [classNamed ["gui"] "Widget", classNamed [] "gui_Widget"],
        (∀ part ∈ nameParts declared, IsIdentifier part) ∧
          KeepsUnderscoresApart (nameParts declared)) ∧
      tableName (classNamed ["gui"] "Widget") ≠ tableName (classNamed [] "gui_Widget") := by
  have named : ∀ declared ∈ [classNamed ["gui"] "Widget", classNamed [] "gui_Widget"],
      ∀ part ∈ nameParts declared, IsIdentifier part := by
    decide +kernel
  have apart : ∀ declared ∈ [classNamed ["gui"] "Widget", classNamed [] "gui_Widget"],
      KeepsUnderscoresApart (nameParts declared) := by
    decide +kernel
  refine ⟨fun declared member => ⟨named declared member, apart declared member⟩, ?_⟩
  rw [Ne, (definedTables_and_tableName_eq_iff {} named apart).2 _ (by decide) _ (by decide)]
  decide +kernel

/-- An underscore at the end of a name and one at the beginning look the same, although no
name has two in a row. -/
theorem not_nodup_definedTables :
    ¬ ∀ (settings : Settings) (classes : List WrappedClass),
      (∀ declared ∈ classes, ∀ part ∈ nameParts declared, IsIdentifier part) ->
      (classes.map WrappedClass.qualifiedName).Nodup ->
        (definedTables (codeLines settings classes)).Nodup := by
  intro claimed
  have named : ∀ declared ∈ [classNamed ["a_"] "b", classNamed ["a"] "_b"],
      ∀ part ∈ nameParts declared, IsIdentifier part := by
    decide +kernel
  have different := claimed {} [classNamed ["a_"] "b", classNamed ["a"] "_b"] named
    (by decide +kernel)
  rw [definedTables_codeLines {} named] at different
  exact absurd different (by decide +kernel)

/-- Every class with a name around its own has the table of some other class. -/
theorem exists_sameTable_of_nested {declared : WrappedClass}
    (named : ∀ part ∈ nameParts declared, IsIdentifier part) (nested : declared.enclosing ≠ []) :
    ∃ other : WrappedClass, (∀ part ∈ nameParts other, IsIdentifier part) ∧
      tableName other = tableName declared ∧ other.qualifiedName ≠ declared.qualifiedName := by
  have parts : ∃ first second others, nameParts declared = first :: second :: others := by
    rcases List.exists_cons_of_ne_nil nested with ⟨outer, inner, enclosing⟩
    rw [nameParts, enclosing]
    cases inner with
    | nil => exact ⟨_, _, [], rfl⟩
    | cons next more => exact ⟨_, _, _, rfl⟩
  rcases parts with ⟨first, second, others, parts⟩
  have joinedParts : nameParts (classNamed [] (String.ofList
      (['_', '_'].intercalate (nameParts declared)))) =
        [['_', '_'].intercalate (nameParts declared)] := by
    simp [nameParts, classNamed]
  have inside := isNameChar_of_mem_intercalate named
  have joinedNamed : ∀ part ∈ nameParts (classNamed [] (String.ofList
      (['_', '_'].intercalate (nameParts declared)))), IsIdentifier part := by
    rw [joinedParts, List.forall_mem_singleton]
    refine ⟨?_, inside⟩
    rw [parts] at named ⊢
    rcases (named first List.mem_cons_self).begins with ⟨character, head, start⟩
    refine ⟨character, ?_, start⟩
    rw [List.intercalate_cons_cons, List.append_assoc, List.head?_append, head]
    rfl
  refine ⟨_, joinedNamed, ?_, ?_⟩
  · rw [tableName_eq_iff joinedNamed named, joinedParts, List.intercalate_singleton]
  · intro same
    rw [← String.toList_inj, toList_qualifiedName, toList_qualifiedName, joinedParts,
      List.intercalate_singleton] at same
    have separated : ':' ∈ [':', ':'].intercalate (nameParts declared) := by
      rw [parts, List.intercalate_cons_cons]
      simp
    rw [← same] at separated
    cases inside ':' separated

end Wrapper
end ObjectWrapper
