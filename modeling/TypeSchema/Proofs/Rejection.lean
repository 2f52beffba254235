import TypeSchema.Proofs.Refusal

namespace TypeSchema
namespace Parser

open Grammar

/-!
# How definitions are refused

A definition is read part by part, and each part can be refused.  What is said
then depends on whether there is a token at all: at the end of the tokens the
missing part is named, and otherwise the token that stands in its place.
-/

/-! ## Fields -/

/-- A bracket that is opened must be closed at once. -/
theorem fails_arrayMark_iff {tokens rest : List Token} {diagnostic : Diagnostic} :
    arrayMark.Fails tokens diagnostic rest <->
      Exists fun opening => opening.kind = .openBracket ∧ tokens = opening :: rest ∧
        ((rest = [] ∧ diagnostic = { cause := .unclosedBracket }) ∨
          Exists fun found => found ∈ rest.head? ∧ found.kind ≠ .closeBracket ∧
            diagnostic = { cause := .sizedArray opening found }) := by
  constructor
  · intro failed
    rcases fails_bind_iff.mp failed with impossible | ⟨found, behind, ahead, later⟩
    · exact (fails_nextIf?_iff.mp impossible).elim
    · rcases reads_nextIf?_iff.mp ahead with ⟨opening, rfl, opens, rfl⟩ | ⟨rfl, rfl, _⟩
      · refine ⟨opening, opens, ?_⟩
        rcases fails_bind_iff.mp later with impossible | ⟨closed, left, aheadAgain, unclosed⟩
        · exact (fails_nextIf?_iff.mp impossible).elim
        · rcases reads_nextIf?_iff.mp aheadAgain with ⟨closing, rfl, _, rfl⟩ | ⟨rfl, rfl, stops⟩
          · exact (fails_pure_iff.mp unclosed).elim
          · rcases fails_bind_iff.mp unclosed with impossible | ⟨front, _, looked, refused⟩
            · exact (fails_front?_iff.mp impossible).elim
            · rcases reads_front?_iff.mp looked with ⟨rfl, rfl⟩
              split at refused
              · next token isFront =>
                  rcases fails_fail_iff.mp refused with ⟨same, rfl⟩
                  exact ⟨rfl, Or.inr ⟨token, isFront, stops token isFront, same⟩⟩
              · next isEnd =>
                  rcases fails_fail_iff.mp refused with ⟨same, rfl⟩
                  exact ⟨rfl, Or.inl ⟨List.head?_eq_none_iff.mp isEnd, same⟩⟩
      · exact (fails_pure_iff.mp later).elim
  · intro given
    rcases given with ⟨opening, opens, rfl, outcome⟩
    have stops : Stops .closeBracket rest := by
      rcases outcome with ⟨rfl, _⟩ | ⟨found, isFront, other, _⟩
      · exact nofun
      · intro token same
        exact Option.mem_unique isFront same ▸ other
    refine fails_bind_iff.mpr (Or.inr ⟨some opening, rest,
      reads_nextIf?_iff.mpr (Or.inl ⟨opening, rfl, opens, rfl⟩), ?_⟩)
    refine fails_bind_iff.mpr (Or.inr ⟨none, rest,
      reads_nextIf?_iff.mpr (Or.inr ⟨rfl, rfl, stops⟩), ?_⟩)
    refine fails_bind_iff.mpr (Or.inr ⟨rest.head?, rest, reads_front?_iff.mpr ⟨rfl, rfl⟩, ?_⟩)
    rcases outcome with ⟨rfl, same⟩ | ⟨found, isFront, _, same⟩
    · exact fails_fail_iff.mpr ⟨same, rfl⟩
    · rw [Option.mem_def.mp isFront]
      exact fails_fail_iff.mpr ⟨same, rfl⟩

/-- An equals sign demands a value. -/
theorem fails_defaultValue_iff {fieldName : Token} {tokens rest : List Token}
    {diagnostic : Diagnostic} :
    (defaultValue fieldName).Fails tokens diagnostic rest <->
      Exists fun equals => equals.kind = .equals ∧
        ((tokens = [equals] ∧ rest = [] ∧ diagnostic = { cause := .defaultMissing fieldName }) ∨
          Exists fun first => Exists fun behind => tokens = equals :: first :: behind ∧
            (Parser.value first).Fails behind diagnostic rest) := by
  constructor
  · intro failed
    rcases fails_bind_iff.mp failed with impossible | ⟨found, behind, ahead, later⟩
    · exact (fails_nextIf?_iff.mp impossible).elim
    · rcases reads_nextIf?_iff.mp ahead with ⟨equals, rfl, isEquals, rfl⟩ | ⟨rfl, rfl, _⟩
      · refine ⟨equals, isEquals, ?_⟩
        rcases fails_bind_iff.mp later with impossible | ⟨next, left, taken, refused⟩
        · exact (fails_next?_iff.mp impossible).elim
        · rcases reads_next?_iff.mp taken with ⟨rfl, rfl⟩
          cases behind with
          | nil =>
              rcases fails_fail_iff.mp refused with ⟨same, left⟩
              exact Or.inl ⟨rfl, left, same⟩
          | cons first behind =>
              rcases fails_bind_iff.mp refused with valueFailed | ⟨_, _, _, impossible⟩
              · exact Or.inr ⟨first, behind, rfl, valueFailed⟩
              · exact (fails_pure_iff.mp impossible).elim
      · exact (fails_pure_iff.mp later).elim
  · intro given
    rcases given with ⟨equals, isEquals, outcome⟩
    rcases outcome with ⟨rfl, rfl, same⟩ | ⟨first, behind, rfl, failed⟩
    · refine fails_bind_iff.mpr (Or.inr ⟨some equals, [],
        reads_nextIf?_iff.mpr (Or.inl ⟨equals, rfl, isEquals, rfl⟩), ?_⟩)
      exact fails_bind_iff.mpr (Or.inr ⟨none, [], reads_next?_iff.mpr ⟨rfl, rfl⟩,
        fails_fail_iff.mpr ⟨same, rfl⟩⟩)
    · refine fails_bind_iff.mpr (Or.inr ⟨some equals, first :: behind,
        reads_nextIf?_iff.mpr (Or.inl ⟨equals, rfl, isEquals, rfl⟩), ?_⟩)
      exact fails_bind_iff.mpr (Or.inr ⟨some first, behind, reads_next?_iff.mpr ⟨rfl, rfl⟩,
        fails_bind_iff.mpr (Or.inl failed)⟩)

/-- A field needs a type name, a name that tells something, and whatever its
marks demand. -/
theorem fails_field_iff {first : Token} {tokens rest : List Token} {diagnostic : Diagnostic} :
    (field first).Fails tokens diagnostic rest <->
      (first.kind ≠ .word ∧ diagnostic = { cause := .fieldExpected first } ∧ rest = tokens) ∨
        (first.kind = .word ∧ ((name .field).Fails tokens diagnostic rest ∨
          Exists fun fieldName => Exists fun behind => fieldName.kind = .word ∧
            tokens = fieldName :: behind ∧
              ((¬ IsTelling fieldName.text ∧ diagnostic = { cause := .blankField fieldName } ∧
                  rest = behind) ∨
                (IsTelling fieldName.text ∧ (arrayMark.Fails behind diagnostic rest ∨
                  Exists fun isArray => Exists fun left => arrayMark.Reads behind isArray left ∧
                    (defaultValue fieldName).Fails left diagnostic rest))))) := by
  have split : forall fieldName : Token, IsTelling fieldName.text <->
      ¬ isBlankName fieldName.text = true := by
    intro fieldName
    rw [← isBlankName_eq_false_iff, Bool.eq_false_iff]
  rw [field]
  by_cases word : first.kind = .word
  · simp only [Token.is, word, decide_true, Bool.not_true, Bool.false_eq_true, if_false,
      fails_bind_iff, reads_name_iff, ne_eq, not_true_eq_false, false_and, true_and, false_or]
    refine or_congr Iff.rfl ?_
    constructor
    · rintro ⟨fieldName, behind, ⟨nameWord, rfl⟩, later⟩
      refine ⟨fieldName, behind, nameWord, rfl, ?_⟩
      split at later
      · next blank => exact Or.inl ⟨fun telling => (split _).mp telling blank, fails_fail_iff.mp later⟩
      · next notBlank =>
          refine Or.inr ⟨(split _).mpr notBlank, ?_⟩
          rcases fails_bind_iff.mp later with failed | ⟨isArray, left, marked, behindMark⟩
          · exact Or.inl failed
          · rcases fails_bind_iff.mp behindMark with failed | ⟨_, _, _, impossible⟩
            · exact Or.inr ⟨isArray, left, marked, failed⟩
            · exact (fails_pure_iff.mp impossible).elim
    · rintro ⟨fieldName, behind, nameWord, rfl, refused | ⟨telling, outcome⟩⟩
      · refine ⟨fieldName, behind, ⟨nameWord, rfl⟩, ?_⟩
        rw [if_pos (Classical.not_not.mp fun notBlank => refused.1 ((split _).mpr notBlank))]
        exact fails_fail_iff.mpr refused.2
      · refine ⟨fieldName, behind, ⟨nameWord, rfl⟩, ?_⟩
        rw [if_neg ((split _).mp telling)]
        rcases outcome with failed | ⟨isArray, left, marked, failed⟩
        · exact fails_bind_iff.mpr (Or.inl failed)
        · exact fails_bind_iff.mpr (Or.inr ⟨isArray, left, marked, fails_bind_iff.mpr (Or.inl failed)⟩)
  · simp [Token.is, word]

theorem fails_listedField_iff {typeName first : Token} {earlier : List Field}
    {tokens rest : List Token} {diagnostic : Diagnostic} :
    (listedField typeName earlier first).Fails tokens diagnostic rest <->
      (field first).Fails tokens diagnostic rest ∨
        Exists fun found => (field first).Reads tokens found rest ∧
          ¬ Novel (fun field => field.name.text) earlier found ∧
          diagnostic = { cause := .duplicateField found.name } := by
  rw [listedField, fails_bind_iff]
  refine or_congr Iff.rfl ?_
  constructor
  · rintro ⟨found, behind, read, later⟩
    split at later
    · next known =>
        rcases fails_fail_iff.mp later with ⟨same, rfl⟩
        refine ⟨found, read, ?_, same⟩
        rw [← any_name_eq_false_iff, Bool.not_eq_false]
        exact known
    · rcases fails_bind_iff.mp later with impossible | ⟨_, _, _, impossible⟩
      · exact (fails_emit_iff.mp impossible).elim
      · exact (fails_pure_iff.mp impossible).elim
  · rintro ⟨found, read, known, same⟩
    refine ⟨found, rest, read, ?_⟩
    rw [← any_name_eq_false_iff, Bool.not_eq_false] at known
    rw [if_pos known]
    exact fails_fail_iff.mpr ⟨same, rfl⟩

/-! ## Members -/

/-- A member is refused for what it is, whatever stands behind it. -/
theorem token?_of_listedMember {enumName first : Token} {earlier tokens rest : List Token}
    {diagnostic : Diagnostic}
    (failed : (listedMember enumName earlier first).Fails tokens diagnostic rest) :
    diagnostic.token? = some first := by
  have refused : forall cause : Cause, cause.token? = some first ->
      (fail cause : Parser Token).Fails tokens diagnostic rest ->
        diagnostic.token? = some first := by
    intro cause blames failed
    rw [(fails_fail_iff.mp failed).1]
    exact blames
  rw [listedMember] at failed
  split at failed
  · exact refused _ rfl failed
  · split at failed
    · exact refused _ rfl failed
    · split at failed
      · exact refused _ rfl failed
      · rcases fails_bind_iff.mp failed with impossible | ⟨_, _, _, impossible⟩
        · exact (fails_emit_iff.mp impossible).elim
        · exact (fails_pure_iff.mp impossible).elim

/-! ## Definitions -/

theorem fails_parent_iff {typeName : Token} {tokens rest : List Token} {diagnostic : Diagnostic} :
    (parent typeName).Fails tokens diagnostic rest <->
      (Exists fun colon => Exists fun behind => colon.kind = .colon ∧ tokens = colon :: behind ∧
        ((name .parent).Fails behind diagnostic rest ∨
          Exists fun parentName => parentName.kind = .word ∧ behind = parentName :: rest ∧
            parentName.text = typeName.text ∧
            diagnostic = { cause := .ownParent typeName parentName })) ∨
        (Stops .colon tokens ∧ Stops .openBrace tokens ∧ rest = tokens ∧
          diagnostic = { cause := .typeBodyExpected typeName tokens.head? }) := by
  rw [parent, fails_bind_iff]
  constructor
  · rintro (impossible | ⟨announced, behind, ahead, later⟩)
    · exact (fails_nextIf?_iff.mp impossible).elim
    · rcases reads_nextIf?_iff.mp ahead with ⟨colon, rfl, isColon, rfl⟩ | ⟨rfl, rfl, noColon⟩
      · refine Or.inl ⟨colon, behind, isColon, rfl, ?_⟩
        rcases fails_bind_iff.mp later with failed | ⟨parentName, left, named, judged⟩
        · exact Or.inl failed
        · rcases reads_name_iff.mp named with ⟨word, rfl⟩
          split at judged
          · next own =>
              rcases fails_fail_iff.mp judged with ⟨same, rfl⟩
              exact Or.inr ⟨parentName, word, rfl, own, same⟩
          · exact (fails_pure_iff.mp judged).elim
      · refine Or.inr ⟨noColon, ?_⟩
        rcases fails_bind_iff.mp later with impossible | ⟨front, _, looked, judged⟩
        · exact (fails_front?_iff.mp impossible).elim
        · rcases reads_front?_iff.mp looked with ⟨rfl, rfl⟩
          split at judged
          · next token isFront =>
              split at judged
              · exact (fails_pure_iff.mp judged).elim
              · next noBrace =>
                  rcases fails_fail_iff.mp judged with ⟨same, left⟩
                  refine ⟨?_, left, by rw [same, isFront]⟩
                  intro other same
                  rw [Option.mem_unique same isFront]
                  exact fun opens => noBrace ((token.is_iff _).mpr opens)
          · next isEnd =>
              rcases fails_fail_iff.mp judged with ⟨same, left⟩
              refine ⟨?_, left, by rw [same, isEnd]⟩
              intro other same
              rw [isEnd] at same
              cases same
  · rintro (⟨colon, behind, isColon, rfl, outcome⟩ | ⟨noColon, noBrace, rfl, same⟩)
    · refine Or.inr ⟨some colon, behind,
        reads_nextIf?_iff.mpr (Or.inl ⟨colon, rfl, isColon, rfl⟩), fails_bind_iff.mpr ?_⟩
      rcases outcome with failed | ⟨parentName, word, rfl, own, same⟩
      · exact Or.inl failed
      · refine Or.inr ⟨parentName, rest, reads_name_iff.mpr ⟨word, rfl⟩, ?_⟩
        rw [if_pos own]
        exact fails_fail_iff.mpr ⟨same, rfl⟩
    · refine Or.inr ⟨none, rest, reads_nextIf?_iff.mpr (Or.inr ⟨rfl, rfl, noColon⟩),
        fails_bind_iff.mpr (Or.inr ⟨rest.head?, rest, reads_front?_iff.mpr ⟨rfl, rfl⟩, ?_⟩)⟩
      cases front : rest.head? with
      | none =>
          rw [front] at same
          exact fails_fail_iff.mpr ⟨same, rfl⟩
      | some token =>
          have other : token.is .openBrace = false :=
            Bool.eq_false_iff.mpr fun opens => noBrace token front ((token.is_iff _).mp opens)
          rw [front] at same
          simp only [other, Bool.false_eq_true, if_false]
          exact fails_fail_iff.mpr ⟨same, rfl⟩

theorem fails_enumDefinition_iff {keyword : Token} {tokens rest : List Token}
    {diagnostic : Diagnostic} :
    (enumDefinition keyword).Fails tokens diagnostic rest <->
      (name (.definition .enum)).Fails tokens diagnostic rest ∨
        Exists fun enumName => Exists fun header => enumName.kind = .word ∧
          tokens = enumName :: header ∧
            ((openBrace .enum).Fails header diagnostic rest ∨
              Exists fun opening => Exists fun body => opening.kind = .openBrace ∧
                header = opening :: body ∧
                  ((Exists fun inner =>
                      (braced .enumMembers (listedMember enumName)).Fails body inner rest ∧
                        diagnostic = inner.within (.definition .enum enumName)) ∨
                    Exists fun closing =>
                      (braced .enumMembers (listedMember enumName)).Reads body ([], closing) rest ∧
                        diagnostic = { cause := .noMembers enumName })) := by
  simp only [enumDefinition_eq, fails_bind_iff, reads_name_iff, reads_openBrace_iff, reads_within_iff,
    fails_within_iff]
  constructor
  · rintro (failed | ⟨enumName, header, ⟨word, rfl⟩, later⟩)
    · exact Or.inl failed
    · refine Or.inr ⟨enumName, header, word, rfl, ?_⟩
      rcases later with failed | ⟨opening, body, ⟨opens, rfl⟩, inside⟩
      · exact Or.inl failed
      · refine Or.inr ⟨opening, body, opens, rfl, ?_⟩
        rcases inside with failed | ⟨⟨members, closing⟩, left, read, judged⟩
        · exact Or.inl failed
        · simp only at judged
          split at judged
          · next isEmpty =>
              rcases fails_fail_iff.mp judged with ⟨same, rfl⟩
              rw [List.isEmpty_iff.mp isEmpty] at read
              exact Or.inr ⟨closing, read, same⟩
          · exact (fails_pure_iff.mp judged).elim
  · rintro (failed | ⟨enumName, header, word, rfl, later⟩)
    · exact Or.inl failed
    · refine Or.inr ⟨enumName, header, ⟨word, rfl⟩, ?_⟩
      rcases later with failed | ⟨opening, body, opens, rfl, inside⟩
      · exact Or.inl failed
      · refine Or.inr ⟨opening, body, ⟨opens, rfl⟩, ?_⟩
        rcases inside with failed | ⟨closing, read, same⟩
        · exact Or.inl failed
        · exact Or.inr ⟨([], closing), rest, read, fails_fail_iff.mpr ⟨same, rfl⟩⟩

theorem fails_typeDefinition_iff {keyword : Token} {tokens rest : List Token}
    {diagnostic : Diagnostic} :
    (typeDefinition keyword).Fails tokens diagnostic rest <->
      (name (.definition .type)).Fails tokens diagnostic rest ∨
        Exists fun typeName => Exists fun header => typeName.kind = .word ∧
          tokens = typeName :: header ∧
            ((parent typeName).Fails header diagnostic rest ∨
              Exists fun parentName => Exists fun behind =>
                (parent typeName).Reads header parentName behind ∧
                  ((openBrace .type).Fails behind diagnostic rest ∨
                    Exists fun opening => Exists fun body => opening.kind = .openBrace ∧
                      behind = opening :: body ∧ Exists fun inner =>
                        (braced .typeMembers (listedField typeName)).Fails body inner rest ∧
                          diagnostic = inner.within (.definition .type typeName))) := by
  simp only [typeDefinition_eq, fails_bind_iff, reads_name_iff, reads_openBrace_iff, fails_within_iff,
    fails_pure_iff, and_false, exists_false, or_false, and_assoc, exists_and_left]

end Parser
end TypeSchema
