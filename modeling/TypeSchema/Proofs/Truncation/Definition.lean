import TypeSchema.Proofs.Truncation.Value
import TypeSchema.Proofs.Unfinished

namespace TypeSchema
namespace Parser

open Grammar

/-!
# Truncated definitions

A definition ends with the brace that closes it, so a part of it that lacks the
end is no definition, and to read it fails at the end of the tokens.  A field
has no such end: behind its name and behind its array mark it may be complete,
and then it is the body of the type that lacks its end.
-/

/-! ## Cut fields -/

section Field

variable {typeName name : Token} {mark : List Token} {isArray : Bool} (typed : typeName.kind = .word)
  (named : name.kind = .word) (telling : IsTelling name.text)
  (markSpelled : SpellsArrayMark mark isArray)
include typed named telling markSpelled

theorem fails_field_of_default {behind rest : List Token} {diagnostic : Diagnostic}
    (stops : Stops .openBracket behind)
    (failed : (defaultValue name).Fails behind diagnostic rest) :
    (field typeName).Fails (name :: (mark ++ behind)) diagnostic rest :=
  fails_field_iff.mpr (Or.inr ⟨typed, Or.inr ⟨name, mark ++ behind, named, rfl, Or.inr ⟨telling,
    Or.inr ⟨isArray, behind, arrayMark_complete markSpelled stops, failed⟩⟩⟩⟩)

theorem fails_field_of_value {equals first : Token} {tokens rest : List Token}
    {diagnostic : Diagnostic} (isEquals : equals.kind = .equals)
    (failed : (Parser.value first).Fails tokens diagnostic rest) :
    (field typeName).Fails (name :: (mark ++ equals :: first :: tokens)) diagnostic rest := by
  refine fails_field_of_default typed named telling markSpelled (stops_cons (by simp [isEquals])) ?_
  exact fails_defaultValue_iff.mpr ⟨equals, isEquals, Or.inr ⟨first, tokens, rfl, failed⟩⟩

/-- Behind its array mark a field may be complete, without its default value. -/
theorem reads_field_of_mark :
    (field typeName).Reads (name :: mark) { typeName, name, isArray, defaultValue := none } [] := by
  have uniform : UniformDefault none := nofun
  have read := field_complete (.field typed named markSpelled .absent) telling uniform apart_nil
  simpa only [List.append_nil] using read

end Field

/-- What becomes of a field that is cut: it fails, or a shorter field of the same
name is read. -/
def CutField (first : Token) (part more : List Token) (whole : Field) : Prop :=
  (field first).Halts part (CutAtName (FieldSurrounds whole) (first :: part) more) ∨
    Exists fun read => (field first).Reads part read [] ∧ read.name = whole.name

theorem cutField_default {typeName name : Token} {mark initial part more : List Token}
    {isArray : Bool} {value : Option Value} (typed : typeName.kind = .word)
    (named : name.kind = .word) (telling : IsTelling name.text)
    (markSpelled : SpellsArrayMark mark isArray) (initialSpelled : SpellsDefault initial value)
    (uniform : UniformDefault value) (split : initial = part ++ more) (present : more ≠ []) :
    CutField typeName (name :: (mark ++ part)) more
      { typeName, name, isArray, defaultValue := value } := by
  cases part with
  | nil =>
      rw [List.append_nil]
      exact Or.inr ⟨_, reads_field_of_mark typed named telling markSpelled, rfl⟩
  | cons next part =>
      cases initialSpelled with
      | absent => cases split
      | @present equals taken value isEquals spelled =>
          rcases List.cons.inj split with ⟨rfl, rest⟩
          cases part with
          | nil =>
              have failed := fails_field_of_default typed named telling markSpelled
                (stops_cons (by simp [isEquals]))
                (fails_defaultValue_iff.mpr ⟨equals, isEquals, Or.inl ⟨rfl, rfl, rfl⟩⟩)
              exact Or.inl ⟨_, failed, Or.inl rfl⟩
          | cons start part =>
              have unnamed := spelled.kind_ne_assignment
              cases hereditary_cuts.value spelled (uniform value rfl) rest present with
              | halts _ valueHalts =>
                  rcases valueHalts unnamed with ⟨diagnostic, failed, unblamed⟩
                  exact Or.inl ⟨diagnostic,
                    fails_field_of_value typed named telling markSpelled isEquals failed,
                    unblamed.imp_right fun cut : CutAtName _ _ _ =>
                      cut.initial typed named markSpelled isEquals unnamed⟩
              | literal isAssignment _ => exact absurd isAssignment unnamed

theorem cutField {taken : List Token} {whole : Field} (spelled : SpellsField taken whole)
    (telling : IsTelling whole.name.text) (uniform : UniformDefault whole.defaultValue) {first : Token}
    {part more : List Token} (split : taken = first :: (part ++ more)) (present : more ≠ []) :
    CutField first part more whole := by
  cases spelled with
  | @field typeName name mark initial isArray value typed named markSpelled initialSpelled =>
      rcases List.cons.inj split with ⟨rfl, rest⟩
      cases part with
      | nil =>
          have failed : (field typeName).Fails [] { cause := .nameExpected .field none } [] :=
            fails_field_iff.mpr (Or.inr ⟨typed, Or.inl fails_name_nil⟩)
          exact Or.inl ⟨_, failed, Or.inl rfl⟩
      | cons next part =>
          rcases List.cons.inj rest with ⟨rfl, remaining⟩
          have default := fun behind => @cutField_default typeName name mark initial behind more
            isArray value typed named telling markSpelled initialSpelled uniform
          cases markSpelled with
          | absent => exact default part remaining present
          | @present opening closing opens closes =>
              cases part with
              | nil =>
                  exact Or.inr ⟨_, reads_field_of_mark typed named telling .absent, rfl⟩
              | cons bracket part =>
                  rcases List.cons.inj remaining with ⟨rfl, later⟩
                  cases part with
                  | nil =>
                      have failed : arrayMark.Fails [opening] { cause := .unclosedBracket } [] :=
                        fails_arrayMark_iff.mpr ⟨opening, opens, rfl, Or.inl ⟨rfl, rfl⟩⟩
                      exact Or.inl ⟨_, fails_field_iff.mpr (Or.inr ⟨typed, Or.inr ⟨name, [opening], named,
                        rfl, Or.inr ⟨telling, Or.inl failed⟩⟩⟩), Or.inl rfl⟩
                  | cons last part =>
                      rcases List.cons.inj later with ⟨rfl, initialSplit⟩
                      exact default part initialSplit present

/-! ## Cut definitions -/

/-- A header that is read and a body that fails. -/
theorem fails_typeDefinition_of_body {keyword typeName opening : Token} {ancestry body rest : List Token}
    {parentName : Option Token} {inner : Diagnostic} (named : typeName.kind = .word)
    (parentSpelled : SpellsParent ancestry parentName)
    (foreign : forall parent, parent ∈ parentName -> parent.text ≠ typeName.text)
    (opens : opening.kind = .openBrace)
    (failed : (braced .typeMembers (listedField typeName)).Fails body inner rest) :
    (typeDefinition keyword).Fails (typeName :: (ancestry ++ opening :: body))
      (inner.within (.definition .type typeName)) rest := by
  refine fails_typeDefinition_iff.mpr (Or.inr ⟨typeName, _, named, rfl, Or.inr ⟨parentName,
    opening :: body, ?_, Or.inr ⟨opening, body, opens, rfl, inner, failed, rfl⟩⟩⟩)
  exact reads_parent_iff.mpr ⟨⟨ancestry, rfl, parentSpelled, foreign⟩, fun _ => ⟨opening, rfl, opens⟩⟩

theorem halts_listedField {typeName first : Token} {earlier : List Field} {whole : Field}
    {part more : List Token} (spelled : SpellsField (first :: (part ++ more)) whole)
    (admitted : AdmitsField earlier whole) (present : more ≠ []) :
    (listedField typeName earlier first).Halts part
        (CutAtName (FieldSurrounds whole) (first :: part) more) ∨
      Exists fun read => (listedField typeName earlier first).Reads part read [] := by
  rcases cutField spelled admitted.2.1 admitted.2.2 rfl present with
    ⟨diagnostic, failed, unblamed⟩ | ⟨read, fieldRead, sameName⟩
  · exact Or.inl ⟨diagnostic, fails_listedField_iff.mpr (Or.inl failed), unblamed⟩
  · refine Or.inr ⟨read, reads_listedField_iff.mpr ⟨fieldRead, ?_⟩⟩
    intro other member
    have novel : other.name.text ≠ whole.name.text := admitted.1 other member
    rw [← sameName] at novel
    exact novel

theorem halts_enumDefinition {keyword enumName opening closing : Token} {body members : List Token}
    {excepted : Prop} (named : enumName.kind = .word) (opens : opening.kind = .openBrace)
    (listing : Listing SpellsMember body members)
    (admissible : EnumDefinition.Admissible { keyword, name := enumName, members }) {part more : List Token}
    (split : enumName :: opening :: (body ++ [closing]) = part ++ more) (present : more ≠ []) :
    (enumDefinition keyword).Halts part excepted := by
  cases part with
  | nil =>
      exact ⟨_, fails_enumDefinition_iff.mpr (Or.inl fails_name_nil),
        Or.inl rfl⟩
  | cons next part =>
      rcases List.cons.inj split with ⟨rfl, header⟩
      cases part with
      | nil =>
          exact ⟨_, fails_enumDefinition_iff.mpr (Or.inr ⟨enumName, [], named, rfl,
            Or.inl fails_openBrace_nil⟩), Or.inl rfl⟩
      | cons brace part =>
          rcases List.cons.inj header with ⟨rfl, rest⟩
          rcases exists_of_cut rest present with ⟨remaining, bodySplit, rfl⟩
          rcases listing.cut bodySplit with ⟨front, earlier, ahead, rfl, listed, last⟩
          rcases last with ⟨rfl, later, rfl⟩ | ⟨start, taken, others, back, member, later, rfl, some, _,
            spelled, _, _⟩
          · have admitted := (admitsAll_append.mp (admissible_enum_iff.mp admissible)).1
            have failed := @unclosed_of_listing _ .enumMembers _ _ _ _ _
              (listedMember_follows enumName _) listed admitted
            rw [List.append_nil]
            exact ⟨_, fails_enumDefinition_iff.mpr (Or.inr ⟨enumName, _, named, rfl, Or.inr ⟨opening,
              front, opens, rfl, Or.inl ⟨_, failed, rfl⟩⟩⟩), Or.inl rfl⟩
          · -- A member is a single token, which cannot be cut.
            generalize whole : start :: (taken ++ others) = own at spelled
            cases spelled
            exact absurd (List.append_eq_nil_iff.mp (List.cons.inj whole).2).2 some

/-- A type that is cut in its header. -/
theorem halts_typeHeader {keyword typeName : Token} {ancestry part others : List Token}
    {parentName : Option Token} {excepted : Prop} (named : typeName.kind = .word)
    (parentSpelled : SpellsParent ancestry parentName)
    (foreign : forall parent, parent ∈ parentName -> parent.text ≠ typeName.text)
    (split : ancestry = part ++ others) :
    (typeDefinition keyword).Halts (typeName :: part) excepted := by
  have behindName : forall {header diagnostic}, (parent typeName).Fails header diagnostic [] ->
      (typeDefinition keyword).Fails (typeName :: header) diagnostic [] := by
    intro header diagnostic failed
    exact fails_typeDefinition_iff.mpr (Or.inr ⟨typeName, header, named, rfl, Or.inl failed⟩)
  cases part with
  | nil =>
      have failed : (parent typeName).Fails [] { cause := .typeBodyExpected typeName none } [] :=
        fails_parent_iff.mpr (Or.inr ⟨nofun, nofun, rfl, rfl⟩)
      exact ⟨_, behindName failed, Or.inl rfl⟩
  | cons next part =>
      cases parentSpelled with
      | absent => cases split
      | @present colon parentName isColon word =>
          rcases List.cons.inj split with ⟨rfl, rest⟩
          cases part with
          | nil =>
              have failed : (parent typeName).Fails [colon]
                  { cause := .nameExpected .parent none } [] :=
                fails_parent_iff.mpr (Or.inl ⟨colon, [], isColon, rfl,
                  Or.inl fails_name_nil⟩)
              exact ⟨_, behindName failed, Or.inl rfl⟩
          | cons last part =>
              rcases List.cons.inj rest with ⟨rfl, atEnd⟩
              have empty := (List.append_eq_nil_iff.mp atEnd.symm).1
              subst empty
              have read : (parent typeName).Reads [colon, parentName] (some parentName) [] :=
                reads_parent_iff.mpr ⟨⟨[colon, parentName], rfl, .present isColon word, foreign⟩, nofun⟩
              exact ⟨_, fails_typeDefinition_iff.mpr (Or.inr ⟨typeName, _, named, rfl,
                Or.inr ⟨_, [], read, Or.inl fails_openBrace_nil⟩⟩), Or.inl rfl⟩

section TypeBody

variable {keyword typeName opening closing : Token} {ancestry body : List Token}
  {parentName : Option Token} {fields : List Field} (word : keyword.kind = .word)
  (spelling : keyword.text = "type") (named : typeName.kind = .word)
  (parentSpelled : SpellsParent ancestry parentName) (opens : opening.kind = .openBrace)
  (listing : Listing SpellsField body fields) (closes : closing.kind = .closeBrace)
  (admissible : TypeDefinition.Admissible { keyword, name := typeName, parent := parentName, fields })
include word spelling named parentSpelled opens listing closes admissible

theorem halts_typeBody {part remaining : List Token} (split : body = part ++ remaining) :
    (typeDefinition keyword).Halts (typeName :: (ancestry ++ opening :: part))
      (CutAtName (DefinitionSurrounds (.type { keyword, name := typeName, parent := parentName, fields }))
        (keyword :: typeName :: (ancestry ++ opening :: part)) (remaining ++ [closing])) := by
  rcases admissible_type_iff.mp admissible with ⟨foreign, admitted⟩
  have halts : (braced .typeMembers (listedField typeName)).Halts part
      (CutAtName (DefinitionSurrounds (.type { keyword, name := typeName, parent := parentName, fields }))
        (keyword :: typeName :: (ancestry ++ opening :: part)) (remaining ++ [closing])) := by
    rcases listing.cut split with ⟨front, earlier, ahead, rfl, listed, last⟩
    rcases last with ⟨rfl, later, rfl⟩ | ⟨start, taken, next, back, field, later, rfl, some, rfl,
      spelled, trail, rfl⟩
    · rw [List.append_nil]
      exact ⟨_, unclosed_of_listing (listedField_follows typeName _) listed
        (admitsAll_append.mp admitted).1, Or.inl rfl⟩
    · rcases admitsAll_append.mp admitted with ⟨earlierAdmitted, fieldAdmitted, _⟩
      refine halts_braced (listedField_follows typeName _) listed earlierAdmitted
        (begins_of_cons spelled.begins) ?_
      refine (halts_listedField spelled fieldAdmitted some).imp_left fun halts => halts.mono ?_
      intro cut
      rw [List.append_assoc]
      exact cut.member word spelling named parentSpelled opens listed trail closes
  rcases halts with ⟨diagnostic, failed, unblamed⟩
  exact ⟨_, fails_typeDefinition_of_body named parentSpelled foreign opens failed, unblamed⟩

theorem halts_typeDefinition {part more : List Token}
    (split : typeName :: (ancestry ++ opening :: (body ++ [closing])) = part ++ more)
    (present : more ≠ []) :
    (typeDefinition keyword).Halts part
      (CutAtName (DefinitionSurrounds (.type { keyword, name := typeName, parent := parentName, fields }))
        (keyword :: part) more) := by
  cases part with
  | nil =>
      exact ⟨_, fails_typeDefinition_iff.mpr (Or.inl fails_name_nil),
        Or.inl rfl⟩
  | cons next part =>
      rcases List.cons.inj split with ⟨rfl, header⟩
      have foreign := (admissible_type_iff.mp admissible).1
      rcases List.append_eq_append_iff.mp header with ⟨passed, rfl, rest⟩ | ⟨others, rfl, _⟩
      · cases passed with
        | nil =>
            rw [List.append_nil]
            exact halts_typeHeader named parentSpelled foreign (List.append_nil ancestry).symm
        | cons brace passed =>
            rcases List.cons.inj rest with ⟨rfl, bodyRest⟩
            rcases exists_of_cut bodyRest present with ⟨remaining, bodySplit, rfl⟩
            exact halts_typeBody word spelling named parentSpelled opens listing closes admissible
              bodySplit
      · exact halts_typeHeader named parentSpelled foreign rfl

end TypeBody

theorem definition_of_enum {first : Token} (word : first.kind = .word) (spelling : first.text = "enum") :
    Parser.definition first = enumDefinition first := by
  have found : Keyword.ofToken? first = some .enum := ofToken?_eq_some_iff.mpr ⟨word, spelling⟩
  rw [Parser.definition, found]

theorem definition_of_type {first : Token} (word : first.kind = .word) (spelling : first.text = "type") :
    Parser.definition first = typeDefinition first := by
  have found : Keyword.ofToken? first = some .type := ofToken?_eq_some_iff.mpr ⟨word, spelling⟩
  rw [Parser.definition, found]

/-- A definition that is cut is not read, and no token is blamed unless it is
cut at a name. -/
theorem halts_definition {first : Token} {taken part more : List Token} {definition : Definition}
    (spelled : SpellsDefinition taken definition) (admissible : definition.Admissible)
    (split : taken = first :: (part ++ more)) (present : more ≠ []) :
    (Parser.definition first).Halts part
      (CutAtName (DefinitionSurrounds definition) (first :: part) more) := by
  cases spelled with
  | enum word spelling named opens listing _ closes =>
      rcases List.cons.inj split with ⟨rfl, rest⟩
      rw [definition_of_enum word spelling]
      exact halts_enumDefinition named opens listing admissible rest present
  | type word spelling named parentSpelled opens listing closes =>
      rcases List.cons.inj split with ⟨rfl, rest⟩
      rw [definition_of_type word spelling]
      exact halts_typeDefinition word spelling named parentSpelled opens listing closes admissible rest
        present

/-- If it is cut at a name, the name is blamed. -/
theorem fails_definition_at_word {word first : Token} {part more : List Token}
    {definition : Definition} (admissible : definition.Admissible)
    (ends : EndsInName (DefinitionSurrounds definition) word (first :: part) more) :
    Exists fun diagnostic => (Parser.definition first).Fails part diagnostic [] ∧
      diagnostic.cause = .valueExpected word := by
  generalize whole : first :: part = seen at ends
  cases ends with
  | @name before own behind inner isWord plain spelled surrounds =>
      cases surrounds with
      | @type keyword name opening closing ancestry front before behind back parent inner earlier later
          field keywordWord spelling named parentSpelled opens listing fieldSurrounds trail closes =>
          rcases admissible_type_iff.mp admissible with ⟨foreign, admitted⟩
          rcases admitsAll_append.mp admitted with ⟨earlierAdmitted, fieldAdmitted, _⟩
          cases fieldSurrounds with
          | @field typeName fieldName equals mark before behind isArray depth inner value typed
              fieldNamed markSpelled isEquals unnamed surrounds =>
              rcases exists_cons_of_concat before word with ⟨start, taken, split⟩
              have uniform : value.Uniform := fieldAdmitted.2.2 value rfl
              have valueFailed := (fails_at_word isWord plain spelled surrounds uniform split).2
                unnamed
              have fieldFailed := fails_field_of_value typed fieldNamed fieldAdmitted.2.1
                markSpelled isEquals valueFailed
              have begins : Begins typeName.kind := Or.inl typed
              have bodyFailed := @fails_braced_of_item _ .typeMembers _ _ _ _ _ _ _
                (listedField_follows name _) listing earlierAdmitted begins _ _
                (fails_listedField_iff.mpr (Or.inl fieldFailed))
              have failed := @fails_typeDefinition_of_body keyword _ _ _ _ _ _ _ named
                parentSpelled foreign opens bodyFailed
              simp only [List.cons_append, List.append_assoc, split] at whole
              rcases List.cons.inj whole with ⟨rfl, rfl⟩
              rw [definition_of_type keywordWord spelling]
              exact ⟨_, failed, rfl⟩

end Parser

namespace Schema

open Grammar

/-- A message contains the text that says that the tokens have come to an end. -/
def MentionsEnd (message : String) : Prop :=
  Exists fun before => Exists fun after => message = before ++ "unexpected end of input" ++ after

/-- Every construction around a failure is mentioned before its cause. -/
theorem mentionsEnd_of_unblamed {diagnostic : Diagnostic} (unblamed : diagnostic.token? = none) :
    MentionsEnd diagnostic.message := by
  rcases diagnostic with ⟨context, cause⟩
  induction context with
  | nil =>
      rcases (Cause.of_unblamed unblamed).2 with ⟨more, said⟩
      exact ⟨"", more, by rw [String.empty_append]; exact said⟩
  | cons around context ih =>
      rcases ih unblamed with ⟨before, after, same⟩
      refine ⟨around.label ++ ": " ++ before, after, ?_⟩
      rw [Diagnostic.message_cons, same]
      simp only [String.append_assoc]

/-- A definition that lacks its end is rejected with nothing left.  If the last
token is a word that begins a value or a child of a list, and no literal, then
it is to blame, and otherwise the end of the tokens is. -/
theorem step_truncated {schema : Schema} {seen unseen : List Token} {definition : Definition}
    (entered : schema.Enters (seen ++ unseen) definition []) (begun : seen ≠ [])
    (cutOff : unseen ≠ []) :
    Exists fun diagnostic => schema.Rejects seen diagnostic [] ∧
      diagnostic.category = .syntactic ∧
      (forall word, EndsInName (DefinitionSurrounds definition) word seen unseen ->
        diagnostic.token? = some word) ∧
      (¬ CutAtName (DefinitionSurrounds definition) seen unseen ->
        diagnostic.token? = none ∧ MentionsEnd diagnostic.message) := by
  rcases (enters_iff.mp entered).1 with ⟨taken, split, spelled, admissible⟩
  rw [List.append_nil] at split
  cases seen with
  | nil => exact absurd rfl begun
  | cons first part =>
      rcases Parser.halts_definition spelled admissible split.symm cutOff with
        ⟨diagnostic, failed, unblamed⟩
      have blamed : forall {word}, EndsInName (DefinitionSurrounds definition) word (first :: part) unseen ->
          diagnostic.cause = .valueExpected word := by
        intro word ends
        rcases Parser.fails_definition_at_word admissible ends with ⟨other, otherFailed, isWord⟩
        have same : other = diagnostic := Except.error.inj (otherFailed.1.symm.trans failed.1)
        exact same ▸ isWord
      refine ⟨diagnostic, rejects_iff.mpr ⟨first, part, rfl, Or.inl failed⟩, ?_, ?_, ?_⟩
      · rcases unblamed with unblamed | ⟨word, ends⟩
        · exact (Cause.of_unblamed unblamed).1
        · rw [Diagnostic.category, blamed ends]
          rfl
      · intro word ends
        rw [Diagnostic.token?, blamed ends]
        rfl
      · intro unnamed
        have atEnd := unblamed.resolve_right unnamed
        exact ⟨atEnd, mentionsEnd_of_unblamed atEnd⟩

/-- The type name of a reference. -/
def cutWord : Token :=
  { kind := .word, text := "D", start := 21 }

/-- The tokens of `type A { B b = { c = D::e } }` up to the type name of the
reference. -/
def cutSeen : List Token :=
  [{ kind := .word, text := "type" }, { kind := .word, text := "A", start := 5 },
    { kind := .openBrace, text := "\x7b", start := 7 }, { kind := .word, text := "B", start := 9 },
    { kind := .word, text := "b", start := 11 }, { kind := .equals, text := "=", start := 13 },
    { kind := .openBrace, text := "\x7b", start := 15 }, { kind := .word, text := "c", start := 17 },
    { kind := .equals, text := "=", start := 19 }, cutWord]

/-- The tokens behind it. -/
def cutUnseen : List Token :=
  [{ kind := .scope, text := "::", start := 22 }, { kind := .word, text := "e", start := 24 },
    { kind := .closeBrace, text := "\x7d", start := 26 },
    { kind := .closeBrace, text := "\x7d", start := 28 }]

theorem exists_entered_cut : Exists fun definition => empty.Enters (cutSeen ++ cutUnseen) definition [] ∧
    EndsInName (DefinitionSurrounds definition) cutWord cutSeen cutUnseen := by
  have none : forall token, token ∈ ([] : List Token) -> token.kind = .comma := nofun
  have plain : ¬ IsTruthValue cutWord.text := by
    intro truth
    rcases truth with same | same <;> exact absurd same (by decide)
  have reference := @SpellsValue.reference cutWord { kind := .scope, text := "::", start := 22 }
    { kind := .word, text := "e", start := 24 } rfl plain rfl rfl
  have assigned := @Surrounds.assigned { kind := .word, text := "c", start := 17 }
    { kind := .equals, text := "=", start := 19 } _ _ _ _ _ rfl rfl reference.kind_ne_assignment .itself
  have listed := @Surrounds.listed { kind := .openBrace, text := "\x7b", start := 15 }
    { kind := .closeBrace, text := "\x7d", start := 26 } _ _ _ _ _ _ _ _ _ rfl .nil assigned
    (.trail none .nil) rfl
  have field := @FieldSurrounds.field { kind := .word, text := "B", start := 9 }
    { kind := .word, text := "b", start := 11 } { kind := .equals, text := "=", start := 13 } _ _ _ _ _ _ _
    rfl rfl .absent rfl (by exact nofun) listed
  have surrounds := @DefinitionSurrounds.type { kind := .word, text := "type" }
    { kind := .word, text := "A", start := 5 } { kind := .openBrace, text := "\x7b", start := 7 }
    { kind := .closeBrace, text := "\x7d", start := 28 } _ _ _ _ _ _ _ _ _ _ rfl rfl rfl .absent rfl .nil
    field (.trail none .nil) rfl
  have ends := EndsInName.name rfl plain (.value reference) surrounds
  refine ⟨_, enters_iff.mpr ⟨⟨_, (List.append_nil _).symm, surrounds.spells (.value reference), ?_⟩,
    List.not_mem_nil⟩, ends⟩
  constructor
  case foreign => exact nofun
  case distinct => simp
  case telling =>
    intro field member
    rcases List.mem_singleton.mp member with rfl
    exact Parser.isBlankName_eq_false_iff.mp (by decide)
  case uniform =>
    intro field member value isDefault
    rcases List.mem_singleton.mp member with rfl
    rcases Option.some.inj isDefault with rfl
    refine .compound ?_ ?_
    · intro left leftMember right rightMember
      rw [List.mem_singleton.mp leftMember, List.mem_singleton.mp rightMember]
    · intro child childMember
      rw [List.mem_singleton.mp childMember]
      exact .assignment (.reference _ _)

/-- Behind the type name of the reference, the name is taken for a value.  Before
it, the end of the tokens is to blame. -/
theorem step_truncated_cutWord :
    (Exists fun diagnostic => empty.Rejects cutSeen diagnostic [] ∧
      diagnostic.category = .syntactic ∧ diagnostic.token? = some cutWord) ∧
    Exists fun diagnostic => empty.Rejects cutSeen.dropLast diagnostic [] ∧
      diagnostic.category = .syntactic ∧ diagnostic.token? = none ∧
      MentionsEnd diagnostic.message ∧
      diagnostic.message =
        "type 'A': compound value: unexpected end of input after field assignment ('c =')" := by
  rcases exists_entered_cut with ⟨definition, entered, ends⟩
  constructor
  · rcases step_truncated entered (List.cons_ne_nil _ _) (List.cons_ne_nil _ _) with
      ⟨diagnostic, rejected, syntactic, blamed, _⟩
    exact ⟨diagnostic, rejected, syntactic, blamed cutWord ends⟩
  · have behindEquals : cutSeen.dropLast.getLast? =
        some { kind := .equals, text := "=", start := 19 } := rfl
    have ordinary : ¬ CutAtName (DefinitionSurrounds definition) cutSeen.dropLast
        (cutWord :: cutUnseen) := not_cutAtName_of_getLast? behindEquals (by decide)
    rcases @step_truncated empty cutSeen.dropLast (cutWord :: cutUnseen) definition entered
        (List.cons_ne_nil _ _) (List.cons_ne_nil _ _) with
      ⟨diagnostic, rejected, syntactic, _, unblamed⟩
    rcases unblamed ordinary with ⟨noToken, mentioned⟩
    refine ⟨diagnostic, rejected, syntactic, noToken, mentioned, ?_⟩
    have met : (empty.step cutSeen.dropLast).outcome =
        .error { context := [.definition .type { kind := .word, text := "A", start := 5 }, .compound],
                 cause := .assignmentMissing { kind := .word, text := "c", start := 17 } } := by
      decide +kernel
    rw [← Except.error.inj (met.symm.trans rejected.1)]
    decide +kernel

end Schema
end TypeSchema
