import TypeSchema.Proofs.Recognition.Value
import TypeSchema.Proofs.Listed

namespace TypeSchema
namespace Parser

open Grammar

/-!
# Definitions are read as the grammar spells them

What is asked of names is asked by the parser at different moments: of a
member when it is met, of the spelling of a field when its name is met, of the
novelty of a field when the field is complete.  Together these demands are the
admissibility of the finished definition.
-/

variable {α : Type}

/-! ## Names -/

theorem bytes_injective {left right : List Char} (same : Text.bytes left = Text.bytes right) :
    left = right := by
  have encoded : (String.ofList left).toByteArray = (String.ofList right).toByteArray := by
    have arrays := congrArg List.toByteArray same
    simpa only [String.toByteArray_ofList, List.utf8Encode, Text.bytes] using arrays
  have texts := congrArg String.toList (String.toByteArray_inj.mp encoded)
  simpa only [String.toList_ofList] using texts

/-- Only underscores are encoded by bytes that are all underscores. -/
theorem eq_replicate_of_bytes {chars : List Char}
    (all : forall byte, byte ∈ Text.bytes chars -> byte = '_'.toUInt8) :
    chars = List.replicate (Text.bytes chars).length '_' := by
  apply bytes_injective
  have single : String.utf8EncodeChar '_' = ['_'.toUInt8] := by decide
  calc
    Text.bytes chars = List.replicate (Text.bytes chars).length '_'.toUInt8 :=
      List.eq_replicate_of_mem all
    _ = Text.bytes (List.replicate (Text.bytes chars).length '_') := by
      simp [Text.bytes, List.flatMap_replicate, single]

theorem isBlankName_eq_false_iff {text : String} : isBlankName text = false <-> IsTelling text := by
  rw [isBlankName, Bool.eq_false_iff, ne_eq, List.all_eq_true]
  constructor
  · intro notBlank
    apply Classical.byContradiction
    intro silent
    have all : forall byte, byte ∈ Text.bytes text.toList -> byte = '_'.toUInt8 := by
      intro byte member
      exact Classical.byContradiction fun other => silent ⟨byte, member, other⟩
    apply notBlank
    intro c member
    rw [eq_replicate_of_bytes all] at member
    exact beq_iff_eq.mpr (List.eq_of_mem_replicate member)
  · intro telling blank
    rcases telling with ⟨byte, member, other⟩
    rcases List.mem_flatMap.mp member with ⟨c, inside, encoded⟩
    have same : c = '_' := beq_iff_eq.mp (blank c inside)
    subst same
    exact other (List.mem_singleton.mp encoded)

/-- No item read before has the same name. -/
def Novel (name : α -> String) (earlier : List α) (value : α) : Prop :=
  forall other, other ∈ earlier -> name other ≠ name value

theorem any_name_eq_false_iff {name : α -> String} {earlier : List α} {value : α} :
    (earlier.any fun other => name other == name value) = false <-> Novel name earlier value := by
  simp [Novel]

/-- Items are novel one after another exactly if their names are distinct. -/
theorem admitsAll_novel_iff {name : α -> String} {demand : α -> Prop} {earlier values : List α} :
    AdmitsAll (fun earlier value => Novel name earlier value ∧ demand value) earlier values <->
      (values.map name).Nodup ∧ (forall value, value ∈ values -> Novel name earlier value) ∧
        forall value, value ∈ values -> demand value := by
  induction values generalizing earlier with
  | nil => simp [AdmitsAll]
  | cons value values ih =>
      simp only [AdmitsAll, ih, List.map_cons, List.nodup_cons, List.mem_map, List.forall_mem_cons]
      constructor
      · intro given
        rcases given with ⟨⟨novel, demanded⟩, distinct, laterNovel, laterDemanded⟩
        refine ⟨⟨?_, distinct⟩, ⟨novel, ?_⟩, demanded, laterDemanded⟩
        · intro given
          rcases given with ⟨other, member, same⟩
          exact laterNovel other member value (by simp) same.symm
        · intro other member before inside
          exact laterNovel other member before (List.mem_append_left _ inside)
      · intro given
        rcases given with ⟨⟨absent, distinct⟩, ⟨novel, laterNovel⟩, demanded, laterDemanded⟩
        refine ⟨⟨novel, demanded⟩, distinct, ?_, laterDemanded⟩
        intro other member before inside
        rcases List.mem_append.mp inside with earlierMember | isValue
        · exact laterNovel other member before earlierMember
        · rw [List.mem_singleton.mp isValue]
          exact fun same => absent ⟨other, member, same.symm⟩

/-! ## Enums -/

theorem reads_listedMember_iff {enumName first member : Token} {earlier tokens rest : List Token} :
    (listedMember enumName earlier first).Reads tokens member rest <->
      (member = first ∧ rest = tokens) ∧ first.kind = .word ∧
        Novel Token.text earlier first ∧ IsTelling first.text := by
  rw [listedMember, ← isBlankName_eq_false_iff, ← any_name_eq_false_iff]
  split
  · next noWord =>
      rw [reads_fail_iff, false_iff]
      intro given
      rcases given with ⟨_, word, _⟩
      simp [Token.is, word] at noWord
  · next isWord =>
      have word : first.kind = .word := by simpa [Token.is] using isWord
      split
      · next known => simp [known]
      · next unknown =>
          split
          · next blank => simp [blank]
          · next telling =>
              rw [reads_bind_iff]
              constructor
              · intro given
                rcases given with ⟨_, _, emitted, made⟩
                rcases reads_emit_iff.mp emitted with rfl
                exact ⟨reads_pure_iff.mp made, word, Bool.eq_false_iff.mpr unknown,
                  Bool.eq_false_iff.mpr telling⟩
              · intro given
                rcases given with ⟨made, _⟩
                exact ⟨(), tokens, reads_emit_iff.mpr rfl, reads_pure_iff.mpr made⟩

theorem listedMember_follows (enumName : Token) (bound : Nat) :
    Follows (listedMember enumName) SpellsMember
      (fun earlier member => Novel Token.text earlier member ∧ IsTelling member.text) bound where
  begins := SpellsMember.begins
  sound := by
    intro earlier first tokens member rest _ read
    rcases reads_listedMember_iff.mp read with ⟨⟨rfl, rfl⟩, word, admitted⟩
    exact ⟨[], rfl, .member word, admitted⟩
  complete := by
    intro earlier first taken member rest _ spelled admitted _
    cases spelled with
    | member word => exact reads_listedMember_iff.mpr ⟨⟨rfl, rfl⟩, word, admitted⟩

theorem admissible_enum_iff {definition : EnumDefinition} :
    definition.Admissible <->
      AdmitsAll (fun earlier member => Novel Token.text earlier member ∧ IsTelling member.text) []
        definition.members := by
  rw [admitsAll_novel_iff]
  constructor
  · intro admissible
    exact ⟨admissible.distinct, fun _ _ _ impossible => absurd impossible List.not_mem_nil,
      admissible.telling⟩
  · intro given
    rcases given with ⟨distinct, _, telling⟩
    exact ⟨distinct, telling⟩

theorem reads_enumDefinition_iff {keyword : Token} (word : keyword.kind = .word)
    (spelling : keyword.text = "enum") {tokens rest : List Token} {definition : Definition} :
    (enumDefinition keyword).Reads tokens definition rest <->
      Exists fun taken => tokens = taken ++ rest ∧ SpellsDefinition (keyword :: taken) definition ∧
        definition.Admissible := by
  simp only [enumDefinition_eq, reads_bind_iff, reads_within_iff]
  constructor
  · intro given
    rcases given with ⟨enumName, _, named, opening, _, opened, ⟨members, closing⟩, _, listRead, made⟩
    rcases reads_name_iff.mp named with ⟨nameWord, rfl⟩
    rcases reads_openBrace_iff.mp opened with ⟨opens, rfl⟩
    rcases (reads_braced_iff (listedMember_follows enumName _) (Nat.le_refl _)).mp listRead with
      ⟨body, rfl, closes, listing, admitted⟩
    simp only at made
    split at made
    · exact (reads_fail_iff.mp made).elim
    · next notEmpty =>
        rcases reads_pure_iff.mp made with ⟨rfl, rfl⟩
        refine ⟨enumName :: opening :: (body ++ [closing]), by simp, ?_,
          admissible_enum_iff.mpr admitted⟩
        exact .enum word spelling nameWord opens listing
          (fun empty => notEmpty (List.isEmpty_iff.mpr empty)) closes
  · intro given
    rcases given with ⟨taken, rfl, spelled, admissible⟩
    cases spelled with
    | @enum _ enumName opening closing body members _ _ nameWord opens listing present closes =>
        refine ⟨enumName, _, reads_name_iff.mpr ⟨nameWord, rfl⟩, opening, _,
          reads_openBrace_iff.mpr ⟨opens, rfl⟩, (members, closing), rest, ?_, ?_⟩
        · exact (reads_braced_iff (listedMember_follows enumName _) (Nat.le_refl _)).mpr
            ⟨body, by simp, closes, listing, admissible_enum_iff.mp admissible⟩
        · simp only [List.isEmpty_iff, if_neg present]
          exact reads_pure_iff.mpr ⟨rfl, rfl⟩
    | type _ otherSpelling => exact absurd (spelling.symm.trans otherSpelling) (by decide)

/-! ## Types -/

theorem arrayMark_sound {tokens rest : List Token} {isArray : Bool}
    (read : arrayMark.Reads tokens isArray rest) :
    Exists fun mark => tokens = mark ++ rest ∧ SpellsArrayMark mark isArray := by
  rcases reads_bind_iff.mp read with ⟨found, behind, ahead, later⟩
  rcases reads_nextIf?_iff.mp ahead with ⟨opening, rfl, opens, rfl⟩ | ⟨rfl, rfl, _⟩
  · rcases reads_bind_iff.mp later with ⟨closed, left, aheadAgain, made⟩
    rcases reads_nextIf?_iff.mp aheadAgain with ⟨closing, rfl, closes, rfl⟩ | ⟨rfl, rfl, _⟩
    · rcases reads_pure_iff.mp made with ⟨rfl, rfl⟩
      exact ⟨[opening, closing], rfl, .present opens closes⟩
    · rcases reads_bind_iff.mp made with ⟨front, _, _, failed⟩
      cases front with
      | none => exact (reads_fail_iff.mp failed).elim
      | some token => exact (reads_fail_iff.mp failed).elim
  · rcases reads_pure_iff.mp later with ⟨rfl, rfl⟩
    exact ⟨[], rfl, .absent⟩

theorem arrayMark_complete {mark rest : List Token} {isArray : Bool}
    (spelled : SpellsArrayMark mark isArray) (stops : Stops .openBracket rest) :
    arrayMark.Reads (mark ++ rest) isArray rest := by
  cases spelled with
  | absent =>
      exact reads_bind_iff.mpr ⟨none, rest, reads_nextIf?_iff.mpr (Or.inr ⟨rfl, rfl, stops⟩),
        reads_pure_iff.mpr ⟨rfl, rfl⟩⟩
  | @present opening closing opens closes =>
      refine reads_bind_iff.mpr ⟨some opening, closing :: rest,
        reads_nextIf?_iff.mpr (Or.inl ⟨opening, rfl, opens, rfl⟩), ?_⟩
      exact reads_bind_iff.mpr ⟨some closing, rest,
        reads_nextIf?_iff.mpr (Or.inl ⟨closing, rfl, closes, rfl⟩), reads_pure_iff.mpr ⟨rfl, rfl⟩⟩

/-- The default value of a field, if there is one, agrees in kind throughout. -/
def UniformDefault (initial : Option Value) : Prop :=
  forall value, value ∈ initial -> value.Uniform

theorem defaultValue_sound {fieldName : Token} {tokens rest : List Token} {initial : Option Value}
    (read : (defaultValue fieldName).Reads tokens initial rest) :
    Exists fun taken => tokens = taken ++ rest ∧ SpellsDefault taken initial ∧
      UniformDefault initial := by
  rcases reads_bind_iff.mp read with ⟨found, behind, ahead, later⟩
  rcases reads_nextIf?_iff.mp ahead with ⟨equals, rfl, kind, rfl⟩ | ⟨rfl, rfl, _⟩
  · rcases reads_bind_iff.mp later with ⟨first, left, taking, made⟩
    rcases reads_next?_iff.mp taking with ⟨rfl, rfl⟩
    cases behind with
    | nil => exact (reads_fail_iff.mp made).elim
    | cons first behind =>
        rcases reads_bind_iff.mp made with ⟨value, _, valueRead, finished⟩
        rcases reads_pure_iff.mp finished with ⟨rfl, rfl⟩
        rcases reads_value_iff.mp valueRead with ⟨taken, split, spelled, uniform⟩
        rw [List.tail_cons] at split
        refine ⟨equals :: first :: taken, by rw [split]; rfl, .present kind spelled, ?_⟩
        intro other same
        exact Option.some.inj same ▸ uniform
  · rcases reads_pure_iff.mp later with ⟨rfl, rfl⟩
    exact ⟨[], rfl, .absent, fun _ impossible => by cases impossible⟩

theorem defaultValue_complete {fieldName : Token} {taken rest : List Token}
    {initial : Option Value} (spelled : SpellsDefault taken initial)
    (uniform : UniformDefault initial) (stops : Stops .equals rest) :
    (defaultValue fieldName).Reads (taken ++ rest) initial rest := by
  cases spelled with
  | absent =>
      exact reads_bind_iff.mpr ⟨none, rest, reads_nextIf?_iff.mpr (Or.inr ⟨rfl, rfl, stops⟩),
        reads_pure_iff.mpr ⟨rfl, rfl⟩⟩
  | @present equals inner value kind spelled =>
      rcases spelled.begins with ⟨first, behind, rfl, _⟩
      refine reads_bind_iff.mpr ⟨some equals, first :: (behind ++ rest),
        reads_nextIf?_iff.mpr (Or.inl ⟨equals, rfl, kind, rfl⟩), ?_⟩
      refine reads_bind_iff.mpr ⟨some first, behind ++ rest, reads_next?_iff.mpr ⟨rfl, rfl⟩, ?_⟩
      exact reads_bind_iff.mpr ⟨value, rest,
        reads_value_iff.mpr ⟨behind, rfl, spelled, uniform value rfl⟩,
        reads_pure_iff.mpr ⟨rfl, rfl⟩⟩

theorem field_sound {first : Token} {tokens rest : List Token} {read : Field}
    (reads : (field first).Reads tokens read rest) :
    Exists fun taken => tokens = taken ++ rest ∧ SpellsField (first :: taken) read ∧
      IsTelling read.name.text ∧ UniformDefault read.defaultValue := by
  rw [field] at reads
  split at reads
  · exact (reads_fail_iff.mp reads).elim
  · next isWord =>
      rcases reads_bind_iff.mp reads with ⟨fieldName, _, named, later⟩
      rcases reads_name_iff.mp named with ⟨nameWord, rfl⟩
      split at later
      · exact (reads_fail_iff.mp later).elim
      · next notBlank =>
          rcases reads_bind_iff.mp later with ⟨isArray, _, marked, behindMark⟩
          rcases reads_bind_iff.mp behindMark with ⟨defaultRead, _, initialised, made⟩
          rcases reads_pure_iff.mp made with ⟨rfl, rfl⟩
          rcases arrayMark_sound marked with ⟨mark, rfl, markSpelled⟩
          rcases defaultValue_sound initialised with ⟨initial, rfl, initialSpelled, uniform⟩
          have word : first.kind = .word := by simpa [Token.is] using isWord
          exact ⟨fieldName :: (mark ++ initial), by simp,
            .field word nameWord markSpelled initialSpelled,
            isBlankName_eq_false_iff.mp (Bool.eq_false_iff.mpr notBlank), uniform⟩

theorem field_complete {first : Token} {taken rest : List Token} {read : Field}
    (spelled : SpellsField (first :: taken) read) (telling : IsTelling read.name.text)
    (uniform : UniformDefault read.defaultValue) (apart : Apart rest) :
    (field first).Reads (taken ++ rest) read rest := by
  cases spelled with
  | @field _ fieldName mark initial isArray defaultRead word nameWord markSpelled initialSpelled =>
      have notBlank : ¬ isBlankName fieldName.text = true :=
        Bool.eq_false_iff.mp (isBlankName_eq_false_iff.mpr telling)
      have noBracket : Stops .openBracket (initial ++ rest) := by
        cases initialSpelled with
        | absent => exact apart.2
        | present kind _ => exact stops_cons (by simp [kind])
      rw [field, if_neg (by simp [Token.is, word])]
      refine reads_bind_iff.mpr ⟨fieldName, mark ++ (initial ++ rest),
        reads_name_iff.mpr ⟨nameWord, by simp⟩, ?_⟩
      rw [if_neg notBlank]
      refine reads_bind_iff.mpr ⟨isArray, initial ++ rest,
        arrayMark_complete markSpelled noBracket, ?_⟩
      exact reads_bind_iff.mpr ⟨defaultRead, rest,
        defaultValue_complete initialSpelled uniform apart.1, reads_pure_iff.mpr ⟨rfl, rfl⟩⟩

/-- What is asked of a field of a type and the fields before it. -/
def AdmitsField (earlier : List Field) (field : Field) : Prop :=
  Novel (fun field => field.name.text) earlier field ∧
    IsTelling field.name.text ∧ UniformDefault field.defaultValue

theorem reads_listedField_iff {typeName first : Token} {earlier : List Field}
    {tokens rest : List Token} {read : Field} :
    (listedField typeName earlier first).Reads tokens read rest <->
      (field first).Reads tokens read rest ∧ Novel (fun field => field.name.text) earlier read := by
  rw [listedField, reads_bind_iff, ← any_name_eq_false_iff]
  constructor
  · intro given
    rcases given with ⟨found, behind, fieldRead, later⟩
    split at later
    · exact (reads_fail_iff.mp later).elim
    · next unknown =>
        rcases reads_bind_iff.mp later with ⟨_, _, emitted, made⟩
        rcases reads_emit_iff.mp emitted with rfl
        rcases reads_pure_iff.mp made with ⟨rfl, rfl⟩
        exact ⟨fieldRead, Bool.eq_false_iff.mpr unknown⟩
  · intro given
    rcases given with ⟨fieldRead, unknown⟩
    refine ⟨read, rest, fieldRead, ?_⟩
    rw [if_neg (Bool.eq_false_iff.mp unknown)]
    exact reads_bind_iff.mpr ⟨(), rest, reads_emit_iff.mpr rfl, reads_pure_iff.mpr ⟨rfl, rfl⟩⟩

theorem listedField_follows (typeName : Token) (bound : Nat) :
    Follows (listedField typeName) SpellsField AdmitsField bound where
  begins := SpellsField.begins
  sound := by
    intro earlier first tokens read rest _ reads
    rcases reads_listedField_iff.mp reads with ⟨fieldRead, novel⟩
    rcases field_sound fieldRead with ⟨taken, split, spelled, telling, uniform⟩
    exact ⟨taken, split, spelled, novel, telling, uniform⟩
  complete := by
    intro earlier first taken read rest _ spelled admitted apart
    exact reads_listedField_iff.mpr
      ⟨field_complete spelled admitted.2.1 admitted.2.2 apart, admitted.1⟩

/-- A parent is read where a colon announces it; otherwise the body must
follow. -/
theorem reads_parent_iff {typeName : Token} {tokens rest : List Token} {found : Option Token} :
    (parent typeName).Reads tokens found rest <->
      (Exists fun ancestry => tokens = ancestry ++ rest ∧ SpellsParent ancestry found ∧
        (forall parent, parent ∈ found -> parent.text ≠ typeName.text)) ∧
        (found = none -> Exists fun token => token ∈ rest.head? ∧ token.kind = .openBrace) := by
  rw [parent, reads_bind_iff]
  constructor
  · intro given
    rcases given with ⟨announced, behind, ahead, later⟩
    rcases reads_nextIf?_iff.mp ahead with ⟨colon, rfl, kind, rfl⟩ | ⟨rfl, rfl, _⟩
    · rcases reads_bind_iff.mp later with ⟨parentName, _, named, made⟩
      rcases reads_name_iff.mp named with ⟨word, rfl⟩
      split at made
      · exact (reads_fail_iff.mp made).elim
      · next foreign =>
          rcases reads_pure_iff.mp made with ⟨rfl, rfl⟩
          refine ⟨⟨[colon, parentName], rfl, .present kind word, ?_⟩, fun impossible => by cases impossible⟩
          intro other same
          exact Option.some.inj same ▸ foreign
    · rcases reads_bind_iff.mp later with ⟨front, _, looked, made⟩
      rcases reads_front?_iff.mp looked with ⟨rfl, rfl⟩
      split at made
      · next token ahead =>
          split at made
          · next opens =>
              rcases reads_pure_iff.mp made with ⟨rfl, rfl⟩
              exact ⟨⟨[], rfl, .absent, fun _ impossible => by cases impossible⟩,
                fun _ => ⟨token, ahead, (token.is_iff _).mp opens⟩⟩
          · exact (reads_fail_iff.mp made).elim
      · exact (reads_fail_iff.mp made).elim
  · intro given
    rcases given with ⟨⟨ancestry, rfl, spelled, foreign⟩, body⟩
    cases spelled with
    | absent =>
        rcases body rfl with ⟨token, ahead, opens⟩
        have noColon : Stops .colon rest := by
          intro other same
          rw [Option.mem_unique same ahead, opens]
          decide
        refine ⟨none, rest, reads_nextIf?_iff.mpr (Or.inr ⟨rfl, rfl, noColon⟩), ?_⟩
        refine reads_bind_iff.mpr ⟨some token, rest, reads_front?_iff.mpr ⟨ahead.symm, rfl⟩, ?_⟩
        simp only [(token.is_iff .openBrace).mpr opens, if_true]
        exact reads_pure_iff.mpr ⟨rfl, rfl⟩
    | @present colon parentName kind word =>
        refine ⟨some colon, parentName :: rest,
          reads_nextIf?_iff.mpr (Or.inl ⟨colon, rfl, kind, rfl⟩), ?_⟩
        refine reads_bind_iff.mpr ⟨parentName, rest, reads_name_iff.mpr ⟨word, rfl⟩, ?_⟩
        rw [if_neg (foreign parentName rfl)]
        exact reads_pure_iff.mpr ⟨rfl, rfl⟩

theorem admissible_type_iff {definition : TypeDefinition} :
    definition.Admissible <->
      (forall parent, parent ∈ definition.parent -> parent.text ≠ definition.name.text) ∧
        AdmitsAll AdmitsField [] definition.fields := by
  have demands : AdmitsAll AdmitsField [] definition.fields <->
      (definition.fields.map fun field => field.name.text).Nodup ∧
        (forall field, field ∈ definition.fields -> Novel (fun field => field.name.text) [] field) ∧
        forall field, field ∈ definition.fields ->
          IsTelling field.name.text ∧ UniformDefault field.defaultValue :=
    admitsAll_novel_iff
  rw [demands]
  constructor
  · intro admissible
    exact ⟨admissible.foreign, admissible.distinct,
      fun _ _ _ impossible => absurd impossible List.not_mem_nil,
      fun field member => ⟨admissible.telling field member, admissible.uniform field member⟩⟩
  · intro given
    rcases given with ⟨foreign, distinct, _, demanded⟩
    exact ⟨foreign, distinct, fun field member => (demanded field member).1,
      fun field member => (demanded field member).2⟩

theorem reads_typeDefinition_iff {keyword : Token} (word : keyword.kind = .word)
    (spelling : keyword.text = "type") {tokens rest : List Token} {definition : Definition} :
    (typeDefinition keyword).Reads tokens definition rest <->
      Exists fun taken => tokens = taken ++ rest ∧ SpellsDefinition (keyword :: taken) definition ∧
        definition.Admissible := by
  simp only [typeDefinition_eq, reads_bind_iff, reads_within_iff]
  constructor
  · rintro ⟨typeName, _, named, parentName, _, parentRead, opening, _, opened,
      ⟨fields, closing⟩, _, listRead, made⟩
    rcases reads_name_iff.mp named with ⟨nameWord, rfl⟩
    rcases reads_parent_iff.mp parentRead with ⟨⟨ancestry, rfl, parentSpelled, foreign⟩, _⟩
    rcases reads_openBrace_iff.mp opened with ⟨opens, rfl⟩
    rcases (reads_braced_iff (listedField_follows typeName _) (Nat.le_refl _)).mp listRead with
      ⟨body, rfl, closes, listing, admitted⟩
    rcases reads_pure_iff.mp made with ⟨rfl, rfl⟩
    exact ⟨typeName :: (ancestry ++ opening :: (body ++ [closing])), by simp,
      .type word spelling nameWord parentSpelled opens listing closes,
      admissible_type_iff.mpr ⟨foreign, admitted⟩⟩
  · intro given
    rcases given with ⟨taken, rfl, spelled, admissible⟩
    cases spelled with
    | enum _ otherSpelling => exact absurd (spelling.symm.trans otherSpelling) (by decide)
    | @type _ typeName opening closing ancestry body parentName fields _ _ nameWord parentSpelled
        opens listing closes =>
        rcases admissible_type_iff.mp admissible with ⟨foreign, admitted⟩
        refine ⟨typeName, _, reads_name_iff.mpr ⟨nameWord, rfl⟩, parentName,
          opening :: (body ++ closing :: rest), ?_, opening, _,
          reads_openBrace_iff.mpr ⟨opens, rfl⟩, (fields, closing), rest, ?_,
          reads_pure_iff.mpr ⟨rfl, rfl⟩⟩
        · exact reads_parent_iff.mpr ⟨⟨ancestry, by simp, parentSpelled, foreign⟩,
            fun _ => ⟨opening, rfl, opens⟩⟩
        · exact (reads_braced_iff (listedField_follows typeName _) (Nat.le_refl _)).mpr
            ⟨body, rfl, closes, listing, admitted⟩

/-! ## Definitions -/

theorem ofToken?_eq_some_iff {token : Token} {keyword : Keyword} :
    Keyword.ofToken? token = some keyword <-> token.kind = .word ∧ token.text = keyword.text := by
  simp only [Keyword.ofToken?, Token.isWord_iff]
  cases keyword with
  | enum =>
      split
      · next found => simpa [Keyword.text] using found
      · split <;> simp_all [Keyword.text]
  | type =>
      split
      · next found => simp [Keyword.text, found]
      · split <;> simp_all [Keyword.text]

theorem ofToken?_of_spelled {first : Token} {taken : List Token} {definition : Definition}
    (spelled : SpellsDefinition (first :: taken) definition) :
    Keyword.ofToken? first = some definition.keyword := by
  cases spelled with
  | enum word spelling => exact ofToken?_eq_some_iff.mpr ⟨word, spelling⟩
  | type word spelling => exact ofToken?_eq_some_iff.mpr ⟨word, spelling⟩

/-- A definition is read exactly if the grammar spells it and it is
admissible. -/
theorem reads_definition_iff {first : Token} {tokens rest : List Token} {read : Definition} :
    (Parser.definition first).Reads tokens read rest <->
      Exists fun taken => tokens = taken ++ rest ∧ SpellsDefinition (first :: taken) read ∧
        read.Admissible := by
  rw [Parser.definition]
  split
  · next found =>
      rcases ofToken?_eq_some_iff.mp found with ⟨word, spelling⟩
      exact reads_enumDefinition_iff word spelling
  · next found =>
      rcases ofToken?_eq_some_iff.mp found with ⟨word, spelling⟩
      exact reads_typeDefinition_iff word spelling
  · next missing =>
      have unspelled : forall taken, ¬ SpellsDefinition (first :: taken) read := by
        intro taken spelled
        rw [ofToken?_of_spelled spelled] at missing
        cases missing
      split <;> simp [unspelled]

end Parser
end TypeSchema
