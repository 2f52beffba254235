import TypeSchema.Proofs.Failing
import TypeSchema.Proofs.Recognition.Definition
import TypeSchema.Schema

namespace TypeSchema
namespace Schema

open Grammar

/-!
# The language of a step

A step reads the longest definition at the front of the tokens, and there is
only one to choose from: a definition ends with the brace that closes its body.
What a step accepts is thus a set of lists of tokens, given by the grammar and
the demands on names and values, and the step tells exactly these lists apart
from all others.
-/

-- Outcomes can be compared, so that steps on given tokens can be decided.
deriving instance DecidableEq for Except

/-! ## Names and their index -/

/-- The index of a schema follows from the definitions. -/
theorem ext_definitions {left right : Schema} (same : left.definitions = right.definitions) :
    left = right := by
  rcases left with ⟨_, _, rfl⟩
  rcases right with ⟨_, _, rfl⟩
  cases same
  rfl

theorem push_eq (schema : Schema) (definition : Definition) :
    schema.push definition = { definitions := schema.definitions ++ [definition] } :=
  ext_definitions rfl

theorem contains_iff {schema : Schema} {name : String} :
    schema.index.contains name = true <-> name ∈ schema.names := by
  rw [Index.contains, Option.isSome_iff_ne_none, schema.indexed, ne_eq, Index.find?_of_eq_none_iff,
    not_not, names]

theorem find?_eq_none_iff {schema : Schema} {name : String} :
    schema.find? name = none <-> name ∉ schema.names := by
  rw [find?, schema.indexed, Index.item?_of_eq_none_iff, names]

theorem define_of_new {schema : Schema} {definition : Definition}
    (isNew : definition.name.text ∉ schema.names) :
    schema.define definition = .ok { definitions := schema.definitions ++ [definition] } := by
  rw [define, if_neg (mt contains_iff.mp isNew), push_eq]

theorem define_of_known {schema : Schema} {definition : Definition}
    (known : definition.name.text ∈ schema.names) :
    schema.define definition = .error { cause := .duplicateDefinition definition.name } := by
  rw [define, if_pos (contains_iff.mpr known)]

theorem define_eq_ok_iff {schema extended : Schema} {definition : Definition} :
    schema.define definition = .ok extended <->
      definition.name.text ∉ schema.names ∧
        extended = { definitions := schema.definitions ++ [definition] } := by
  by_cases known : definition.name.text ∈ schema.names
  · rw [define_of_known known]
    exact ⟨nofun, fun isNew => absurd known isNew.1⟩
  · rw [define_of_new known, Except.ok.injEq, eq_comm, and_iff_right known]

theorem define_eq_error_iff {schema : Schema} {definition : Definition} {diagnostic : Diagnostic} :
    schema.define definition = .error diagnostic <->
      definition.name.text ∈ schema.names ∧
        diagnostic = { cause := .duplicateDefinition definition.name } := by
  by_cases known : definition.name.text ∈ schema.names
  · rw [define_of_known known, Except.error.injEq, eq_comm, and_iff_right known]
  · rw [define_of_new known]
    exact ⟨nofun, fun isKnown => absurd isKnown.1 known⟩

/-! ## Steps -/

/-- The step enters this definition and leaves this rest. -/
def Enters (schema : Schema) (tokens : List Token) (definition : Definition) (rest : List Token) :
    Prop :=
  (schema.step tokens).outcome = .ok (some definition.name.text) ∧
    (schema.step tokens).schema = { definitions := schema.definitions ++ [definition] } ∧
    (schema.step tokens).rest = rest

theorem step_suffix (schema : Schema) (tokens : List Token) :
    (schema.step tokens).rest <:+ tokens := by
  cases tokens with
  | nil => exact List.suffix_refl _
  | cons first behind => exact (schema.step_cons_suffix first behind).trans (List.suffix_cons ..)

/-- A step that fails leaves the schema as it was. -/
theorem step_schema_of_error {schema : Schema} {tokens : List Token} {diagnostic : Diagnostic}
    (failed : (schema.step tokens).outcome = .error diagnostic) :
    (schema.step tokens).schema = schema := by
  cases tokens with
  | nil => rfl
  | cons first behind =>
      simp only [step] at failed ⊢
      split
      · rfl
      · split
        · rfl
        · simp_all

/-- A step that succeeds on a token has read a definition whose name is new. -/
theorem step_cons_success {schema : Schema} {first : Token} {behind : List Token}
    {name : Option String} (success : (schema.step (first :: behind)).outcome = .ok name) :
    Exists fun definition => name = some definition.name.text ∧
      schema.Enters (first :: behind) definition (schema.step (first :: behind)).rest ∧
      (Parser.definition first).Reads behind definition (schema.step (first :: behind)).rest ∧
      definition.name.text ∉ schema.names := by
  simp only [Enters, step] at success ⊢
  split at success
  · simp at success
  · next definition read =>
      split at success
      · simp at success
      · next extended defined =>
          rcases define_eq_ok_iff.mp defined with ⟨isNew, grown⟩
          refine ⟨definition, (Except.ok.inj success).symm, ?_, ⟨read, rfl⟩, isNew⟩
          exact ⟨rfl, grown, trivial⟩

theorem enters_of_success {schema : Schema} {tokens : List Token} {name : String}
    (success : (schema.step tokens).outcome = .ok (some name)) :
    Exists fun definition => schema.Enters tokens definition (schema.step tokens).rest := by
  cases tokens with
  | nil => simp [step] at success
  | cons first behind =>
      rcases step_cons_success success with ⟨definition, _, entered, _⟩
      exact ⟨definition, entered⟩

/-- A step leaves the schema as it was, or it enters a definition. -/
theorem step_schema_cases (schema : Schema) (tokens : List Token) :
    (schema.step tokens).schema = schema ∨
      Exists fun definition => schema.Enters tokens definition (schema.step tokens).rest := by
  cases tokens with
  | nil => exact Or.inl rfl
  | cons first behind =>
      cases outcome : (schema.step (first :: behind)).outcome with
      | error diagnostic => exact Or.inl (step_schema_of_error outcome)
      | ok name =>
          rcases step_cons_success outcome with ⟨definition, _, entered, _⟩
          exact Or.inr ⟨definition, entered⟩

theorem enters_of_reads {schema : Schema} {first : Token} {behind rest : List Token}
    {definition : Definition} (read : (Parser.definition first).Reads behind definition rest)
    (isNew : definition.name.text ∉ schema.names) :
    schema.Enters (first :: behind) definition rest := by
  simp [Enters, step, define_of_new isNew, read.1, read.2]

/-- A step enters a definition exactly if the tokens begin with it, it is
admissible, and its name is new. -/
theorem enters_iff {schema : Schema} {tokens rest : List Token} {definition : Definition} :
    schema.Enters tokens definition rest <->
      (Exists fun taken => tokens = taken ++ rest ∧ SpellsDefinition taken definition ∧
        definition.Admissible) ∧ definition.name.text ∉ schema.names := by
  constructor
  · intro entered
    cases tokens with
    | nil => simp [Enters, step] at entered
    | cons first behind =>
        rcases step_cons_success entered.1 with ⟨read, _, enteredRead, reads, isNew⟩
        have same : read = definition := by
          have schemas := congrArg definitions (enteredRead.2.1.symm.trans entered.2.1)
          simpa using schemas
        rw [entered.2.2] at reads
        subst same
        rcases Parser.reads_definition_iff.mp reads with ⟨taken, split, spelled, admissible⟩
        exact ⟨⟨first :: taken, by rw [split, List.cons_append], spelled, admissible⟩, isNew⟩
  · intro parts
    rcases parts with ⟨⟨taken, rfl, spelled, admissible⟩, isNew⟩
    rcases spelled.begins with ⟨first, behind, rfl⟩
    exact enters_of_reads (Parser.reads_definition_iff.mpr ⟨behind, rfl, spelled, admissible⟩) isNew

/-- The step fails for this reason and leaves this rest, and the schema is as it
was. -/
def Rejects (schema : Schema) (tokens : List Token) (diagnostic : Diagnostic)
    (rest : List Token) : Prop :=
  (schema.step tokens).outcome = .error diagnostic ∧ (schema.step tokens).schema = schema ∧
    (schema.step tokens).rest = rest

theorem rejects_of_error {schema : Schema} {tokens : List Token} {diagnostic : Diagnostic}
    (failed : (schema.step tokens).outcome = .error diagnostic) :
    schema.Rejects tokens diagnostic (schema.step tokens).rest :=
  ⟨failed, step_schema_of_error failed, rfl⟩

/-- A step rejects the tokens if no definition is read from them, or if the name
of the definition is taken. -/
theorem rejects_iff {schema : Schema} {tokens rest : List Token} {diagnostic : Diagnostic} :
    schema.Rejects tokens diagnostic rest <->
      Exists fun first => Exists fun behind => tokens = first :: behind ∧
        ((Parser.definition first).Fails behind diagnostic rest ∨
          Exists fun definition => (Parser.definition first).Reads behind definition rest ∧
            definition.name.text ∈ schema.names ∧
            diagnostic = { cause := .duplicateDefinition definition.name }) := by
  cases tokens with
  | nil => simp [Rejects, step]
  | cons first behind =>
      constructor
      · intro rejected
        refine ⟨first, behind, rfl, ?_⟩
        rcases rejected with ⟨failed, _, left⟩
        simp only [step] at failed left
        split at failed
        · next other parserFailed =>
            simp only [parserFailed] at left
            exact Or.inl ⟨parserFailed.trans (congrArg _ (Except.error.inj failed)), left⟩
        · next definition read =>
            split at failed
            · next other refused =>
                simp only [read, refused] at left
                rcases define_eq_error_iff.mp refused with ⟨known, same⟩
                exact Or.inr ⟨definition, ⟨read, left⟩, known, Except.error.inj failed ▸ same⟩
            · cases failed
      · intro parts
        rcases parts with ⟨_, _, whole, outcome⟩
        rcases List.cons.inj whole with ⟨rfl, rfl⟩
        have failed : (schema.step (first :: behind)).outcome = .error diagnostic ∧
            (schema.step (first :: behind)).rest = rest := by
          rcases outcome with ⟨parserFailed, left⟩ | ⟨definition, ⟨read, left⟩, known, rfl⟩
          · simp only [step, parserFailed]
            exact ⟨trivial, left⟩
          · simp only [step, read, define_of_known known]
            exact ⟨trivial, left⟩
        exact ⟨failed.1, step_schema_of_error failed.1, failed.2⟩

/-- The tokens spell a definition that is as it has to be. -/
def IsDefinition (taken : List Token) : Prop :=
  Exists fun definition => SpellsDefinition taken definition ∧ definition.Admissible

theorem name_of_spelled {taken : List Token} {definition : Definition}
    (spelled : SpellsDefinition taken definition) : taken[1]? = some definition.name := by
  cases spelled <;> rfl

/-- From the empty schema a step succeeds exactly on the lists that begin with
a definition.  It leaves what stands behind the definition and reports the
spelling of its second token; and no list begins with two definitions. -/
theorem step_empty_exact (tokens : List Token) :
    (forall name rest,
      (empty.step tokens).outcome = .ok (some name) ∧ (empty.step tokens).rest = rest <->
        Exists fun taken => tokens = taken ++ rest ∧ IsDefinition taken ∧
          taken[1]?.map Token.text = some name) ∧
      forall taken rest otherTaken otherRest,
        tokens = taken ++ rest -> IsDefinition taken ->
        tokens = otherTaken ++ otherRest -> IsDefinition otherTaken ->
          taken = otherTaken ∧ rest = otherRest := by
  have enters : forall taken rest definition, tokens = taken ++ rest ->
      SpellsDefinition taken definition -> definition.Admissible ->
        empty.Enters tokens definition rest := by
    intro taken rest definition split spelled admissible
    exact enters_iff.mpr ⟨⟨taken, split, spelled, admissible⟩, List.not_mem_nil⟩
  constructor
  · intro name rest
    constructor
    · intro parts
      rcases parts with ⟨success, rfl⟩
      cases tokens with
      | nil => simp [step] at success
      | cons first behind =>
          rcases step_cons_success success with ⟨definition, named, entered, _⟩
          rcases enters_iff.mp entered with ⟨⟨taken, split, spelled, admissible⟩, _⟩
          exact ⟨taken, split, ⟨definition, spelled, admissible⟩,
            by rw [name_of_spelled spelled, Option.map_some, named]⟩
    · intro parts
      rcases parts with ⟨taken, split, ⟨definition, spelled, admissible⟩, named⟩
      have entered := enters taken rest definition split spelled admissible
      rw [name_of_spelled spelled, Option.map_some] at named
      exact ⟨entered.1.trans (congrArg Except.ok named), entered.2.2⟩
  · intro taken rest otherTaken otherRest split isDefinition otherSplit otherIsDefinition
    rcases isDefinition with ⟨definition, spelled, admissible⟩
    rcases otherIsDefinition with ⟨other, otherSpelled, otherAdmissible⟩
    have entered := enters taken rest definition split spelled admissible
    have otherEntered := enters otherTaken otherRest other otherSplit otherSpelled otherAdmissible
    have sameRest : rest = otherRest := entered.2.2.symm.trans otherEntered.2.2
    subst sameRest
    exact ⟨List.append_cancel_right (split.symm.trans otherSplit), rfl⟩

end Schema
end TypeSchema
