import TypeSchema.Proofs.Language

namespace TypeSchema
namespace Schema

open Grammar
open TypeSchema.Parser (AdmitsAll Novel)

/-!
# The language of a schema

A schema is read step by step, and each step takes one definition off the
front.  A list of tokens is therefore a schema exactly if it can be cut into
definitions of which no two have one name.  There is nothing between the
definitions, not even commas.
-/

/-- The tokens are these definitions, one after another. -/
inductive Declares : List Token -> List Definition -> Prop where
  | nil : Declares [] []
  | cons {taken behind : List Token} {definition : Definition} {definitions : List Definition} :
      SpellsDefinition taken definition -> definition.Admissible -> Declares behind definitions ->
      Declares (taken ++ behind) (definition :: definitions)

/-- The spelling of the name of a definition. -/
def nameText (definition : Definition) : String :=
  definition.name.text

theorem novel_iff {schema : Schema} {definition : Definition} :
    Novel nameText schema.definitions definition <-> definition.name.text ∉ schema.names := by
  simp [Novel, nameText, names]

theorem extend_cons_of_ok {schema : Schema} {first : Token} {behind : List Token}
    {name : Option String} (succeeded : (schema.step (first :: behind)).outcome = .ok name) :
    schema.extend (first :: behind) =
      (schema.step (first :: behind)).schema.extend (schema.step (first :: behind)).rest := by
  rw [extend]
  simp only [succeeded]

/-- Tokens that extend a schema are definitions with new names. -/
theorem declares_of_extend {schema extended : Schema} {tokens : List Token}
    (success : (schema.extend tokens).outcome = .ok extended) :
    Exists fun definitions => Declares tokens definitions ∧
      AdmitsAll (Novel nameText) schema.definitions definitions ∧
      extended.definitions = schema.definitions ++ definitions := by
  fun_induction extend schema tokens with
  | case1 schema =>
      refine ⟨[], .nil, trivial, ?_⟩
      rw [← Except.ok.inj success, List.append_nil]
  | case2 schema first behind step diagnostic failed => cases success
  | case3 schema first behind step name succeeded ih =>
      rcases step_cons_success succeeded with ⟨definition, _, entered, _⟩
      rcases enters_iff.mp entered with ⟨⟨taken, split, spelled, admissible⟩, isNew⟩
      rcases ih success with ⟨definitions, declares, admitted, all⟩
      rw [entered.2.1] at admitted all
      refine ⟨definition :: definitions, ?_, ⟨novel_iff.mpr isNew, admitted⟩, ?_⟩
      · rw [split]
        exact .cons spelled admissible declares
      · rw [all, List.append_assoc, List.singleton_append]

/-- Behind the tokens of definitions with new names a schema is extended as the
one that holds these definitions already. -/
theorem extend_append {schema : Schema} {tokens : List Token} {definitions : List Definition}
    (declares : Declares tokens definitions)
    (admitted : AdmitsAll (Novel nameText) schema.definitions definitions) (later : List Token) :
    schema.extend (tokens ++ later) =
      Schema.extend { definitions := schema.definitions ++ definitions } later := by
  induction declares generalizing schema with
  | nil =>
      rw [List.nil_append]
      exact congrArg (Schema.extend · later) (ext_definitions (List.append_nil _).symm)
  | @cons taken behind definition definitions spelled admissible declares ih =>
      have entered : schema.Enters (taken ++ (behind ++ later)) definition (behind ++ later) :=
        enters_iff.mpr ⟨⟨taken, rfl, spelled, admissible⟩, novel_iff.mp admitted.1⟩
      rcases spelled.begins with ⟨first, others, rfl⟩
      rw [List.append_assoc]
      rw [List.cons_append] at entered ⊢
      have extended : Schema.extend { definitions := schema.definitions ++ [definition] }
            (behind ++ later) =
          Schema.extend { definitions := schema.definitions ++ [definition] ++ definitions } later :=
        ih admitted.2
      rw [extend_cons_of_ok entered.1, entered.2.1, entered.2.2, extended, List.append_assoc,
        List.singleton_append]

theorem extend_of_declares {schema : Schema} {tokens : List Token} {definitions : List Definition}
    (declares : Declares tokens definitions)
    (admitted : AdmitsAll (Novel nameText) schema.definitions definitions) :
    (schema.extend tokens).outcome = .ok { definitions := schema.definitions ++ definitions } := by
  have extended := extend_append declares admitted []
  rw [List.append_nil] at extended
  rw [extended, extend]

/-- Definitions have new names one after another exactly if their names are
distinct and new. -/
theorem admitsAll_nameText_iff {earlier definitions : List Definition} :
    AdmitsAll (Novel nameText) earlier definitions <->
      (definitions.map nameText).Nodup ∧
        forall definition, definition ∈ definitions -> Novel nameText earlier definition := by
  have all : AdmitsAll (fun earlier value => Novel nameText earlier value ∧ True) earlier definitions <->
      (definitions.map nameText).Nodup ∧
        (forall value, value ∈ definitions -> Novel nameText earlier value) ∧
          forall value, value ∈ definitions -> True := Parser.admitsAll_novel_iff
  simpa only [and_true, implies_true] using all

/-- A list of tokens is a schema exactly if it consists of its definitions and
their names are distinct. -/
theorem ofTokens_eq_ok_iff {tokens : List Token} {schema : Schema} :
    (ofTokens tokens).outcome = .ok schema <->
      Declares tokens schema.definitions ∧ schema.names.Nodup := by
  have distinct : forall definitions : List Definition,
      AdmitsAll (Novel nameText) [] definitions <-> (definitions.map nameText).Nodup := by
    intro definitions
    have novel : forall definition, Novel nameText [] definition :=
      fun _ _ impossible => absurd impossible List.not_mem_nil
    simpa only [novel, implies_true, and_true] using @admitsAll_nameText_iff [] definitions
  constructor
  · intro success
    rcases declares_of_extend success with ⟨definitions, declares, admitted, all⟩
    have same : schema.definitions = definitions := all
    rw [same]
    refine ⟨declares, ?_⟩
    rw [names, same]
    exact (distinct definitions).mp admitted
  · intro given
    rcases given with ⟨declares, nodup⟩
    have whole : schema = { definitions := empty.definitions ++ schema.definitions } :=
      ext_definitions rfl
    rw [whole]
    exact extend_of_declares declares ((distinct schema.definitions).mpr nodup)

/-- A text is a schema exactly if it has tokens and they are one. -/
theorem parse_eq_ok_iff {text : String} {schema : Schema} :
    parse text = .ok schema <->
      Exists fun tokens => Scan.tokens text = .ok tokens ∧ (ofTokens tokens).outcome = .ok schema := by
  rw [parse]
  cases Scan.tokens text with
  | error error => simp
  | ok tokens => simp

/-- The tokens of one of several definitions, and of those before it. -/
theorem Declares.exists_split {tokens : List Token} {before after : List Definition}
    {definition : Definition} (declares : Declares tokens (before ++ definition :: after)) :
    Exists fun earlier => Exists fun taken => Exists fun later =>
      tokens = earlier ++ (taken ++ later) ∧ Declares earlier before ∧
        SpellsDefinition taken definition ∧ definition.Admissible := by
  induction before generalizing tokens with
  | nil =>
      cases declares with
      | cons spelled admissible _ => exact ⟨[], _, _, rfl, .nil, spelled, admissible⟩
  | cons other before ih =>
      cases declares with
      | @cons taken behind _ _ otherSpelled otherAdmissible declares =>
          rcases ih declares with ⟨earlier, found, later, rfl, declared, spelled, admissible⟩
          exact ⟨taken ++ earlier, found, later, (List.append_assoc ..).symm,
            .cons otherSpelled otherAdmissible declared, spelled, admissible⟩

/-- A definition with a name that is given already is refused. -/
theorem extend_of_known {schema : Schema} {taken : List Token} {definition : Definition}
    (spelled : SpellsDefinition taken definition) (admissible : definition.Admissible)
    (known : definition.name.text ∈ schema.names) (later : List Token) :
    (schema.extend (taken ++ later)).outcome =
      .error { cause := .duplicateDefinition definition.name } := by
  rcases spelled.begins with ⟨first, behind, rfl⟩
  have read : (Parser.definition first).Reads (behind ++ later) definition later :=
    Parser.reads_definition_iff.mpr ⟨behind, rfl, spelled, admissible⟩
  rw [List.cons_append, extend]
  simp [step, read.1, define_of_known known]

end Schema
end TypeSchema
