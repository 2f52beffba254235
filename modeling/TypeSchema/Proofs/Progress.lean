import TypeSchema.Proofs.Language

namespace TypeSchema
namespace Schema

/-!
# Progress

A step is all or nothing.  It either adds one complete definition to a schema
or leaves the schema alone, and in both cases it takes at least one token, so
a driver that goes on behind failures runs out of tokens in the end.  Nothing
of a definition that was begun and not completed is left in the schema: what a
driver ends up with are the definitions that its successful steps report.  A
caller who stops at the first failure makes the steps of `extend`.
-/

/-- The definition that a step has entered, looked up by the name it reports. -/
def Step.entered? (step : Step) : Option Definition :=
  match step.outcome with
  | .ok (some name) => step.schema.find? name
  | _ => none

/-- The rest is what remains of the tokens when some of them are taken. -/
def Advances (tokens rest : List Token) : Prop :=
  rest <:+ tokens ∧ rest ≠ tokens

/-- The three ways in which a step can proceed. -/
inductive Proceeds (schema : Schema) (tokens : List Token) (step : Step) : Prop where
  | ended : tokens = [] -> step.outcome = .ok none -> step.schema = schema ->
      step.rest = tokens -> Proceeds schema tokens step
  | entered (definition : Definition) : step.outcome = .ok (some definition.name.text) ->
      schema.find? definition.name.text = none ->
      step.schema.definitions = schema.definitions ++ [definition] ->
      step.entered? = some definition -> Advances tokens step.rest -> Proceeds schema tokens step
  | failed (diagnostic : Diagnostic) : step.outcome = .error diagnostic -> step.schema = schema ->
      step.entered? = none -> Advances tokens step.rest -> Proceeds schema tokens step

/-! ## One step -/

theorem advances_step_cons (schema : Schema) (first : Token) (behind : List Token) :
    Advances (first :: behind) (schema.step (first :: behind)).rest := by
  refine ⟨(schema.step_cons_suffix first behind).trans (List.suffix_cons _ _), ?_⟩
  intro same
  have shorter := schema.length_step_cons_lt first behind
  rw [same] at shorter
  exact Nat.lt_irrefl _ shorter

/-- What was entered last is found under its name. -/
theorem find?_append_self (schema : Schema) (definition : Definition) :
    find? { definitions := schema.definitions ++ [definition] } definition.name.text =
      some definition := by
  rw [← push_eq]
  exact Index.item?_insert_self ..

theorem proceeds_step (schema : Schema) (tokens : List Token) :
    Proceeds schema tokens (schema.step tokens) := by
  cases tokens with
  | nil => exact .ended rfl rfl rfl rfl
  | cons first behind =>
      have advances := schema.advances_step_cons first behind
      cases outcome : (schema.step (first :: behind)).outcome with
      | error diagnostic =>
          refine .failed diagnostic outcome (step_schema_of_error outcome) ?_ advances
          rw [Step.entered?, outcome]
      | ok name =>
          rcases step_cons_success outcome with ⟨definition, rfl, entered, _, isNew⟩
          have unknown := find?_eq_none_iff.mpr isNew
          refine .entered definition outcome unknown ?_ ?_ advances
          · rw [entered.2.1]
          · simp only [Step.entered?, outcome, entered.2.1]
            exact schema.find?_append_self definition

/-! ## Drivers -/

/-- A driver makes one step after another, going on behind failures, until a
step finds no tokens. -/
inductive Drives : Schema -> List Token -> List Step -> Schema -> Prop where
  | done {schema : Schema} {tokens : List Token} :
      (schema.step tokens).outcome = .ok none -> Drives schema tokens [] schema
  | next {schema last : Schema} {tokens : List Token} {later : List Step} :
      (schema.step tokens).outcome ≠ .ok none ->
      Drives (schema.step tokens).schema (schema.step tokens).rest later last ->
      Drives schema tokens (schema.step tokens :: later) last

/-- Only a step without tokens ahead finds none. -/
theorem step_outcome_eq_none_iff {schema : Schema} {tokens : List Token} :
    (schema.step tokens).outcome = .ok none <-> tokens = [] := by
  constructor
  · intro nothing
    cases schema.proceeds_step tokens with
    | ended isEmpty _ _ _ => exact isEmpty
    | entered definition success =>
        rw [success] at nothing
        cases nothing
    | failed diagnostic failure =>
        rw [failure] at nothing
        cases nothing
  · rintro rfl
    rfl

/-- A driver has no choice. -/
theorem Drives.unique {schema last otherLast : Schema} {tokens : List Token}
    {steps otherSteps : List Step} (drives : Drives schema tokens steps last)
    (other : Drives schema tokens otherSteps otherLast) :
    otherSteps = steps ∧ otherLast = last := by
  induction drives generalizing otherSteps otherLast with
  | done nothing =>
      cases other with
      | done _ => exact ⟨rfl, rfl⟩
      | next something _ => exact absurd nothing something
  | next something _ ih =>
      cases other with
      | done nothing => exact absurd nothing something
      | next _ later =>
          rcases ih later with ⟨rfl, rfl⟩
          exact ⟨rfl, rfl⟩

/-- The driver makes the steps of `steps`, and what it has then are the
definitions before them and those they have entered, in order. -/
theorem drives_steps (schema : Schema) (tokens : List Token) :
    Exists fun last => Drives schema tokens (schema.steps tokens) last ∧
      last.definitions =
        schema.definitions ++ (schema.steps tokens).filterMap Step.entered? := by
  fun_induction steps schema tokens with
  | case1 schema => exact ⟨schema, .done rfl, by simp⟩
  | case2 schema first behind step ih =>
      rcases ih with ⟨last, drives, all⟩
      have something : step.outcome ≠ .ok none := fun nothing =>
        absurd (step_outcome_eq_none_iff.mp nothing) (List.cons_ne_nil first behind)
      refine ⟨last, .next something drives, ?_⟩
      rw [all]
      cases schema.proceeds_step (first :: behind) with
      | ended isEmpty => cases isEmpty
      | entered definition _ _ grown isEntered =>
          rw [List.filterMap_cons_some isEntered, grown, List.append_assoc, List.singleton_append]
      | failed diagnostic _ unchanged notEntered =>
          rw [List.filterMap_cons_none notEntered, unchanged]

theorem length_steps_le (schema : Schema) (tokens : List Token) :
    (schema.steps tokens).length ≤ tokens.length := by
  fun_induction steps schema tokens with
  | case1 schema => exact Nat.le_refl _
  | case2 schema first behind step ih =>
      have shorter := schema.length_step_cons_lt first behind
      exact Nat.succ_le_of_lt (Nat.lt_of_le_of_lt ih shorter)

/-- A step finds no tokens, or enters exactly one definition under a new name,
or fails and leaves the schema as it was; unless it finds none, it takes some.
A driver therefore ends after at most as many steps as there are tokens, with
the definitions of its successful steps behind those it began with. -/
theorem driver_complete (schema : Schema) (tokens : List Token) :
    Proceeds schema tokens (schema.step tokens) ∧
      Exists fun steps => Exists fun last => Drives schema tokens steps last ∧
        (forall otherSteps otherLast, Drives schema tokens otherSteps otherLast ->
          otherSteps = steps ∧ otherLast = last) ∧
        steps = schema.steps tokens ∧ steps.length ≤ tokens.length ∧
        last.definitions = schema.definitions ++ steps.filterMap Step.entered? := by
  refine ⟨schema.proceeds_step tokens, ?_⟩
  rcases schema.drives_steps tokens with ⟨last, drives, all⟩
  exact ⟨schema.steps tokens, last, drives, fun _ _ other => drives.unique other, rfl,
    schema.length_steps_le tokens, all⟩

/-! ## Callers who stop -/

/-- A caller who stops at a failure makes one step after another until a step
finds no tokens or fails. -/
inductive EndsIn : Schema -> List Token -> Except Diagnostic Schema -> Prop where
  | done {schema : Schema} {tokens : List Token} :
      (schema.step tokens).outcome = .ok none -> EndsIn schema tokens (.ok schema)
  | failed {schema : Schema} {tokens : List Token} {diagnostic : Diagnostic} :
      (schema.step tokens).outcome = .error diagnostic -> EndsIn schema tokens (.error diagnostic)
  | next {schema : Schema} {tokens : List Token} {name : String}
      {outcome : Except Diagnostic Schema} :
      (schema.step tokens).outcome = .ok (some name) ->
      EndsIn (schema.step tokens).schema (schema.step tokens).rest outcome ->
      EndsIn schema tokens outcome

/-- To extend a schema is to make these steps. -/
theorem endsIn_extend (schema : Schema) (tokens : List Token) :
    EndsIn schema tokens (schema.extend tokens).outcome := by
  fun_induction extend schema tokens with
  | case1 schema => exact .done rfl
  | case2 schema first behind step diagnostic failed => exact .failed failed
  | case3 schema first behind step name succeeded ih =>
      cases name with
      | none => exact absurd (step_outcome_eq_none_iff.mp succeeded) (List.cons_ne_nil first behind)
      | some name => exact .next succeeded ih

end Schema
end TypeSchema
