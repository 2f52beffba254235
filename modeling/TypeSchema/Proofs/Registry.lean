import TypeSchema.Proofs.Declarations
import TypeSchema.Proofs.Indexing
import TypeSchema.Proofs.Surroundings

namespace TypeSchema

open Grammar

/-!
# What is true of every schema

A schema is the work of a caller who reads definitions from tokens, goes on
behind failures or stops at them, and enters definitions without members by
hand, in any order.  Whatever the caller does, names stay distinct: those of
the definitions, and within each definition those of its members or fields.
Definitions that were read are moreover as the grammar and the demands on
trees have it, and the shape of every list in a default value, however deep,
tells what its children are.
-/

/-! ## Shapes -/

/-- In every list of values, however deep, the shape tells what the children
are.  Assignments are children of lists and nothing else. -/
inductive Value.Shaped : Value -> Prop where
  | scalar (literal : Scalar) : Shaped (.scalar literal)
  | reference (enumName member : Token) : Shaped (.reference enumName member)
  | assignment {name : Token} {value : Value} : value.kind ≠ .assignment -> Shaped value ->
      Shaped (.assignment name value)
  | compound {opening closing : Token} {shape : Shape} {children : List Value} :
      (shape = .unit <-> children = []) ->
      (shape = .object <-> children ≠ [] ∧ forall child, child ∈ children -> child.kind = .assignment) ->
      (shape = .array <-> children ≠ [] ∧ Exists fun kind => kind ≠ Value.Kind.assignment ∧
        forall child, child ∈ children -> child.kind = kind) ->
      (forall child, child ∈ children -> Shaped child) ->
      Shaped (.compound opening closing shape children)

/-- Where children agree in kind, their shape follows from any one of them. -/
theorem Value.shapeOf_spec {children : List Value}
    (agree : forall left, left ∈ children -> forall right, right ∈ children -> left.kind = right.kind) :
    (shapeOf children = .unit <-> children = []) ∧
      (shapeOf children = .object <->
        children ≠ [] ∧ forall child, child ∈ children -> child.kind = .assignment) ∧
      (shapeOf children = .array <-> children ≠ [] ∧ Exists fun kind => kind ≠ Value.Kind.assignment ∧
        forall child, child ∈ children -> child.kind = kind) := by
  cases children with
  | nil => simp [shapeOf]
  | cons first others =>
      have same : forall child, child ∈ first :: others -> child.kind = first.kind :=
        fun child member => agree child member first (List.mem_cons_self ..)
      by_cases named : first.kind = .assignment
      · have shape : shapeOf (first :: others) = .object := by simp [shapeOf, named]
        rw [shape]
        refine ⟨by simp, ⟨fun _ => ⟨by simp, fun child member => (same child member).trans named⟩,
          fun _ => rfl⟩, ⟨by simp, ?_⟩⟩
        rintro ⟨_, kind, other, all⟩
        exact absurd ((all first (List.mem_cons_self ..)).symm.trans named) other
      · have shape : shapeOf (first :: others) = .array := by simp [shapeOf, named]
        rw [shape]
        refine ⟨by simp, ⟨by simp, ?_⟩,
          ⟨fun _ => ⟨by simp, first.kind, named, same⟩, fun _ => rfl⟩⟩
        rintro ⟨_, all⟩
        exact absurd (all first (List.mem_cons_self ..)) named

/-- A spelled value whose lists agree in kind is shaped. -/
theorem Value.Uniform.shaped {value : Value} (uniform : value.Uniform) {taken : List Token}
    (spelled : SpellsChild taken value) : value.Shaped := by
  induction uniform generalizing taken with
  | scalar literal => exact .scalar literal
  | reference enumName member => exact .reference enumName member
  | assignment uniform ih =>
      cases spelled with
      | assignment _ _ inner => exact .assignment inner.kind_ne_assignment (ih (.value inner))
      | value inner => cases inner
  | compound agree uniform ih =>
      cases spelled with
      | value inner =>
          cases inner with
          | compound _ listing _ =>
              rcases Value.shapeOf_spec agree with ⟨isUnit, isObject, isArray⟩
              refine .compound isUnit isObject isArray ?_
              intro child member
              rcases listing.exists_of_mem member with ⟨_, childSpelled⟩
              exact ih child member childSpelled

/-! ## Definitions that were read -/

namespace Definition

/-- What is true of a definition that was read. -/
def IsSound : Definition -> Prop
  | enum definition =>
      definition.members ≠ [] ∧ forall member, member ∈ definition.members -> IsTelling member.text
  | type definition =>
      (forall parent, parent ∈ definition.parent -> parent.text ≠ definition.name.text) ∧
        forall field, field ∈ definition.fields -> IsTelling field.name.text ∧
          forall value, value ∈ field.defaultValue -> value.kind ≠ .assignment ∧ value.Shaped

theorem isSound_of_spelled {taken : List Token} {definition : Definition}
    (spelled : SpellsDefinition taken definition) (admissible : definition.Admissible) :
    definition.IsSound := by
  cases spelled with
  | enum _ _ _ _ _ present _ => exact ⟨present, admissible.telling⟩
  | type _ _ _ _ _ listing _ =>
      refine ⟨admissible.foreign, ?_⟩
      intro field member
      refine ⟨admissible.telling field member, ?_⟩
      intro value isDefault
      rcases listing.exists_of_mem member with ⟨_, fieldSpelled⟩
      have uniform := admissible.uniform field member value isDefault
      cases fieldSpelled with
      | field _ _ _ initial =>
          cases initial with
          | absent => cases isDefault
          | present _ valueSpelled =>
              rw [← Option.some.inj isDefault] at uniform ⊢
              exact ⟨valueSpelled.kind_ne_assignment, uniform.shaped (.value valueSpelled)⟩

end Definition

namespace Schema

/-! ## Callers -/

/-- What a caller does to a schema: make a step on any tokens, or enter a
definition that has no members yet. -/
inductive Action where
  | read (tokens : List Token)
  | enterEnum (keyword name : Token)
  | enterType (keyword name : Token) (parent : Option Token)

/-- The schema with one more definition, or as it was if that is refused. -/
def enter (schema : Schema) (definition : Definition) : Schema :=
  match schema.define definition with
  | .ok extended => extended
  | .error _ => schema

/-- The schema behind an action, be it successful or not. -/
def perform (schema : Schema) : Action -> Schema
  | .read tokens => (schema.step tokens).schema
  | .enterEnum keyword name => schema.enter (.enum (.fresh keyword name))
  | .enterType keyword name parent => schema.enter (.type (.fresh keyword name parent))

def performAll (schema : Schema) (actions : List Action) : Schema :=
  actions.foldl perform schema

/-- The definitions that are new behind each action, together with the action. -/
def growth : Schema -> List Action -> List (Action × Definition)
  | _, [] => []
  | schema, action :: actions =>
      let grown := schema.perform action
      (grown.definitions.drop schema.definitions.length).map (fun definition => (action, definition)) ++
        growth grown actions

/-- The definition is one that the action could add to some schema. -/
def Action.Yields : Action -> Definition -> Prop
  | .read tokens, definition =>
      Exists fun taken => taken <+: tokens ∧ SpellsDefinition taken definition ∧ definition.Admissible
  | .enterEnum keyword name, definition => definition = .enum (.fresh keyword name)
  | .enterType keyword name parent, definition => definition = .type (.fresh keyword name parent)

/-! ## One action -/

theorem enter_cases (schema : Schema) (definition : Definition) :
    schema.enter definition = schema ∨ schema.define definition = .ok (schema.enter definition) := by
  rw [enter]
  cases schema.define definition with
  | error diagnostic => exact Or.inl rfl
  | ok extended => exact Or.inr rfl

theorem perform_cases (schema : Schema) (action : Action) :
    schema.perform action = schema ∨ Exists fun definition => action.Yields definition ∧
      (schema.perform action).definitions = schema.definitions ++ [definition] := by
  cases action with
  | read tokens =>
      rcases schema.step_schema_cases tokens with unchanged | ⟨definition, entered⟩
      · exact Or.inl unchanged
      · rcases enters_iff.mp entered with ⟨⟨taken, split, spelled, admissible⟩, _⟩
        exact Or.inr ⟨definition, ⟨taken, ⟨_, split.symm⟩, spelled, admissible⟩,
          congrArg definitions entered.2.1⟩
  | enterEnum keyword name =>
      exact (schema.enter_cases _).imp id fun defined =>
        ⟨_, rfl, congrArg definitions (define_eq_ok_iff.mp defined).2⟩
  | enterType keyword name parent =>
      exact (schema.enter_cases _).imp id fun defined =>
        ⟨_, rfl, congrArg definitions (define_eq_ok_iff.mp defined).2⟩

theorem isIndexed_enter {schema : Schema} (indexed : schema.IsIndexed) {definition : Definition}
    (inside : definition.IsIndexed) : (schema.enter definition).IsIndexed := by
  rcases schema.enter_cases definition with unchanged | defined
  · rw [unchanged]
    exact indexed
  · exact isIndexed_define indexed inside defined

/-- Whatever the action does, the index goes on to hold the places of the names. -/
theorem isIndexed_perform {schema : Schema} (indexed : schema.IsIndexed) (action : Action) :
    (schema.perform action).IsIndexed := by
  cases action with
  | read tokens => exact isIndexed_step indexed tokens
  | enterEnum keyword name => exact isIndexed_enter indexed Index.fits_empty
  | enterType keyword name parent => exact isIndexed_enter indexed Index.fits_empty

/-! ## All actions -/

theorem isIndexed_performAll {schema : Schema} (indexed : schema.IsIndexed) (actions : List Action) :
    (schema.performAll actions).IsIndexed := by
  induction actions generalizing schema with
  | nil => exact indexed
  | cons action actions ih => exact ih (isIndexed_perform indexed action)

/-- Definitions stay where they are, and those that are added stand behind
them in the order of the actions. -/
theorem definitions_performAll (schema : Schema) (actions : List Action) :
    (schema.performAll actions).definitions =
      schema.definitions ++ (growth schema actions).map Prod.snd := by
  induction actions generalizing schema with
  | nil => exact (List.append_nil _).symm
  | cons action actions ih =>
      rw [performAll, List.foldl_cons, ← performAll, ih, growth]
      rcases schema.perform_cases action with unchanged | ⟨definition, _, grown⟩
      · simp [unchanged]
      · simp [grown]

theorem yields_of_mem_growth {schema : Schema} {actions : List Action} {action : Action}
    {definition : Definition} (member : (action, definition) ∈ growth schema actions) :
    action.Yields definition := by
  induction actions generalizing schema with
  | nil => cases member
  | cons first actions ih =>
      rw [growth] at member
      rcases List.mem_append.mp member with here | later
      · rcases schema.perform_cases first with unchanged | ⟨other, yields, grown⟩
        · simp [unchanged] at here
        · simp only [grown, List.drop_left, List.map_singleton, List.mem_singleton] at here
          rcases Prod.mk.inj here with ⟨rfl, rfl⟩
          exact yields
      · exact ih later

/-- Every index in the schema holds the places of the names, and every lookup through
it finds what has the name. -/
structure Registered (schema : Schema) : Prop where
  definitions : Lookup.Answers nameText schema.definitions schema.index schema.find?
  members : forall definition, .enum definition ∈ schema.definitions ->
    Lookup.Answers Token.text definition.members definition.index
        (definition.index.item? definition.members) ∧
      forall text (place : Nat), definition.ordinal? text = some place <->
        definition.members[place]?.map Token.text = some text
  fields : forall definition, .type definition ∈ schema.definitions ->
    Lookup.Answers (fun field => field.name.text) definition.fields definition.index definition.field?

theorem IsIndexed.registered {schema : Schema} (indexed : schema.IsIndexed) : schema.Registered where
  definitions := Lookup.answers_of_fits indexed.names
  members definition member := by
    have answers := Lookup.answers_of_fits (indexed.inside _ member)
    exact ⟨answers, answers.noted⟩
  fields definition member := Lookup.answers_of_fits (indexed.inside _ member)

/-- Whatever a caller does to the empty schema, every index holds the places of the
names and every lookup finds what has the name.  The definitions are those that the
actions have added, in order, and each of those that were read is sound. -/
theorem performAll_registered (actions : List Action) :
    (empty.performAll actions).Registered ∧
      (empty.performAll actions).definitions = (growth empty actions).map Prod.snd ∧
      forall tokens definition, (Action.read tokens, definition) ∈ growth empty actions ->
        definition.IsSound := by
  refine ⟨(isIndexed_performAll isIndexed_empty actions).registered,
    empty.definitions_performAll actions, ?_⟩
  intro tokens definition member
  rcases yields_of_mem_growth member with ⟨_, _, spelled, admissible⟩
  exact Definition.isSound_of_spelled spelled admissible

end Schema
end TypeSchema
