import TypeSchema.Parser.Definition

namespace TypeSchema

/-!
# Schemas

A schema is a list of definitions in the order of declaration, each under a
name of its own, and an index of these names.  It grows by steps: a step reads
one definition from a list of tokens and enters it.  A step that fails leaves the
schema as it was, but the tokens it has taken are gone, so a caller may stop or go
on behind them.
-/

/-- The definitions of a schema, in the order of declaration, and an index of
their names. -/
structure Schema where
  definitions : List Definition := []
  index : Index := .of (definitions.map fun definition => definition.name.text)
  indexed : index = .of (definitions.map fun definition => definition.name.text) := by rfl

namespace Schema

def empty : Schema := {}

/-- The definition with this name. -/
def find? (schema : Schema) (name : String) : Option Definition :=
  schema.index.item? schema.definitions name

/-- The names in the order of declaration. -/
def names (schema : Schema) : List String :=
  schema.definitions.map fun definition => definition.name.text

/-- Push a definition behind the others. -/
def push (schema : Schema) (definition : Definition) : Schema where
  definitions := schema.definitions ++ [definition]
  index := schema.index.insert definition.name.text schema.definitions.length
  indexed := by rw [Index.of_push, schema.indexed]

/-- Enter a definition under its name.  A name is given once: a later
definition with the same name is refused. -/
def define (schema : Schema) (definition : Definition) : Except Diagnostic Schema :=
  if schema.index.contains definition.name.text then
    .error { cause := .duplicateDefinition definition.name }
  else
    .ok (schema.push definition)

/-- The printed lines of all definitions. -/
def lines (schema : Schema) : List String :=
  schema.definitions.flatMap Definition.lines

/-- What one step did: the name it entered, nothing at the end of the tokens,
or a failure; and the schema and the tokens behind it. -/
structure Step where
  outcome : Except Diagnostic (Option String)
  schema : Schema
  rest : List Token
  events : List Event := []

/-- Read one definition and enter it. -/
def step (schema : Schema) (tokens : List Token) : Step :=
  match tokens with
  | [] => { outcome := .ok none, schema, rest := [] }
  | first :: behind =>
      let reply := (Parser.definition first).run behind
      match reply.outcome with
      | .error diagnostic =>
          { outcome := .error diagnostic, schema, rest := reply.rest, events := reply.events }
      | .ok definition =>
          match schema.define definition with
          | .error diagnostic =>
              { outcome := .error diagnostic, schema, rest := reply.rest, events := reply.events }
          | .ok extended =>
              { outcome := .ok (some definition.name.text)
                schema := extended
                rest := reply.rest
                events := reply.events ++ [.defined definition.keyword definition.name] }

/-- Every step takes at least one token. -/
theorem step_cons_suffix (schema : Schema) (first : Token) (behind : List Token) :
    (schema.step (first :: behind)).rest <:+ behind := by
  have suffix := (Parser.definition first).suffix behind
  simp only [step]
  split
  · exact suffix
  · split <;> exact suffix

theorem length_step_cons_lt (schema : Schema) (first : Token) (behind : List Token) :
    (schema.step (first :: behind)).rest.length < (first :: behind).length :=
  Nat.lt_succ_of_le (schema.step_cons_suffix first behind).length_le

/-- All steps up to the end of the tokens, going on behind failures. -/
def steps (schema : Schema) (tokens : List Token) : List Step :=
  match tokens with
  | [] => []
  | first :: behind =>
      let step := schema.step (first :: behind)
      step :: steps step.schema step.rest
termination_by tokens.length
decreasing_by exact schema.length_step_cons_lt first behind

/-- A schema, or the failure that kept it from being completed, and the tokens
left behind. -/
structure Extension where
  outcome : Except Diagnostic Schema
  rest : List Token

/-- Read definitions into a schema up to the end of the tokens or the first
failure. -/
def extend (schema : Schema) (tokens : List Token) : Extension :=
  match tokens with
  | [] => { outcome := .ok schema, rest := [] }
  | first :: behind =>
      let step := schema.step (first :: behind)
      match step.outcome with
      | .error diagnostic => { outcome := .error diagnostic, rest := step.rest }
      | .ok _ => extend step.schema step.rest
termination_by tokens.length
decreasing_by exact schema.length_step_cons_lt first behind

/-- The schema that a list of tokens describes. -/
def ofTokens (tokens : List Token) : Extension :=
  empty.extend tokens

/-- The schema that a text describes. -/
def parse (text : String) : Except Diagnostic Schema :=
  match Scan.tokens text with
  | .error error => .error { cause := .lexical error }
  | .ok tokens => (ofTokens tokens).outcome

end Schema
end TypeSchema
