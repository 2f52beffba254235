import TypeSchema.Schema

namespace TypeSchema

/-!
# Tokens replaced throughout

Trees, diagnostics and events hold the tokens they were made from.  Replacing
every token by another one, and leaving all else as it is, is the way to say
that two of them differ in their tokens alone: in where these stand, in how a
literal is written, or in the choice of the names.
-/

mutual

/-- The same value, made from other tokens. -/
def Value.mapTokens (change : Token -> Token) : Value -> Value
  | .scalar literal => .scalar { literal with token := change literal.token }
  | .reference enumName member => .reference (change enumName) (change member)
  | .assignment name value => .assignment (change name) (value.mapTokens change)
  | .compound opening closing shape children =>
      .compound (change opening) (change closing) shape (Value.mapAllTokens change children)

/-- The same values, each made from other tokens. -/
def Value.mapAllTokens (change : Token -> Token) : List Value -> List Value
  | [] => []
  | value :: values => value.mapTokens change :: Value.mapAllTokens change values

end

theorem Value.mapAllTokens_eq_map (change : Token -> Token) (values : List Value) :
    mapAllTokens change values = values.map (mapTokens change) := by
  induction values with
  | nil => rw [mapAllTokens, List.map_nil]
  | cons value values ih => rw [mapAllTokens, ih, List.map_cons]

def Field.mapTokens (change : Token -> Token) (field : Field) : Field where
  typeName := change field.typeName
  name := change field.name
  isArray := field.isArray
  defaultValue := field.defaultValue.map (Value.mapTokens change)

def EnumDefinition.mapTokens (change : Token -> Token) (definition : EnumDefinition) :
    EnumDefinition where
  keyword := change definition.keyword
  name := change definition.name
  members := definition.members.map change

def TypeDefinition.mapTokens (change : Token -> Token) (definition : TypeDefinition) :
    TypeDefinition where
  keyword := change definition.keyword
  name := change definition.name
  parent := definition.parent.map change
  fields := definition.fields.map (Field.mapTokens change)

def Definition.mapTokens (change : Token -> Token) : Definition -> Definition
  | enum definition => enum (definition.mapTokens change)
  | type definition => type (definition.mapTokens change)

def Schema.mapTokens (change : Token -> Token) (schema : Schema) : Schema where
  definitions := schema.definitions.map (Definition.mapTokens change)

/-- The same cause, about other tokens. -/
def Cause.mapTokens (change : Token -> Token) : Cause -> Cause
  | lexical error => lexical { error with token := change error.token }
  | notAKeyword word => notAKeyword (change word)
  | unmatchedBrace brace => unmatchedBrace (change brace)
  | notADefinition token => notADefinition (change token)
  | nameExpected slot found => nameExpected slot (found.map change)
  | memberExpected found => memberExpected (change found)
  | fieldExpected found => fieldExpected (change found)
  | braceExpected keyword found => braceExpected keyword (found.map change)
  | typeBodyExpected name found => typeBodyExpected (change name) (found.map change)
  | unclosedList list => unclosedList list
  | defaultMissing field => defaultMissing (change field)
  | unclosedBracket => unclosedBracket
  | assignmentMissing name => assignmentMissing (change name)
  | valueExpected found => valueExpected (change found)
  | noMembers name => noMembers (change name)
  | duplicateMember member => duplicateMember (change member)
  | blankMember member => blankMember (change member)
  | ownParent name parent => ownParent (change name) (change parent)
  | duplicateField field => duplicateField (change field)
  | blankField field => blankField (change field)
  | sizedArray bracket found => sizedArray (change bracket) (change found)
  | mixedCompound expected actual child => mixedCompound expected actual (change child)
  | duplicateDefinition name => duplicateDefinition (change name)

def Context.mapTokens (change : Token -> Token) : Context -> Context
  | definition keyword name => definition keyword (change name)
  | compound => compound

def Diagnostic.mapTokens (change : Token -> Token) (diagnostic : Diagnostic) : Diagnostic where
  context := diagnostic.context.map (Context.mapTokens change)
  cause := diagnostic.cause.mapTokens change

def Event.mapTokens (change : Token -> Token) : Event -> Event
  | compound shape count => compound shape count
  | member enumName name ordinal => member (change enumName) (change name) ordinal
  | field typeName read => field (change typeName) (read.mapTokens change)
  | defined keyword name => defined keyword (change name)

namespace Value

variable (change : Token -> Token)

@[simp] theorem kind_mapTokens (value : Value) : (value.mapTokens change).kind = value.kind := by
  cases value <;> simp [mapTokens, kind]

@[simp] theorem token_mapTokens (value : Value) :
    (value.mapTokens change).token = change value.token := by
  cases value <;> simp [mapTokens, token]

theorem shapeOf_map (values : List Value) : shapeOf (values.map (mapTokens change)) = shapeOf values := by
  cases values with
  | nil => rfl
  | cons first others => simp [shapeOf]

theorem mismatch?_map (values : List Value) :
    mismatch? (values.map (mapTokens change)) =
      (mismatch? values).map (Prod.map id (mapTokens change)) := by
  cases values with
  | nil => rfl
  | cons first others =>
      simp only [mismatch?, List.map_cons, List.find?_map, kind_mapTokens, Function.comp_def,
        Option.map_map, Prod.map, id]

end Value

@[simp] theorem Definition.name_mapTokens (change : Token -> Token) (definition : Definition) :
    (definition.mapTokens change).name = change definition.name := by
  cases definition <;> rfl

@[simp] theorem Definition.keyword_mapTokens (change : Token -> Token) (definition : Definition) :
    (definition.mapTokens change).keyword = definition.keyword := by
  cases definition <;> rfl

/-! ## Texts

What is printed of a schema depends on the texts of its tokens alone, and what
a diagnostic says on their texts and kinds.
-/

mutual

theorem Value.render_mapTokens {change : Token -> Token}
    (texts : forall token, (change token).text = token.text) (value : Value) :
    (value.mapTokens change).render = value.render := by
  cases value with
  | scalar literal => rw [mapTokens, render, render, texts]
  | reference enumName member => rw [mapTokens, render, render, texts, texts]
  | assignment name value =>
      rw [mapTokens, render, render, texts, Value.render_mapTokens texts value]
  | compound opening closing shape children =>
      cases children with
      | nil => rw [mapTokens, mapAllTokens, render, render]
      | cons first others =>
          rw [mapTokens, mapAllTokens, render, render, Value.render_mapTokens texts first,
            Value.renderAll_mapTokens texts others]

theorem Value.renderAll_mapTokens {change : Token -> Token}
    (texts : forall token, (change token).text = token.text) (values : List Value) :
    renderAll (mapAllTokens change values) = renderAll values := by
  cases values with
  | nil => rw [mapAllTokens]
  | cons value values =>
      rw [mapAllTokens, renderAll, renderAll, Value.render_mapTokens texts value,
        Value.renderAll_mapTokens texts values]

end

section Texts

variable {change : Token -> Token} (texts : forall token, (change token).text = token.text)

include texts

theorem Field.render_mapTokens (field : Field) : (field.mapTokens change).render = field.render := by
  cases initial : field.defaultValue with
  | none => simp only [render, mapTokens, arrayMark, initial, texts, Option.map_none]
  | some value =>
      simp only [render, mapTokens, arrayMark, initial, texts, Option.map_some,
        Value.render_mapTokens texts]

theorem EnumDefinition.lines_mapTokens (definition : EnumDefinition) :
    (definition.mapTokens change).lines = definition.lines := by
  have same : Token.text ∘ change = Token.text := funext texts
  simp only [lines, mapTokens, texts, List.map_map, same]

theorem TypeDefinition.lines_mapTokens (definition : TypeDefinition) :
    (definition.mapTokens change).lines = definition.lines := by
  have same : (fun field => "    " ++ field.render) ∘ Field.mapTokens change =
      fun field => "    " ++ field.render := by
    funext field
    rw [Function.comp_apply, Field.render_mapTokens texts]
  cases title : definition.parent with
  | none => simp only [lines, mapTokens, texts, title, Option.map_none, List.map_map, same]
  | some parent => simp only [lines, mapTokens, texts, title, Option.map_some, List.map_map, same]

theorem Definition.lines_mapTokens (definition : Definition) :
    (definition.mapTokens change).lines = definition.lines := by
  cases definition with
  | enum definition => exact definition.lines_mapTokens texts
  | type definition => exact definition.lines_mapTokens texts

theorem Schema.lines_mapTokens (schema : Schema) : (schema.mapTokens change).lines = schema.lines := by
  simp only [lines, mapTokens, List.flatMap_map, Definition.lines_mapTokens texts]

theorem Schema.names_mapTokens (schema : Schema) : (schema.mapTokens change).names = schema.names := by
  simp only [names, mapTokens, List.map_map, Function.comp_def, Definition.name_mapTokens, texts]

theorem Context.label_mapTokens (context : Context) : (context.mapTokens change).label = context.label := by
  cases context with
  | definition keyword name => simp only [mapTokens, label, texts]
  | compound => rfl

theorem Cause.message_mapTokens (kinds : forall token, (change token).kind = token.kind)
    (cause : Cause) : (cause.mapTokens change).message = cause.message := by
  cases cause with
  | nameExpected slot found =>
      cases found with
      | none => rfl
      | some token =>
          unfold message
          simp only [mapTokens, Option.map_some, texts]
  | braceExpected keyword found =>
      cases found with
      | none => rfl
      | some token =>
          unfold message
          simp only [mapTokens, Option.map_some, texts]
  | typeBodyExpected name found =>
      cases found with
      | none => rfl
      | some token =>
          unfold message
          simp only [mapTokens, Option.map_some, texts, kinds]
  | _ =>
      unfold message
      simp only [mapTokens, texts, kinds]

theorem Diagnostic.message_mapTokens (kinds : forall token, (change token).kind = token.kind)
    (diagnostic : Diagnostic) : (diagnostic.mapTokens change).message = diagnostic.message := by
  simp only [message, mapTokens, List.foldr_map, Context.label_mapTokens texts,
    Cause.message_mapTokens texts kinds]

end Texts

@[simp] theorem Diagnostic.category_mapTokens (change : Token -> Token) (diagnostic : Diagnostic) :
    (diagnostic.mapTokens change).category = diagnostic.category := by
  rcases diagnostic with ⟨context, cause⟩
  cases cause <;> rfl

/-- The token to blame is chosen by its kind, and is replaced like any other. -/
theorem Diagnostic.token?_mapTokens {change : Token -> Token}
    (kinds : forall token, (change token).kind = token.kind) (diagnostic : Diagnostic) :
    (diagnostic.mapTokens change).token? = diagnostic.token?.map change := by
  rcases diagnostic with ⟨context, cause⟩
  cases cause with
  | sizedArray bracket found =>
      by_cases integer : found.kind = .integer <;>
        simp [token?, mapTokens, Cause.mapTokens, Cause.token?, Token.is, kinds, integer]
  | _ => rfl

end TypeSchema
