import TypeSchema.Parser.Value

namespace TypeSchema
namespace Parser

/-!
# Reading definitions

A definition is read after its first token, which must be one of the two
keywords.  Names of members and of fields are checked while their list is
read: a member as soon as it is met, the spelling of a field as soon as its
name is met, and the novelty of a field once the whole field is read.
-/

/-- A name without any character but underscores says nothing. -/
def isBlankName (text : String) : Bool :=
  text.toList.all (· == '_')

/-- A member, pushed to the enum that has been read so far. -/
def enumMember (read : EnumDefinition) (member : Token) : Parser EnumDefinition := do
  if !member.is .word then fail (.memberExpected member)
  else if (read.ordinal? member.text).isSome then fail (.duplicateMember member)
  else if isBlankName member.text then fail (.blankMember member)
  else
    emit (.member read.name member read.members.length)
    return read.push member

/-- An enum, behind its keyword. -/
def enumDefinition (keyword : Token) : Parser Definition := do
  let enumName <- name (.definition .enum)
  let _ <- openBrace .enum
  let (read, _) <- within (.definition .enum enumName)
    (gathered .enumMembers enumMember (.fresh keyword enumName))
  if read.members.isEmpty then fail (.noMembers enumName)
  else return .enum read

/-- The array mark of a field, if there is one.  Nothing may stand between its
brackets. -/
def arrayMark : Parser Bool := do
  match ← nextIf? .openBracket with
  | none => return false
  | some bracket =>
      match ← nextIf? .closeBracket with
      | some _ => return true
      | none =>
          match ← front? with
          | some token => fail (.sizedArray bracket token)
          | none => fail .unclosedBracket

/-- The default value of a field, if there is one. -/
def defaultValue (fieldName : Token) : Parser (Option Value) := do
  match ← nextIf? .equals with
  | none => return none
  | some _ =>
      match ← next? with
      | some first => return some (← value first)
      | none => fail (.defaultMissing fieldName)

/-- A field, behind its type name. -/
def field (typeName : Token) : Parser Field := do
  if !typeName.is .word then fail (.fieldExpected typeName)
  else
    let fieldName <- name .field
    if isBlankName fieldName.text then fail (.blankField fieldName)
    else
      let isArray <- arrayMark
      let initial <- defaultValue fieldName
      return { typeName, name := fieldName, isArray, defaultValue := initial }

/-- A field, pushed to the type that has been read so far. -/
def typeMember (read : TypeDefinition) (first : Token) : Parser TypeDefinition := do
  let found <- field first
  if (read.field? found.name.text).isSome then fail (.duplicateField found.name)
  else
    emit (.field read.name found)
    return read.push found

/-- The parent of a type, if a colon announces one.  A type is not its own
parent; without a colon the body must follow. -/
def parent (typeName : Token) : Parser (Option Token) := do
  match ← nextIf? .colon with
  | some _ =>
      let parentName <- name .parent
      if parentName.text = typeName.text then fail (.ownParent typeName parentName)
      else return some parentName
  | none =>
      match ← front? with
      | some token =>
          if token.is .openBrace then return none
          else fail (.typeBodyExpected typeName (some token))
      | none => fail (.typeBodyExpected typeName none)

/-- A type, behind its keyword. -/
def typeDefinition (keyword : Token) : Parser Definition := do
  let typeName <- name (.definition .type)
  let parentName <- parent typeName
  let _ <- openBrace .type
  let (read, _) <- within (.definition .type typeName)
    (gathered .typeMembers typeMember (.fresh keyword typeName parentName))
  return .type read

/-- A definition whose first token is taken. -/
def definition (first : Token) : Parser Definition :=
  match Keyword.ofToken? first with
  | some .enum => enumDefinition first
  | some .type => typeDefinition first
  | none =>
      match first.kind with
      | .word => fail (.notAKeyword first)
      | .closeBrace => fail (.unmatchedBrace first)
      | _ => fail (.notADefinition first)

end Parser
end TypeSchema
