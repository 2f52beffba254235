import TypeSchema.Index
import TypeSchema.Value

namespace TypeSchema

/-!
# Definitions

A schema defines enums and types.  An enum is a list of members, numbered in
the order of declaration.  A type is a list of fields, each with a type name,
an optional array mark and an optional default value; it may name a parent,
which need not be defined anywhere.

Members and fields are pushed one after another, and an index is kept of their
names.  Whether a name is taken is for the caller to ask before a push.
-/

/-- The words that introduce a definition. -/
inductive Keyword where
  | enum
  | type
  deriving DecidableEq, Repr

namespace Keyword

def text : Keyword -> String
  | enum => "enum"
  | type => "type"

/-- The keyword that a token spells. -/
def ofToken? (token : Token) : Option Keyword :=
  if token.isWord "enum" then some enum
  else if token.isWord "type" then some type
  else none

end Keyword

/-- A member of a type. -/
structure Field where
  typeName : Token
  name : Token
  isArray : Bool := false
  defaultValue : Option Value := none

/-- An enum with an index of its members. -/
structure EnumDefinition where
  keyword : Token
  name : Token
  members : List Token := []
  index : Index := .of (members.map Token.text)
  indexed : index = .of (members.map Token.text) := by rfl

/-- A type with an index of its fields. -/
structure TypeDefinition where
  keyword : Token
  name : Token
  parent : Option Token := none
  fields : List Field := []
  index : Index := .of (fields.map fun field => field.name.text)
  indexed : index = .of (fields.map fun field => field.name.text) := by rfl

namespace EnumDefinition

/-- An enum without members yet. -/
def fresh (keyword name : Token) : EnumDefinition :=
  { keyword, name }

/-- The place of the member with this name in the order of declaration,
counted from zero. -/
def ordinal? (definition : EnumDefinition) (name : String) : Option Nat :=
  definition.index.find? name

/-- Push a member behind the others. -/
def push (definition : EnumDefinition) (member : Token) : EnumDefinition where
  keyword := definition.keyword
  name := definition.name
  members := definition.members ++ [member]
  index := definition.index.insert member.text definition.members.length
  indexed := by rw [Index.of_push, definition.indexed]

end EnumDefinition

namespace TypeDefinition

/-- A type without fields yet. -/
def fresh (keyword name : Token) (parent : Option Token) : TypeDefinition :=
  { keyword, name, parent }

/-- The field with this name. -/
def field? (definition : TypeDefinition) (name : String) : Option Field :=
  definition.index.item? definition.fields name

/-- Push a field behind the others. -/
def push (definition : TypeDefinition) (field : Field) : TypeDefinition where
  keyword := definition.keyword
  name := definition.name
  parent := definition.parent
  fields := definition.fields ++ [field]
  index := definition.index.insert field.name.text definition.fields.length
  indexed := by rw [Index.of_push, definition.indexed]

end TypeDefinition

/-- A named declaration of a schema. -/
inductive Definition where
  | enum (definition : EnumDefinition)
  | type (definition : TypeDefinition)

namespace Definition

/-- The token that names the definition. -/
def name : Definition -> Token
  | enum definition => definition.name
  | type definition => definition.name

/-- The token that introduces the definition. -/
def keywordToken : Definition -> Token
  | enum definition => definition.keyword
  | type definition => definition.keyword

def keyword : Definition -> Keyword
  | enum _ => .enum
  | type _ => .type

def enum? : Definition -> Option EnumDefinition
  | enum definition => some definition
  | type _ => none

def type? : Definition -> Option TypeDefinition
  | type definition => some definition
  | enum _ => none

end Definition

/-- The array mark of a field as schema text. -/
def Field.arrayMark (field : Field) : String :=
  if field.isArray then "[]" else ""

/-- A field as schema text. -/
def Field.render (field : Field) : String :=
  let declared := s!"{field.typeName.text} {field.name.text}{field.arrayMark}"
  match field.defaultValue with
  | some value => s!"{declared} = {value.render}"
  | none => declared

/-- An enum is printed on one line. -/
def EnumDefinition.lines (definition : EnumDefinition) : List String :=
  let members := ", ".intercalate (definition.members.map Token.text)
  ["enum " ++ definition.name.text ++ " \x7b " ++ members ++ " \x7d"]

/-- A type is printed with one indented line for each field. -/
def TypeDefinition.lines (definition : TypeDefinition) : List String :=
  let title :=
    match definition.parent with
    | some parent => s!"type {definition.name.text} : {parent.text}"
    | none => s!"type {definition.name.text}"
  [title ++ " \x7b"] ++ definition.fields.map (fun field => "    " ++ field.render) ++ ["\x7d"]

/-- The lines of a printed definition. -/
def Definition.lines : Definition -> List String
  | enum definition => definition.lines
  | type definition => definition.lines

end TypeSchema
