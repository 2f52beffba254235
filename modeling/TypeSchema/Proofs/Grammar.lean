import TypeSchema.Definition

namespace TypeSchema

/-!
# The grammar of definitions

The rules say which lists of tokens spell a value, a field or a definition,
and which tree they spell.  They look at kinds alone, except for the two
keywords and the two truth values.  What is asked of the names in a definition,
and of the kinds of the children in a list of values, is asked of the tree
afterwards and is no part of the rules.

The tree of a list of values carries the shape that its children suggest, even
if they do not agree in kind.
-/

namespace Grammar

variable {α : Type}

/-- Items one after another, each with any number of commas behind it. -/
inductive Listing (item : List Token -> α -> Prop) : List Token -> List α -> Prop where
  | nil : Listing item [] []
  | cons {taken commas behind : List Token} {value : α} {values : List α} :
      item taken value ->
      (forall token, token ∈ commas -> token.kind = .comma) ->
      Listing item behind values ->
      Listing item (taken ++ (commas ++ behind)) (value :: values)

/-- The words that are literals. -/
def IsTruthValue (text : String) : Prop :=
  text = "true" ∨ text = "false"

/-- The literal that a single token is. -/
inductive IsLiteral : Token -> Scalar.Kind -> Prop where
  | bool {token : Token} : token.kind = .word -> IsTruthValue token.text -> IsLiteral token .bool
  | int {token : Token} : token.kind = .integer -> IsLiteral token .int
  | float {token : Token} : token.kind = .float -> IsLiteral token .float
  | string {token : Token} : token.kind = .string -> IsLiteral token .string

mutual

/-- The tokens spell a value. -/
inductive SpellsValue : List Token -> Value -> Prop where
  | literal {token : Token} {kind : Scalar.Kind} : IsLiteral token kind ->
      SpellsValue [token] (.scalar { kind, token })
  | reference {enumName scope member : Token} : enumName.kind = .word ->
      ¬ IsTruthValue enumName.text -> scope.kind = .scope -> member.kind = .word ->
      SpellsValue [enumName, scope, member] (.reference enumName member)
  | compound {opening closing : Token} {body : List Token} {children : List Value} :
      opening.kind = .openBrace -> Listing SpellsChild body children ->
      closing.kind = .closeBrace ->
      SpellsValue (opening :: (body ++ [closing]))
        (.compound opening closing (Value.shapeOf children) children)

/-- The tokens spell a child of a list of values. -/
inductive SpellsChild : List Token -> Value -> Prop where
  | assignment {name equals : Token} {taken : List Token} {value : Value} :
      name.kind = .word -> equals.kind = .equals -> SpellsValue taken value ->
      SpellsChild (name :: equals :: taken) (.assignment name value)
  | value {taken : List Token} {value : Value} :
      SpellsValue taken value -> SpellsChild taken value

end

inductive SpellsArrayMark : List Token -> Bool -> Prop where
  | absent : SpellsArrayMark [] false
  | present {opening closing : Token} : opening.kind = .openBracket ->
      closing.kind = .closeBracket -> SpellsArrayMark [opening, closing] true

inductive SpellsDefault : List Token -> Option Value -> Prop where
  | absent : SpellsDefault [] none
  | present {equals : Token} {taken : List Token} {value : Value} :
      equals.kind = .equals -> SpellsValue taken value ->
      SpellsDefault (equals :: taken) (some value)

/-- The tokens spell a field of a type. -/
inductive SpellsField : List Token -> Field -> Prop where
  | field {typeName name : Token} {mark initial : List Token} {isArray : Bool}
      {defaultValue : Option Value} :
      typeName.kind = .word -> name.kind = .word -> SpellsArrayMark mark isArray ->
      SpellsDefault initial defaultValue ->
      SpellsField (typeName :: name :: (mark ++ initial)) { typeName, name, isArray, defaultValue }

/-- A member of an enum is a word. -/
inductive SpellsMember : List Token -> Token -> Prop where
  | member {token : Token} : token.kind = .word -> SpellsMember [token] token

inductive SpellsParent : List Token -> Option Token -> Prop where
  | absent : SpellsParent [] none
  | present {colon parent : Token} : colon.kind = .colon -> parent.kind = .word ->
      SpellsParent [colon, parent] (some parent)

/-- The tokens spell a definition. -/
inductive SpellsDefinition : List Token -> Definition -> Prop where
  | enum {keyword name opening closing : Token} {body members : List Token} :
      keyword.kind = .word -> keyword.text = "enum" -> name.kind = .word ->
      opening.kind = .openBrace -> Listing SpellsMember body members -> members ≠ [] ->
      closing.kind = .closeBrace ->
      SpellsDefinition (keyword :: name :: opening :: (body ++ [closing]))
        (.enum { keyword, name, members })
  | type {keyword name opening closing : Token} {ancestry body : List Token}
      {parent : Option Token} {fields : List Field} :
      keyword.kind = .word -> keyword.text = "type" -> name.kind = .word ->
      SpellsParent ancestry parent -> opening.kind = .openBrace ->
      Listing SpellsField body fields -> closing.kind = .closeBrace ->
      SpellsDefinition (keyword :: name :: (ancestry ++ opening :: (body ++ [closing])))
        (.type { keyword, name, parent, fields })

theorem SpellsValue.kind_ne_assignment {taken : List Token} {value : Value}
    (spelled : SpellsValue taken value) : value.kind ≠ .assignment := by
  cases spelled <;> simp [Value.kind]

theorem SpellsChild.value_of_kind {taken : List Token} {value : Value}
    (spelled : SpellsChild taken value) (unnamed : value.kind ≠ .assignment) :
    SpellsValue taken value := by
  cases spelled with
  | assignment => exact absurd rfl unnamed
  | value inner => exact inner

/-! ## Induction

The rules for values pass through listings.  A property of spelled values that
is inherited from the children of a list is a property of all.
-/

theorem Listing.mono {left right : List Token -> α -> Prop}
    (implies : forall taken value, left taken value -> right taken value) {body : List Token}
    {values : List α} (listing : Listing left body values) : Listing right body values := by
  induction listing with
  | nil => exact .nil
  | cons spelled commas _ ih => exact .cons (implies _ _ spelled) commas ih

/-- A property of literals and references, and of assignments and lists whose
parts have it. -/
structure Hereditary (property : List Token -> Value -> Prop) : Prop where
  literal : forall {token kind}, IsLiteral token kind -> property [token] (.scalar { kind, token })
  reference : forall {enumName scope member}, enumName.kind = .word ->
    ¬ IsTruthValue enumName.text -> scope.kind = .scope -> member.kind = .word ->
    property [enumName, scope, member] (.reference enumName member)
  assignment : forall {name equals taken value}, name.kind = .word -> equals.kind = .equals ->
    SpellsValue taken value -> property taken value ->
    property (name :: equals :: taken) (.assignment name value)
  compound : forall {opening closing body children}, opening.kind = .openBrace ->
    Listing (fun taken child => SpellsChild taken child ∧ property taken child) body children ->
    closing.kind = .closeBrace ->
    property (opening :: (body ++ [closing]))
      (.compound opening closing (Value.shapeOf children) children)

mutual

theorem Hereditary.value {property : List Token -> Value -> Prop} (hereditary : Hereditary property)
    {taken : List Token} {value : Value} (derived : SpellsValue taken value) :
    property taken value :=
  match derived with
  | .literal literal => hereditary.literal literal
  | .reference word plain scope member => hereditary.reference word plain scope member
  | .compound opens listing closes => hereditary.compound opens (hereditary.children listing) closes

theorem Hereditary.child {property : List Token -> Value -> Prop} (hereditary : Hereditary property)
    {taken : List Token} {value : Value} (derived : SpellsChild taken value) :
    property taken value :=
  match derived with
  | .assignment word equals inner =>
      hereditary.assignment word equals inner (hereditary.value inner)
  | .value inner => hereditary.value inner

theorem Hereditary.children {property : List Token -> Value -> Prop}
    (hereditary : Hereditary property) {body : List Token} {values : List Value}
    (derived : Listing SpellsChild body values) :
    Listing (fun taken child => SpellsChild taken child ∧ property taken child) body values :=
  match derived with
  | .nil => .nil
  | .cons spelled commas later =>
      .cons ⟨spelled, hereditary.child spelled⟩ commas (hereditary.children later)

end

/-! ## How items begin

What stands behind an item is a comma, the closing brace, or the beginning of
the next item.  None of these continues the item before it.
-/

/-- The kinds of tokens with which an item of some list begins. -/
def Begins (kind : Token.Kind) : Prop :=
  kind = .word ∨ kind = .integer ∨ kind = .float ∨ kind = .string ∨ kind = .openBrace

theorem SpellsValue.begins {taken : List Token} {value : Value} (spelled : SpellsValue taken value) :
    Exists fun first => Exists fun behind => taken = first :: behind ∧ Begins first.kind := by
  cases spelled with
  | literal literal =>
      refine ⟨_, _, rfl, ?_⟩
      cases literal with
      | bool kind => simp [Begins, kind]
      | int kind => simp [Begins, kind]
      | float kind => simp [Begins, kind]
      | string kind => simp [Begins, kind]
  | reference word plain scope member => exact ⟨_, _, rfl, by simp [Begins, word]⟩
  | compound opens body closes => exact ⟨_, _, rfl, by simp [Begins, opens]⟩

theorem SpellsChild.begins {taken : List Token} {value : Value} (spelled : SpellsChild taken value) :
    Exists fun first => Exists fun behind => taken = first :: behind ∧ Begins first.kind := by
  cases spelled with
  | assignment word equals inner => exact ⟨_, _, rfl, by simp [Begins, word]⟩
  | value inner => exact inner.begins

theorem SpellsField.begins {taken : List Token} {field : Field} (spelled : SpellsField taken field) :
    Exists fun first => Exists fun behind => taken = first :: behind ∧ Begins first.kind := by
  cases spelled with
  | field word name mark initial => exact ⟨_, _, rfl, by simp [Begins, word]⟩

theorem SpellsMember.begins {taken : List Token} {member : Token}
    (spelled : SpellsMember taken member) :
    Exists fun first => Exists fun behind => taken = first :: behind ∧ Begins first.kind := by
  cases spelled with
  | member word => exact ⟨_, _, rfl, by simp [Begins, word]⟩

theorem SpellsDefinition.begins {taken : List Token} {definition : Definition}
    (spelled : SpellsDefinition taken definition) :
    Exists fun first => Exists fun behind => taken = first :: behind := by
  cases spelled with
  | enum => exact ⟨_, _, rfl⟩
  | type => exact ⟨_, _, rfl⟩

end Grammar

/-! ## What is asked of a tree -/

/-- In every list of values, however deep, all children have one kind. -/
inductive Value.Uniform : Value -> Prop where
  | scalar (literal : Scalar) : Uniform (.scalar literal)
  | reference (enumName member : Token) : Uniform (.reference enumName member)
  | assignment {name : Token} {value : Value} : Uniform value -> Uniform (.assignment name value)
  | compound {opening closing : Token} {shape : Shape} {children : List Value} :
      (forall left, left ∈ children -> forall right, right ∈ children -> left.kind = right.kind) ->
      (forall child, child ∈ children -> Uniform child) ->
      Uniform (.compound opening closing shape children)

/-- A name says something if one of its bytes is no underscore. -/
def IsTelling (text : String) : Prop :=
  Exists fun byte => byte ∈ Text.bytes text.toList ∧ byte ≠ '_'.toUInt8

structure EnumDefinition.Admissible (definition : EnumDefinition) : Prop where
  distinct : (definition.members.map Token.text).Nodup
  telling : forall member, member ∈ definition.members -> IsTelling member.text

structure TypeDefinition.Admissible (definition : TypeDefinition) : Prop where
  foreign : forall parent, parent ∈ definition.parent -> parent.text ≠ definition.name.text
  distinct : (definition.fields.map fun field => field.name.text).Nodup
  telling : forall field, field ∈ definition.fields -> IsTelling field.name.text
  uniform : forall field, field ∈ definition.fields ->
    forall value, value ∈ field.defaultValue -> value.Uniform

/-- The names and the values of a definition are as they have to be. -/
def Definition.Admissible : Definition -> Prop
  | enum definition => definition.Admissible
  | type definition => definition.Admissible

end TypeSchema
