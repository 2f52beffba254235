import TypeSchema.Numeral
import TypeSchema.Token

namespace TypeSchema

/-!
# Values

A field may have a default value: a literal, a reference to a member of an
enum, or a brace-enclosed list of values.  In a list a value may carry a name,
which makes it an assignment.  A list gets its shape once its last child is
known: it is empty, an array of unnamed children, or an object of named ones.

Values keep the tokens they were read from.  A literal is therefore read only
on demand, by the accessors of `Scalar`; each accessor answers for the kinds
it fits and for no other.
-/

namespace Scalar

/-- The kinds of literals. -/
inductive Kind where
  | bool
  | int
  | float
  | string
  deriving DecidableEq, Repr

def Kind.name : Kind -> String
  | bool => "bool"
  | int => "int"
  | float => "float"
  | string => "string"

/-- The text between a leading and a trailing quote.  One quote alone is not
enough. -/
def unquote? (text : String) : Option String :=
  match text.toList with
  | '"' :: rest =>
      if rest.getLast? = some '"' then some (String.ofList rest.dropLast) else none
  | _ => none

end Scalar

/-- A literal and the token it was read from. -/
structure Scalar where
  kind : Scalar.Kind
  token : Token
  deriving DecidableEq, Repr

namespace Scalar

/-- The truth value of a boolean literal. -/
def bool? (scalar : Scalar) : Option Bool :=
  match scalar.kind with
  | .bool => some (scalar.token.text == "true")
  | _ => none

/-- The value of an integer literal, if it fits into 64 bits. -/
def integer? (scalar : Scalar) : Option Int :=
  match scalar.kind with
  | .int => Numeral.integer? scalar.token.text
  | _ => none

/-- The double nearest to a number.  Integers count as numbers too. -/
def float? (scalar : Scalar) : Option Float :=
  match scalar.kind with
  | .int | .float => Numeral.float? scalar.token.text
  | _ => none

/-- The contents of a string literal, without its quotes. -/
def string? (scalar : Scalar) : Option String :=
  match scalar.kind with
  | .string => unquote? scalar.token.text
  | _ => none

end Scalar

/-- What a list of values is: empty, unnamed children, or named children. -/
inductive Shape where
  | unit
  | array
  | object
  deriving DecidableEq, Repr

/-- The tag of a shape in trace output. -/
def Shape.tag : Shape -> String
  | unit => "Unit"
  | array => "Array"
  | object => "Object"

/-- A default value, possibly nested. -/
inductive Value where
  | scalar (literal : Scalar)
  | reference (enumName member : Token)
  | assignment (name : Token) (value : Value)
  | compound (opening closing : Token) (shape : Shape) (children : List Value)
  deriving Repr

namespace Value

/-- The coarse classification by which the children of a list must agree. -/
inductive Kind where
  | scalar (kind : Scalar.Kind)
  | reference
  | assignment
  | compound
  deriving DecidableEq, Repr

def Kind.name : Kind -> String
  | scalar kind => kind.name
  | reference => "enum value"
  | assignment => "field value"
  | compound => "compound value"

def kind : Value -> Kind
  | scalar literal => .scalar literal.kind
  | reference _ _ => .reference
  | assignment _ _ => .assignment
  | compound _ _ _ _ => .compound

/-- The first token of a value. -/
def token : Value -> Token
  | scalar literal => literal.token
  | reference enumName _ => enumName
  | assignment name _ => name
  | compound opening _ _ _ => opening

/-- The first child whose kind differs from that of the first child of all,
together with that kind. -/
def mismatch? : List Value -> Option (Kind × Value)
  | [] => none
  | first :: others =>
      (others.find? fun value => value.kind != first.kind).map fun other => (first.kind, other)

/-- The shape of a list whose children agree in kind. -/
def shapeOf : List Value -> Shape
  | [] => .unit
  | first :: _ => if first.kind = .assignment then .object else .array

mutual

/-- A value as schema text. -/
def render : Value -> String
  | scalar literal => literal.token.text
  | reference enumName member => s!"{enumName.text}::{member.text}"
  | assignment name value => name.text ++ " = " ++ value.render
  | compound _ _ _ [] => "\x7b\x7d"
  | compound _ _ _ (first :: others) =>
      "\x7b " ++ ", ".intercalate (first.render :: renderAll others) ++ " \x7d"

/-- Every value of a list as schema text. -/
def renderAll : List Value -> List String
  | [] => []
  | value :: values => value.render :: renderAll values

end

theorem renderAll_eq_map (values : List Value) : renderAll values = values.map render := by
  induction values with
  | nil => rw [renderAll, List.map_nil]
  | cons value values ih => rw [renderAll, ih, List.map_cons]

end Value
end TypeSchema
