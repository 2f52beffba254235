import TypeSchema.Definition
import TypeSchema.Scan

namespace TypeSchema

/-!
# Diagnostics

A diagnostic is the cause of a failure together with the constructions around
it, from the outermost inwards.  Causes are data: they name the tokens they
are about, and the wording is fixed in one place.  The category and the token
to blame are read off the cause.  A cause without a token to blame is the end
of the tokens in the middle of a construction.
-/

/-- The broad class of a failure. -/
inductive Category where
  | lexical
  | syntactic
  | semantic
  deriving DecidableEq, Repr

/-- A category as it stands in a report. -/
def Category.render : Category -> String
  | lexical => "lexical error"
  | syntactic => "syntax error"
  | semantic => "semantic error"

/-- A place where the grammar asks for a name. -/
inductive NameSlot where
  | definition (keyword : Keyword)
  | parent
  | field
  | referenceMember
  deriving DecidableEq, Repr

/-- What the name stands for. -/
def NameSlot.subject : NameSlot -> String
  | definition keyword => s!"{keyword.text} name"
  | parent => "parent type name"
  | field => "field name"
  | referenceMember => "enum member name"

/-- What stands before the name. -/
def NameSlot.predecessor : NameSlot -> String
  | definition keyword => s!"'{keyword.text}' keyword"
  | parent => "colon"
  | field => "field type name"
  | referenceMember => "scope operator ('::')"

/-- A brace-enclosed list of the grammar. -/
inductive BraceList where
  | enumMembers
  | typeMembers
  | compoundValues
  deriving DecidableEq, Repr

def BraceList.label : BraceList -> String
  | enumMembers => "enum member"
  | typeMembers => "type member"
  | compoundValues => "compound value"

/-- Why a text is no schema. -/
inductive Cause where
  | lexical (error : LexicalError)
  | notAKeyword (word : Token)
  | unmatchedBrace (brace : Token)
  | notADefinition (token : Token)
  | nameExpected (slot : NameSlot) (found : Option Token)
  | memberExpected (found : Token)
  | fieldExpected (found : Token)
  | braceExpected (keyword : Keyword) (found : Option Token)
  | typeBodyExpected (name : Token) (found : Option Token)
  | unclosedList (list : BraceList)
  | defaultMissing (field : Token)
  | unclosedBracket
  | assignmentMissing (name : Token)
  | valueExpected (found : Token)
  | noMembers (name : Token)
  | duplicateMember (member : Token)
  | blankMember (member : Token)
  | ownParent (name parent : Token)
  | duplicateField (field : Token)
  | blankField (field : Token)
  | sizedArray (bracket found : Token)
  | mixedCompound (expected actual : Value.Kind) (child : Token)
  | duplicateDefinition (name : Token)
  deriving DecidableEq, Repr

namespace Cause

def category : Cause -> Category
  | lexical _ => .lexical
  | notAKeyword _ | unmatchedBrace _ | notADefinition _ | nameExpected _ _ | memberExpected _
  | fieldExpected _ | braceExpected _ _ | typeBodyExpected _ _ | unclosedList _
  | defaultMissing _ | unclosedBracket | assignmentMissing _ | valueExpected _ => .syntactic
  | noMembers _ | duplicateMember _ | blankMember _ | ownParent _ _ | duplicateField _
  | blankField _ | sizedArray _ _ | mixedCompound _ _ _ | duplicateDefinition _ => .semantic

/-- The token to blame.  An array with a size blames the size, if that is an
integer, and the opening bracket otherwise. -/
def token? : Cause -> Option Token
  | lexical error => some error.token
  | notAKeyword token | unmatchedBrace token | notADefinition token | memberExpected token
  | fieldExpected token | valueExpected token | noMembers token | duplicateMember token
  | blankMember token | ownParent _ token | duplicateField token | blankField token
  | mixedCompound _ _ token | duplicateDefinition token => some token
  | nameExpected _ found | braceExpected _ found | typeBodyExpected _ found => found
  | unclosedList _ | defaultMissing _ | unclosedBracket | assignmentMissing _ => none
  | sizedArray bracket found => some (if found.is .integer then found else bracket)

/-- The opening of every message about the end of the tokens. -/
def endOfTokens : String := "unexpected end of input"

/-- The wording of a cause. -/
def message : Cause -> String
  | lexical error => error.fault.message
  | notAKeyword word => s!"expected either 'enum' or 'type'; got '{word.text}'"
  | unmatchedBrace _ => "unmatched close-brace at top-level, did you add too many \x7ds?"
  | notADefinition token =>
      s!"unexpected '{token.text}' at top-level, expecting keywords 'enum' or 'type'"
  | nameExpected slot none => s!"{endOfTokens} after {slot.predecessor}"
  | nameExpected slot (some found) =>
      s!"expected {slot.subject} after {slot.predecessor}, got '{found.text}'"
  | memberExpected found =>
      s!"expected member name (identifier), or '\x7d' after enum member list, got '{found.text}'"
  | fieldExpected found =>
      s!"expected field type name, or '\x7d' after type definition, got '{found.text}'"
  | braceExpected keyword none =>
      s!"{endOfTokens} after {keyword.text} name, expected open brace ('\x7b')"
  | braceExpected keyword (some found) =>
      s!"expected open brace ('\x7b') after {keyword.text} name, got '{found.text}'"
  | typeBodyExpected _ none => s!"{endOfTokens} after type name, expected ':' or '\x7b'"
  | typeBodyExpected name (some found) =>
      s!"unexpected {found.kind.description} after type name ({name.text}), " ++
        "expected ':' or '\x7b'"
  | unclosedList list => s!"{endOfTokens} during {list.label} list, expected '\x7d'"
  | defaultMissing field =>
      s!"{endOfTokens} after '=', expected default value for '{field.text}'"
  | unclosedBracket => s!"{endOfTokens} after open bracket ('[')"
  | assignmentMissing name => s!"{endOfTokens} after field assignment ('{name.text} =')"
  | valueExpected found =>
      "expected a string, number, boolean, enum::label, array, or object; " ++
        s!"got {found.kind.description} '{found.text}'"
  | noMembers name =>
      s!"enum '{name.text}' has no members: enums must have at least one member"
  | duplicateMember member => s!"duplicate enum member, '{member.text}'"
  | blankMember member => s!"invalid enum member name, '{member.text}'"
  | ownParent name _ => s!"type {name.text} cannot have itself as a parent"
  | duplicateField field => s!"duplicate field, '{field.text}'"
  | blankField field => s!"invalid field name, '{field.text}'"
  | sizedArray _ found =>
      s!"expected close bracket (']') after open bracket ('['), got '{found.text}': " ++
        "arrays are dynamic and cannot have a fixed size"
  | mixedCompound expected actual _ =>
      s!"invalid compound mixes types ({expected.name} and {actual.name})"
  | duplicateDefinition name => s!"duplicate definition, '{name.text}' redefinition"

end Cause

/-- A construction whose body is being read. -/
inductive Context where
  | definition (keyword : Keyword) (name : Token)
  | compound
  deriving DecidableEq, Repr

def Context.label : Context -> String
  | definition keyword name => s!"{keyword.text} '{name.text}'"
  | compound => "compound value"

/-- A cause and the constructions around it, the outermost first. -/
structure Diagnostic where
  context : List Context := []
  cause : Cause
  deriving DecidableEq, Repr

namespace Diagnostic

/-- The same failure, seen from a construction that encloses it. -/
def within (diagnostic : Diagnostic) (context : Context) : Diagnostic :=
  { diagnostic with context := context :: diagnostic.context }

def category (diagnostic : Diagnostic) : Category :=
  diagnostic.cause.category

def token? (diagnostic : Diagnostic) : Option Token :=
  diagnostic.cause.token?

/-- The wording of a diagnostic: every context, then the cause. -/
def message (diagnostic : Diagnostic) : String :=
  diagnostic.context.foldr (fun context text => context.label ++ ": " ++ text)
    diagnostic.cause.message

theorem message_cons (around : Context) (context : List Context) (cause : Cause) :
    message { context := around :: context, cause } =
      around.label ++ ": " ++ message { context, cause } :=
  rfl

end Diagnostic
end TypeSchema
