import TypeSchema.Text

namespace TypeSchema

/-!
# Tokens

A token is a piece of schema text together with what it was recognised as and
where it starts.  The start is a byte address in the memory that holds the
text, so that two tokens with the same spelling are still told apart; the
relation `Token.Alike` forgets it and compares kind and spelling alone.
-/

namespace Token

/-- What a piece of text was recognised as.  The last five kinds mark faulty
text, comments and the end of the text; no grammar rule accepts them. -/
inductive Kind where
  | word
  | integer
  | float
  | string
  | openBrace
  | closeBrace
  | openBracket
  | closeBracket
  | equals
  | scope
  | colon
  | comma
  | invalid
  | lineComment
  | unclosedComment
  | blockComment
  | endOfInput
  deriving DecidableEq, Repr

namespace Kind

/-- Every kind, in the order of declaration. -/
def all : List Kind :=
  [word, integer, float, string, openBrace, closeBrace, openBracket, closeBracket, equals,
    scope, colon, comma, invalid, lineComment, unclosedComment, blockComment, endOfInput]

/-- The tag of a kind in trace output. -/
def tag : Kind -> String
  | word => "Word"
  | integer => "Integer"
  | float => "Float"
  | string => "String"
  | openBrace => "LBrace"
  | closeBrace => "RBrace"
  | openBracket => "LBracket"
  | closeBracket => "RBracket"
  | equals => "Equals"
  | scope => "Scope"
  | colon => "Colon"
  | comma => "Comma"
  | invalid => "Invalid"
  | lineComment => "LineComment"
  | unclosedComment => "OpenComment"
  | blockComment => "CloseComment"
  | endOfInput => "EndOfInput"

/-- The name of a kind in diagnostics. -/
def description : Kind -> String
  | word => "identifier"
  | integer => "integer"
  | float => "float"
  | string => "string"
  | openBrace => "open brace"
  | closeBrace => "close brace"
  | openBracket => "open bracket"
  | closeBracket => "close bracket"
  | equals => "equals"
  | scope => "scope operator"
  | colon => "colon"
  | comma => "comma"
  | invalid => "invalid character"
  | lineComment => "line comment"
  | unclosedComment => "unterminated comment"
  | blockComment => "block comment"
  | endOfInput => "end of input"

/-- The kind that carries a tag. -/
def ofTag? (name : String) : Option Kind :=
  all.find? fun kind => kind.tag == name

/-- Tags identify kinds. -/
theorem ofTag?_tag (kind : Kind) : ofTag? kind.tag = some kind := by
  cases kind <;> decide +kernel

end Kind
end Token

/-- A piece of schema text, what it is, and the address of its first byte. -/
structure Token where
  kind : Token.Kind
  text : String
  start : Nat := 0
  deriving DecidableEq, Repr

namespace Token

/-- The number of bytes of the token's text. -/
def size (token : Token) : Nat :=
  token.text.utf8ByteSize

theorem size_eq (token : Token) : token.size = Text.size token.text.toList :=
  (Text.size_toList token.text).symm

/-- The address just behind the token's last byte. -/
def stop (token : Token) : Nat :=
  token.start + token.size

/-- Two tokens are alike when they have one kind and one spelling, wherever
they stand. -/
def Alike (left right : Token) : Prop :=
  left.kind = right.kind ∧ left.text = right.text

instance (left right : Token) : Decidable (Alike left right) :=
  inferInstanceAs (Decidable (_ ∧ _))

/-- Whether the token is of the given kind. -/
def is (token : Token) (kind : Kind) : Bool :=
  token.kind = kind

@[simp] theorem is_iff (token : Token) (kind : Kind) : token.is kind = true <-> token.kind = kind := by
  simp [is]

/-- Whether the token is a word with exactly this spelling. -/
def isWord (token : Token) (spelling : String) : Bool :=
  token.kind = .word ∧ token.text = spelling

@[simp] theorem isWord_iff (token : Token) (spelling : String) :
    token.isWord spelling = true <-> token.kind = .word ∧ token.text = spelling := by
  simp [isWord]

/-- The token as a phrase.  The end of the text has no spelling to show. -/
def render (token : Token) : String :=
  match token.kind with
  | .endOfInput => "end of input"
  | kind => s!"{kind.description} '{token.text}'"

end Token
end TypeSchema
