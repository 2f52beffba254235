import TypeSchema.Token

namespace TypeSchema

/-!
# Lexemes

A lexeme is the next piece of a text behind its layout.  `Lexeme.read` either
recognises it as a token kind or names the fault that prevents this; in both
cases it says which text it took and what follows, and the text it took is
never empty.  A fault takes a whole character, the string up to its line end,
or the comment up to the end of the text, so reading can go on behind it.
-/

/-- What can be wrong with a piece of text. -/
inductive Fault where
  | unexpectedCharacter
  | unterminatedString
  | unterminatedComment
  deriving DecidableEq, Repr

namespace Fault

def message : Fault -> String
  | unexpectedCharacter => "unexpected character"
  | unterminatedString => "unterminated string"
  | unterminatedComment => "unterminated block comment"

/-- The kind of token that carries the faulty text. -/
def kind : Fault -> Token.Kind
  | unexpectedCharacter => .invalid
  | unterminatedString => .string
  | unterminatedComment => .unclosedComment

end Fault

/-- A piece of text, the verdict on it, and what follows it. -/
structure Lexeme where
  verdict : Except Fault Token.Kind
  text : List Char
  rest : List Char

namespace Lexeme

/-- The kind of the token that carries the lexeme. -/
def kind (lexeme : Lexeme) : Token.Kind :=
  match lexeme.verdict with
  | .ok kind => kind
  | .error fault => fault.kind

/-- Words start with an ASCII letter or an underscore. -/
def isWordStart (c : Char) : Bool :=
  c.isAlpha || c == '_'

/-- Words go on with ASCII letters, digits and underscores. -/
def isWordPart (c : Char) : Bool :=
  c.isAlphanum || c == '_'

/-- The characters that end a string, or break it off. -/
def isStringEnd (c : Char) : Bool :=
  c == '"' || c == '\r' || c == '\n'

/-- A single-line string.  It has no escapes, so the next quote closes it;
the text of `chars` follows the opening quote. -/
def string (chars : List Char) : Lexeme :=
  let body := chars.takeWhile fun c => !isStringEnd c
  match chars.dropWhile fun c => !isStringEnd c with
  | '"' :: rest => { verdict := .ok .string, text := '"' :: (body ++ ['"']), rest }
  | rest => { verdict := .error .unterminatedString, text := '"' :: body, rest }

/-- Digits with at most one decimal point among them, behind an optional
sign.  The point makes the number a float; a second point is left alone. -/
def number (sign chars : List Char) : Lexeme :=
  let whole := chars.takeWhile Char.isDigit
  match chars.dropWhile Char.isDigit with
  | '.' :: behind =>
      { verdict := .ok .float
        text := sign ++ (whole ++ '.' :: behind.takeWhile Char.isDigit)
        rest := behind.dropWhile Char.isDigit }
  | rest => { verdict := .ok .integer, text := sign ++ whole, rest }

/-- Whether a sign may stand before this text: a digit follows, or a point and
a digit. -/
def startsNumber : List Char -> Bool
  | '.' :: c :: _ => c.isDigit
  | c :: _ => c.isDigit
  | [] => false

def word (c : Char) (chars : List Char) : Lexeme :=
  { verdict := .ok .word
    text := c :: chars.takeWhile isWordPart
    rest := chars.dropWhile isWordPart }

/-- One character that starts no token. -/
def unexpected (c : Char) (chars : List Char) : Lexeme :=
  { verdict := .error .unexpectedCharacter, text := [c], rest := chars }

/-- A mark of one character. -/
def mark (kind : Token.Kind) (c : Char) (chars : List Char) : Lexeme :=
  { verdict := .ok kind, text := [c], rest := chars }

/-- Read the lexeme at the front of the text `c :: chars`, which must not
start with layout.  An opening comment mark found here is never closed. -/
def read (c : Char) (chars : List Char) : Lexeme :=
  match c with
  | '"' => string chars
  | '\x7b' => mark .openBrace c chars
  | '\x7d' => mark .closeBrace c chars
  | '[' => mark .openBracket c chars
  | ']' => mark .closeBracket c chars
  | '=' => mark .equals c chars
  | ',' => mark .comma c chars
  | ':' =>
      match chars with
      | ':' :: rest => { verdict := .ok .scope, text := [':', ':'], rest }
      | _ => mark .colon c chars
  | '/' =>
      match chars with
      | '*' :: _ => { verdict := .error .unterminatedComment, text := c :: chars, rest := [] }
      | _ => unexpected c chars
  | _ =>
      if c = '+' ∨ c = '-' then
        if startsNumber chars then number [c] chars else unexpected c chars
      else if c.isDigit ∨ c = '.' then number [] (c :: chars)
      else if isWordStart c then word c chars
      else unexpected c chars

theorem string_whole (chars : List Char) :
    (string chars).text ++ (string chars).rest = '"' :: chars := by
  have whole := List.takeWhile_append_dropWhile (p := fun c => !isStringEnd c) (l := chars)
  simp only [string]
  split
  · next rest found =>
      rw [found] at whole
      simpa using whole
  · simp [whole]

theorem number_whole (sign chars : List Char) :
    (number sign chars).text ++ (number sign chars).rest = sign ++ chars := by
  have whole := List.takeWhile_append_dropWhile (p := Char.isDigit) (l := chars)
  simp only [number]
  split
  · next behind found =>
      rw [found] at whole
      have tail := List.takeWhile_append_dropWhile (p := Char.isDigit) (l := behind)
      simp only [List.append_assoc, List.cons_append, tail, whole]
  · next rest found =>
      simp only [List.append_assoc, whole]

/-- A lexeme and what follows it make up the text. -/
theorem read_whole (c : Char) (chars : List Char) :
    (read c chars).text ++ (read c chars).rest = c :: chars := by
  have wordWhole := List.takeWhile_append_dropWhile (p := isWordPart) (l := chars)
  unfold read
  split
  · exact string_whole chars
  all_goals try rfl
  · split <;> rfl
  · split <;> simp [unexpected]
  · split
    · split
      · exact number_whole [c] chars
      · rfl
    · split
      · exact number_whole [] (c :: chars)
      · split
        · simp [word, wordWhole]
        · rfl

theorem number_text_ne_nil {c : Char} (starts : c.isDigit = true ∨ c = '.') (chars : List Char) :
    (number [] (c :: chars)).text ≠ [] := by
  simp only [number]
  split
  · simp
  · next rest plain =>
      by_cases digit : c.isDigit = true
      · simp [digit]
      · have point : c = '.' := starts.resolve_left digit
        subst point
        exact absurd (List.dropWhile_cons_of_neg digit) (plain chars)

/-- A lexeme takes at least one character. -/
theorem read_text_ne_nil (c : Char) (chars : List Char) : (read c chars).text ≠ [] := by
  unfold read
  split
  · simp only [string]
    split <;> simp
  all_goals try simp [mark]
  · split <;> simp
  · split <;> simp [unexpected]
  · split
    · split
      · simp only [number]
        split <;> simp
      · simp [unexpected]
    · split
      · next starts => exact number_text_ne_nil starts chars
      · split <;> simp [word, unexpected]

theorem length_read_rest_lt (c : Char) (chars : List Char) :
    (read c chars).rest.length < (c :: chars).length := by
  have whole := congrArg List.length (read_whole c chars)
  have taken := List.length_pos_iff.2 (read_text_ne_nil c chars)
  rw [List.length_append] at whole
  omega

end Lexeme
end TypeSchema
