import TypeSchema.Layout
import TypeSchema.Lexeme

namespace TypeSchema

/-!
# Scans

A scan is the progress made in cutting a text into tokens: the text still
ahead, its byte offset, the comments passed so far and the warnings raised so
far.  One step passes over the layout ahead and reads one lexeme.  A lexical
error takes the faulty text away, so the scan can go on behind it.

The only policy is a limit on the length of words.  A word over the limit is
warned about and kept as it is; no other result depends on the limit.
-/

/-- A piece of text that is no token, and what is wrong with it. -/
structure LexicalError where
  fault : Fault
  token : Token
  deriving DecidableEq, Repr

namespace Scan

/-- A word that exceeds the limit on word lengths. -/
structure Warning where
  limit : Nat
  token : Token
  deriving DecidableEq, Repr

def Warning.message (warning : Warning) : String :=
  s!"word too long (over {warning.limit} characters)"

/-- What one step of a scan finds. -/
abbrev Item := Except LexicalError Token

end Scan

/-- The progress of a scan. -/
structure Scan where
  rest : List Char
  offset : Nat := 0
  limit : Option Nat := none
  lineComments : Nat := 0
  blockComments : Nat := 0
  warnings : List Scan.Warning := []

namespace Scan

/-- A scan at the start of a text. -/
def start (text : String) (limit : Option Nat := none) : Scan :=
  { rest := text.toList, limit }

/-- The number of bytes still ahead. -/
def remaining (scan : Scan) : Nat :=
  Text.size scan.rest

/-- The warning that a token deserves under a limit. -/
def Warning.of? (limit : Option Nat) (token : Token) : Option Warning :=
  match limit with
  | none => none
  | some limit => if token.kind = .word ∧ limit < token.size then some { limit, token } else none

/-- Pass over the layout ahead and count its comments. -/
def skipLayout (scan : Scan) : Scan :=
  let (pieces, rest) := Layout.split scan.rest
  { scan with
    rest
    offset := scan.offset + Text.size (Layout.chars pieces)
    lineComments := scan.lineComments + pieces.countP Layout.Piece.isLineComment
    blockComments := scan.blockComments + pieces.countP Layout.Piece.isBlockComment }

/-- The token that carries a lexeme at a byte offset. -/
def tokenOf (lexeme : Lexeme) (offset : Nat) : Token :=
  { kind := lexeme.kind, text := String.ofList lexeme.text, start := offset }

/-- What a lexeme at a byte offset contributes to the scan. -/
def itemOf (lexeme : Lexeme) (offset : Nat) : Item :=
  match lexeme.verdict with
  | .ok _ => .ok (tokenOf lexeme offset)
  | .error fault => .error { fault, token := tokenOf lexeme offset }

/-- Move behind a lexeme that stands at the front. -/
def pass (scan : Scan) (lexeme : Lexeme) : Scan :=
  { scan with
    rest := lexeme.rest
    offset := scan.offset + Text.size lexeme.text
    warnings := scan.warnings ++
      (Warning.of? scan.limit (tokenOf lexeme scan.offset)).toList }

/-- One step: the item behind the layout ahead, if the text does not end
there, and the scan behind it. -/
def next (scan : Scan) : Option Item × Scan :=
  let ready := scan.skipLayout
  match ready.rest with
  | [] => (none, ready)
  | c :: chars =>
      let lexeme := Lexeme.read c chars
      (some (itemOf lexeme ready.offset), ready.pass lexeme)

theorem length_skipLayout_le (scan : Scan) :
    scan.skipLayout.rest.length ≤ scan.rest.length :=
  Layout.length_split_le scan.rest

/-- Every item leaves less text ahead. -/
theorem length_lt_of_next {scan after : Scan} {item : Item}
    (found : scan.next = (some item, after)) : after.rest.length < scan.rest.length := by
  have skipped := scan.length_skipLayout_le
  simp only [next] at found
  split at found
  · simp at found
  · next c chars ahead =>
      have shorter := Lexeme.length_read_rest_lt c chars
      rw [ahead] at skipped
      rw [← (Prod.mk.inj found).2]
      exact Nat.lt_of_lt_of_le shorter skipped

/-- All remaining items, going on behind lexical errors. -/
def drain (scan : Scan) : List Item × Scan :=
  match found : scan.next with
  | (none, last) => ([], last)
  | (some item, after) =>
      have := length_lt_of_next found
      let (items, last) := drain after
      (item :: items, last)
termination_by scan.rest.length

/-- The tokens up to the end of the text or the first lexical error, that
error, and the scan behind it. -/
structure Run where
  tokens : List Token
  error : Option LexicalError
  last : Scan

/-- Scan up to the end of the text or the first lexical error. -/
def run (scan : Scan) : Run :=
  match found : scan.next with
  | (none, last) => { tokens := [], error := none, last }
  | (some (.error error), last) => { tokens := [], error := some error, last }
  | (some (.ok token), after) =>
      have := length_lt_of_next found
      let behind := run after
      { behind with tokens := token :: behind.tokens }
termination_by scan.rest.length

/-- The tokens of a run without a lexical error. -/
def Run.result (run : Run) : Except LexicalError (List Token) :=
  match run.error with
  | none => .ok run.tokens
  | some error => .error error

/-- The tokens of a whole text. -/
def tokens (text : String) : Except LexicalError (List Token) :=
  (start text).run.result

end Scan
end TypeSchema
