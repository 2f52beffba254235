import TypeSchema.Token

namespace TypeSchema

/-!
# Buffers and locations

A buffer is a stretch of memory that holds schema text.  A token may lie
inside it, outside it or across its border, because both are addressed in the
same memory.  Only a token that lies inside has an offset in the buffer, and
with it a line and a column.  Lines are separated by line feeds alone, and
both numbers start at one and count bytes.
-/

/-- A position in a buffer, as a byte offset and as line and column. -/
structure Location where
  offset : Nat
  line : Nat
  column : Nat
  deriving DecidableEq, Repr

/-- A location as it stands in a report. -/
def Location.render (location : Location) : String :=
  s!"{location.line}:{location.column}"

/-- A stretch of memory that holds text, beginning at address `base`. -/
structure Buffer where
  text : String
  base : Nat := 0
  deriving DecidableEq, Repr

namespace Buffer

/-- The byte that separates lines. -/
def lineFeed : UInt8 := 10

/-- The bytes held by the buffer. -/
def bytes (buffer : Buffer) : List UInt8 :=
  Text.bytes buffer.text.toList

/-- The number of bytes held by the buffer. -/
def size (buffer : Buffer) : Nat :=
  buffer.text.utf8ByteSize

theorem size_eq_length_bytes (buffer : Buffer) : buffer.size = buffer.bytes.length := by
  rw [bytes, Text.length_bytes, Text.size_toList, size]

/-- The offset of a token that lies inside the buffer. -/
def offset? (buffer : Buffer) (token : Token) : Option Nat :=
  if buffer.base ≤ token.start ∧ token.stop ≤ buffer.base + buffer.size then
    some (token.start - buffer.base)
  else
    none

/-- The location of a byte offset.  The line is one more than the number of
line feeds before it; the column is one more than the number of bytes that
follow the last of them. -/
def locationAt (buffer : Buffer) (offset : Nat) : Location :=
  let before := buffer.bytes.take offset
  { offset
    line := before.count lineFeed + 1
    column := (before.reverse.takeWhile (· != lineFeed)).length + 1 }

/-- The location of a token that lies inside the buffer. -/
def locate? (buffer : Buffer) (token : Token) : Option Location :=
  (buffer.offset? token).map buffer.locationAt

/-- The part of a buffer between two byte offsets, in the same memory.  Both
offsets must fall between characters. -/
def slice? (buffer : Buffer) (first last : Nat) : Option Buffer := do
  let (_, after) <- Text.divide? first buffer.text.toList
  let (inside, _) <- Text.divide? (last - first) after
  return { text := String.ofList inside, base := buffer.base + first }

/-- The whole buffer taken as one token. -/
def token (buffer : Buffer) (kind : Token.Kind) : Token :=
  { kind, text := buffer.text, start := buffer.base }

theorem offset?_eq_some_iff (buffer : Buffer) (token : Token) (offset : Nat) :
    buffer.offset? token = some offset <->
      buffer.base ≤ token.start ∧ token.stop ≤ buffer.base + buffer.size ∧
        offset = token.start - buffer.base := by
  simp only [offset?]
  split
  · next inside => simp [inside, eq_comm]
  · next outside =>
      constructor
      · intro impossible
        cases impossible
      · intro inside
        exact absurd ⟨inside.1, inside.2.1⟩ outside

end Buffer
end TypeSchema
