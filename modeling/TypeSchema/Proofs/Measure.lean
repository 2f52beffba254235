import TypeSchema.Proofs.Encoding
import TypeSchema.Proofs.Lexeme

namespace TypeSchema

/-!
# Pieces of text measured in memory

A reader that works on bytes does not take characters off a text.  It looks at
the bytes ahead, decides how many of them make up the next comment or lexeme, and
has memory divided there.  Some of these numbers are counted byte by byte, some
are found by a search for a character or for a mark with a constant added, and
one is the width of a single character.  On the bytes of a text each of them is
the size of the comment or lexeme that stands at the front of its characters.
-/

open Encoding

/-- What is decided about the bytes ahead: the verdict on the next piece and its
length in bytes.  The search for its end may begin behind a fixed number of bytes,
for which memory is divided as well. -/
structure Measure where
  verdict : Except Fault Token.Kind
  length : Nat
  searchFrom : Option Nat := none

namespace Measure

/-- A line comment ends before the line feed, a block comment behind the first
closing mark that follows its two opening bytes. -/
def comment? (ahead : List UInt8) : Option Measure :=
  if peek ahead 0 = some '/' then
    match peek ahead 1 with
    | some '/' => some { verdict := .ok .lineComment, length := runLength (· != '\n') ahead }
    | some '*' =>
        match findMark? (Text.bytes Layout.closingMark) (ahead.drop 2) with
        | some stop =>
            some { verdict := .ok .blockComment, length := stop + 4, searchFrom := some 2 }
        | none =>
            some { verdict := .error .unterminatedComment, length := ahead.length, searchFrom := some 2 }
    | _ => none
  else
    none

/-- A string ends with the first quote behind its first byte, unless the line or
the text ends before. -/
def string (ahead : List UInt8) : Measure :=
  match (find? Lexeme.isStringEnd (ahead.drop 1)).map (· + 1) with
  | some stop =>
      if peek ahead stop = some '"' then
        { verdict := .ok .string, length := stop + 1, searchFrom := some 1 }
      else
        { verdict := .error .unterminatedString, length := stop, searchFrom := some 1 }
  | none => { verdict := .error .unterminatedString, length := ahead.length, searchFrom := some 1 }

/-- The number of bytes that go on with a number, and whether it has a point; a
second point ends it. -/
def digits (pointed : Bool) : List UInt8 -> Nat × Bool
  | [] => (0, pointed)
  | byte :: behind =>
      if (Char.ofUInt8 byte).isDigit then
        ((digits pointed behind).1 + 1, (digits pointed behind).2)
      else if Char.ofUInt8 byte = '.' ∧ pointed = false then
        ((digits true behind).1 + 1, (digits true behind).2)
      else
        (0, pointed)

/-- A number whose digits begin at the byte offset `start`. -/
def number (start : Nat) (ahead : List UInt8) : Measure :=
  { verdict := .ok (if (digits false (ahead.drop start)).2 then .float else .integer)
    length := start + (digits false (ahead.drop start)).1 }

/-- The character at the front, as wide as it is. -/
def unexpected (ahead : List UInt8) : Measure :=
  { verdict := .error .unexpectedCharacter, length := (front? ahead).elim 0 Char.utf8Size }

def isDigitAt (ahead : List UInt8) (offset : Nat) : Bool :=
  (peek ahead offset).any Char.isDigit

/-- A sign is taken with a digit that follows, or with a point and a digit. -/
def signed (ahead : List UInt8) : Measure :=
  if isDigitAt ahead 1 then number 1 ahead
  else if peek ahead 1 = some '.' ∧ isDigitAt ahead 2 then number 1 ahead
  else unexpected ahead

/-- A word goes on up to the first byte that does not belong to it. -/
def word (ahead : List UInt8) : Measure :=
  { verdict := .ok .word
    length := ahead.findIdx fun byte => !Lexeme.isWordPart (Char.ofUInt8 byte) }

def mark (kind : Token.Kind) (length : Nat) : Measure :=
  { verdict := .ok kind, length }

/-- The lexeme at the front, judged by a first byte that is no mark. -/
def unmarked (seen : Char) (ahead : List UInt8) : Measure :=
  if seen = '+' ∨ seen = '-' then signed ahead
  else if seen.isDigit ∨ seen = '.' then number 0 ahead
  else if Lexeme.isWordStart seen then word ahead
  else unexpected ahead

/-- The lexeme at the front, judged by the first byte. -/
def lexeme? (ahead : List UInt8) : Option Measure :=
  match peek ahead 0 with
  | none => none
  | some '"' => some (string ahead)
  | some '\x7b' => some (mark .openBrace 1)
  | some '\x7d' => some (mark .closeBrace 1)
  | some '[' => some (mark .openBracket 1)
  | some ']' => some (mark .closeBracket 1)
  | some '=' => some (mark .equals 1)
  | some ',' => some (mark .comma 1)
  | some ':' => if peek ahead 1 = some ':' then some (mark .scope 2) else some (mark .colon 1)
  | some seen => some (unmarked seen ahead)

/-- The measure of a lexeme that was taken off the characters. -/
def ofLexeme (lexeme : Lexeme) (searchFrom : Option Nat := none) : Measure :=
  { verdict := lexeme.verdict, length := Text.size lexeme.text, searchFrom }

/-! ## Comments -/

theorem peek_first {c : Char} (ascii : IsAscii c) (chars : List Char) :
    peek (Text.bytes (c :: chars)) 0 = some c :=
  (peek_eq_some_iff ascii).mpr rfl

theorem peek_second {first second : Char} (firstAscii : IsAscii first) (secondAscii : IsAscii second)
    (chars : List Char) : peek (Text.bytes (first :: second :: chars)) 1 = some second := by
  rw [peek_behind firstAscii, peek_first secondAscii]

theorem comment?_line (rest : List Char) :
    comment? (Text.bytes ('/' :: '/' :: rest)) =
      some { verdict := .ok .lineComment
             length := Text.size (Layout.Piece.lineComment (rest.takeWhile (· != '\n'))).chars } := by
  rw [comment?, if_pos (peek_first (by decide) _), peek_second (by decide) (by decide),
    runLength_bytes]
  rfl

theorem comment?_block (rest : List Char) :
    comment? (Text.bytes ('/' :: '*' :: rest)) =
      some (match Layout.untilClosed? rest with
        | some (body, _) =>
            { verdict := .ok .blockComment
              length := Text.size (Layout.Piece.blockComment body).chars
              searchFrom := some 2 }
        | none =>
            { verdict := .error .unterminatedComment
              length := Text.size ('/' :: '*' :: rest)
              searchFrom := some 2 }) := by
  have body : (Text.bytes ('/' :: '*' :: rest)).drop 2 = Text.bytes rest := drop_bytes ['/', '*'] rest
  rw [comment?, if_pos (peek_first (by decide) _), peek_second (by decide) (by decide)]
  simp only [body, findMark?_closingMark, Text.length_bytes]
  cases Layout.untilClosed? rest with
  | none => rfl
  | some parts =>
      have marks : Text.size (Layout.Piece.blockComment parts.1).chars = Text.size parts.1 + 4 := by
        have slash : '/'.utf8Size = 1 := rfl
        have star : '*'.utf8Size = 1 := rfl
        simp only [Layout.Piece.chars, Text.size_cons, Text.size_append, Text.size_nil]
        omega
      simp only [Option.map_some, marks]

/-- A comment has a first byte, and takes at least that. -/
theorem bounds_of_comment? {ahead : List UInt8} {measure : Measure}
    (commented : comment? ahead = some measure) : 0 < ahead.length ∧ 0 < measure.length := by
  rw [comment?] at commented
  split at commented
  · next slash =>
      have first := front?_of_peek (by decide) slash
      have begins : 0 < ahead.length := Nat.lt_of_le_of_lt (Nat.zero_le _) (remaining_lt_of_front? first)
      refine ⟨begins, ?_⟩
      split at commented
      · rw [← Option.some.inj commented]
        exact runLength_pos first rfl
      · split at commented
        · rw [← Option.some.inj commented]
          exact Nat.succ_pos _
        · rw [← Option.some.inj commented]
          exact begins
      · cases commented
  · cases commented

/-- No comment is taken where none begins. -/
theorem comment?_none {chars : List Char} (notLine : forall rest, chars ≠ '/' :: '/' :: rest)
    (notBlock : forall rest, chars ≠ '/' :: '*' :: rest) : comment? (Text.bytes chars) = none := by
  rw [comment?]
  split
  · next slash =>
      have ascii : IsAscii '/' := by decide
      rcases List.head?_eq_some_iff.mp ((peek_eq_some_iff ascii).mp slash) with ⟨behind, rfl⟩
      rw [peek_behind ascii]
      split
      · next again =>
          rcases List.head?_eq_some_iff.mp ((peek_eq_some_iff ascii).mp again) with ⟨rest, rfl⟩
          exact absurd rfl (notLine rest)
      · next star =>
          rcases List.head?_eq_some_iff.mp ((peek_eq_some_iff (by decide)).mp star) with ⟨rest, rfl⟩
          exact absurd rfl (notBlock rest)
      · rfl
  · rfl

/-! ## Lexemes -/

theorem isAscii_of_le {c : Char} {last : Char} (ascii : IsAscii last) (below : c.val ≤ last.val) :
    IsAscii c :=
  Nat.lt_of_le_of_lt (UInt32.le_iff_toNat_le.mp below) ascii

theorem onlyAscii_isDigit : OnlyAscii Char.isDigit := by
  intro c digit
  have below : c.val ≤ '9'.val := of_decide_eq_true (Bool.and_eq_true_iff.mp digit).2
  exact isAscii_of_le (by decide) below

theorem onlyAscii_isWordPart : OnlyAscii Lexeme.isWordPart := by
  intro c part
  rcases Bool.or_eq_true_iff.mp part with alphanumeric | underscore
  · rcases Bool.or_eq_true_iff.mp alphanumeric with letter | digit
    · rcases Bool.or_eq_true_iff.mp letter with upper | lower
      · have below : c.val ≤ 'Z'.val := (of_decide_eq_true upper).2
        exact isAscii_of_le (by decide) below
      · have below : c.val ≤ 'z'.val := of_decide_eq_true (Bool.and_eq_true_iff.mp lower).2
        exact isAscii_of_le (by decide) below
    · exact onlyAscii_isDigit c digit
  · rw [beq_iff_eq.mp underscore]
    decide

theorem isWordPart_of_start {c : Char} (starts : Lexeme.isWordStart c = true) :
    Lexeme.isWordPart c = true := by
  rcases Bool.or_eq_true_iff.mp starts with letter | underscore
  · simp [Lexeme.isWordPart, Char.isAlphanum, letter]
  · simp [Lexeme.isWordPart, underscore]

theorem onlyAscii_isWordStart : OnlyAscii Lexeme.isWordStart :=
  fun c starts => onlyAscii_isWordPart c (isWordPart_of_start starts)

theorem string_bytes (chars : List Char) :
    string (Text.bytes ('"' :: chars)) = ofLexeme (Lexeme.string chars) (some 1) := by
  have whole := List.takeWhile_append_dropWhile (p := fun c => !Lexeme.isStringEnd c) (l := chars)
  have behind : (Text.bytes ('"' :: chars)).drop 1 = Text.bytes chars := drop_bytes ['"'] chars
  rw [string, behind, find?_bytes, Lexeme.string]
  generalize chars.takeWhile (fun c => !Lexeme.isStringEnd c) = body at whole
  have opened : Text.size ('"' :: body) = Text.size body + 1 := Nat.add_comm ..
  cases stop : chars.dropWhile fun c => !Lexeme.isStringEnd c with
  | nil =>
      rw [stop, List.append_nil] at whole
      rw [whole, Text.length_bytes]
      rfl
  | cons c rest =>
      have place : peek (Text.bytes ('"' :: chars)) (Text.size body + 1) = some '"' <-> c = '"' := by
        have append := peek_append ('"' :: body) (c :: rest) 0
        rw [List.cons_append, ← stop, whole, Nat.add_zero, opened] at append
        rw [append, stop, peek_eq_some_iff (by decide), List.head?_cons, Option.some_inj]
      simp only [List.head?_cons, Option.map_some, place]
      split
      · next quote =>
          have closed : Text.size ('"' :: (body ++ ['"'])) = Text.size body + 1 + 1 := by
            rw [← List.cons_append, Text.size_append, opened]
            rfl
          rw [quote]
          simp only [ofLexeme, closed]
      · next other =>
          rw [ofLexeme]
          split
          · next same => exact absurd (List.cons.inj same).1 other
          · rw [opened]

theorem digits_cons (c : Char) (chars : List Char) (pointed : Bool) :
    digits pointed (Text.bytes (c :: chars)) =
      if c.isDigit then
        ((digits pointed (Text.bytes chars)).1 + 1, (digits pointed (Text.bytes chars)).2)
      else if c = '.' ∧ pointed = false then
        ((digits true (Text.bytes chars)).1 + 1, (digits true (Text.bytes chars)).2)
      else
        (0, pointed) := by
  by_cases ascii : IsAscii c
  · rw [bytes_cons, encoded_of_ascii ascii, List.singleton_append, digits, ofUInt8_toUInt8 ascii]
  · rcases exists_first_byte c with ⟨byte, others, encoded, sees⟩
    have noDigit := sees.test_eq onlyAscii_isDigit
    have point : Char.ofUInt8 byte = '.' <-> c = '.' := sees.eq_iff (by decide)
    rw [onlyAscii_isDigit.eq_false ascii] at noDigit
    have noPoint : c ≠ '.' := fun same => ascii (same ▸ by decide)
    rw [bytes_cons, encoded, List.cons_append, digits, noDigit, onlyAscii_isDigit.eq_false ascii]
    simp [point, noPoint]

theorem digits_append (pointed : Bool) {run : List Char} (areDigits : Lexeme.Digits run)
    (rest : List Char) :
    digits pointed (Text.bytes (run ++ rest)) =
      (Text.size run + (digits pointed (Text.bytes rest)).1, (digits pointed (Text.bytes rest)).2) := by
  induction run with
  | nil => rw [List.nil_append, Text.size_nil, Nat.zero_add]
  | cons c run ih =>
      have digit := areDigits c (List.mem_cons_self ..)
      have later := ih fun other member => areDigits other (List.mem_cons_of_mem c member)
      rw [List.cons_append, digits_cons, if_pos digit, later, Text.size_cons,
        width_of_ascii (onlyAscii_isDigit c digit), Nat.add_comm 1, Nat.add_right_comm]

theorem digits_of_ends {pointed : Bool} {rest : List Char}
    (ends : Lexeme.Ends (if pointed then .float else .integer) rest) :
    digits pointed (Text.bytes rest) = (0, pointed) := by
  cases rest with
  | nil => rfl
  | cons c rest =>
      have stops := ends c rfl
      cases pointed with
      | true =>
          have noDigit : c.isDigit = false := stops
          rw [digits_cons, noDigit]
          simp
      | false =>
          have noNumber : (c.isDigit || c == '.') = false := stops
          rw [Bool.or_eq_false_iff, beq_eq_false_iff_ne] at noNumber
          rw [digits_cons, noNumber.1]
          simp [noNumber.2]

theorem number_bytes (sign chars : List Char) :
    number (Text.size sign) (Text.bytes (sign ++ chars)) = ofLexeme (Lexeme.number sign chars) := by
  rw [number, drop_bytes]
  rcases Lexeme.exists_number_tail chars with
    ⟨more, behind, rfl, ⟨areDigits, ends⟩ | ⟨run, fraction, rfl, runDigits, fractionDigits, ends⟩⟩
  · have stop : digits false (Text.bytes behind) = (0, false) := digits_of_ends ends
    rw [digits_append false areDigits, stop, Lexeme.number_integer sign areDigits ends, ofLexeme,
      Text.size_append]
    rfl
  · have stop : digits true (Text.bytes behind) = (0, true) := digits_of_ends ends
    have point : digits false (Text.bytes ('.' :: (fraction ++ behind))) =
        (Text.size fraction + 1, true) := by
      rw [digits_cons, if_neg (by decide), if_pos (by decide), digits_append true fractionDigits, stop]
      rfl
    rw [List.append_assoc, List.cons_append, digits_append false runDigits, point,
      Lexeme.number_float sign runDigits fractionDigits ends, ofLexeme, Text.size_append,
      Text.size_append, Text.size_cons, Nat.add_comm (Text.size fraction)]
    rfl

theorem unexpected_bytes (c : Char) (chars : List Char) :
    unexpected (Text.bytes (c :: chars)) = ofLexeme (Lexeme.unexpected c chars) := by
  rw [unexpected, bytes_cons, front?_encoded]
  rfl

theorem isDigitAt_front (chars : List Char) :
    isDigitAt (Text.bytes chars) 0 = chars.head?.any Char.isDigit := by
  cases chars with
  | nil => rfl
  | cons c chars =>
      rcases peek_front c chars with ⟨seen, found, sees⟩
      rw [isDigitAt, found, Option.any_some, List.head?_cons, Option.any_some,
        sees.test_eq onlyAscii_isDigit]

theorem isDigitAt_behind {c : Char} (ascii : IsAscii c) (chars : List Char) (offset : Nat) :
    isDigitAt (Text.bytes (c :: chars)) (offset + 1) = isDigitAt (Text.bytes chars) offset := by
  rw [isDigitAt, peek_behind ascii, isDigitAt]

/-- Whether a sign belongs to a number is seen by the two bytes behind it. -/
theorem startsNumber_iff {chars : List Char} :
    Lexeme.startsNumber chars = true <->
      isDigitAt (Text.bytes chars) 0 = true ∨
        peek (Text.bytes chars) 0 = some '.' ∧ isDigitAt (Text.bytes chars) 1 = true := by
  have point : IsAscii '.' := by decide
  rw [isDigitAt_front, peek_eq_some_iff point]
  unfold Lexeme.startsNumber
  split
  · next c rest =>
      have noDigit : '.'.isDigit = false := by decide
      rw [isDigitAt_behind point, isDigitAt_front]
      simp [noDigit]
  · next c rest noFraction =>
      constructor
      · intro digit
        exact Or.inl digit
      · rintro (digit | ⟨isPoint, digit⟩)
        · exact digit
        · have same : c = '.' := Option.some.inj isPoint
          rw [same, isDigitAt_behind point, isDigitAt_front] at digit
          cases rest with
          | nil => cases digit
          | cons second rest => exact absurd rfl (noFraction second rest same)
  · simp

theorem signed_bytes {sign : Char} (ascii : IsAscii sign) (chars : List Char) :
    signed (Text.bytes (sign :: chars)) =
      ofLexeme (if Lexeme.startsNumber chars then Lexeme.number [sign] chars
        else Lexeme.unexpected sign chars) := by
  have taken := number_bytes [sign] chars
  rw [Text.size_cons, width_of_ascii ascii] at taken
  rw [signed, isDigitAt_behind ascii, isDigitAt_behind ascii, peek_behind ascii]
  by_cases starts : Lexeme.startsNumber chars = true
  · rw [if_pos starts]
    split
    · exact taken
    · next noDigit =>
        rw [if_pos ((startsNumber_iff.mp starts).resolve_left noDigit)]
        exact taken
  · rw [if_neg starts]
    rw [startsNumber_iff, not_or] at starts
    rw [if_neg starts.1, if_neg starts.2, unexpected_bytes]

theorem word_bytes {c : Char} (starts : Lexeme.isWordStart c = true) (chars : List Char) :
    word (Text.bytes (c :: chars)) = ofLexeme (Lexeme.word c chars) := by
  rw [word, findIdx_bytes onlyAscii_isWordPart, List.takeWhile_cons_of_pos (isWordPart_of_start starts)]
  rfl

/-- What is read where no mark, no string and no comment begins. -/
def readUnmarked (c : Char) (chars : List Char) : Lexeme :=
  if c = '+' ∨ c = '-' then
    if Lexeme.startsNumber chars then Lexeme.number [c] chars else Lexeme.unexpected c chars
  else if c.isDigit ∨ c = '.' then Lexeme.number [] (c :: chars)
  else if Lexeme.isWordStart c then Lexeme.word c chars
  else Lexeme.unexpected c chars

theorem unmarked_bytes {c seen : Char} (sees : SeenAs c seen) (chars : List Char) :
    unmarked seen (Text.bytes (c :: chars)) = ofLexeme (readUnmarked c chars) := by
  have plus : seen = '+' <-> c = '+' := sees.eq_iff (by decide)
  have minus : seen = '-' <-> c = '-' := sees.eq_iff (by decide)
  have point : seen = '.' <-> c = '.' := sees.eq_iff (by decide)
  simp only [unmarked, plus, minus, point, sees.test_eq onlyAscii_isDigit,
    sees.test_eq onlyAscii_isWordStart]
  rw [readUnmarked]
  split
  · next isSign =>
      apply signed_bytes
      rcases isSign with rfl | rfl <;> decide
  · split
    · exact number_bytes [] (c :: chars)
    · split
      · next starts => exact word_bytes starts chars
      · exact unexpected_bytes c chars

theorem read_colon {chars : List Char} (alone : forall rest, chars ≠ ':' :: rest) :
    Lexeme.read ':' chars = Lexeme.mark .colon ':' chars := by
  simp only [Lexeme.read]

theorem read_unmarked {c : Char} {chars : List Char}
    (noMark : c ∉ ['"', '\x7b', '\x7d', '[', ']', '=', ',', ':'])
    (notBlock : forall rest, c :: chars ≠ '/' :: '*' :: rest) :
    Lexeme.read c chars = readUnmarked c chars := by
  unfold Lexeme.read
  split
  all_goals try exact absurd (by decide) noMark
  · split
    · next rest => exact absurd rfl (notBlock rest)
    · rfl
  · rfl

/-- The lexeme that is measured on the bytes is the one read from the characters,
unless that is an opening comment mark. -/
theorem lexeme?_bytes {c : Char} {chars : List Char}
    (notBlock : forall rest, c :: chars ≠ '/' :: '*' :: rest) :
    lexeme? (Text.bytes (c :: chars)) =
      some (ofLexeme (Lexeme.read c chars) (if c = '"' then some 1 else none)) := by
  rcases peek_front c chars with ⟨seen, found, sees⟩
  have marked : forall {mark}, IsAscii mark -> some seen = some mark -> c = mark :=
    fun ascii same => (sees.eq_iff ascii).mp (Option.some.inj same)
  rw [lexeme?, found]
  split
  case h_1 impossible => cases impossible
  case h_2 same =>
    rw [marked (by decide) same, string_bytes]
    rfl
  case h_9 same =>
    rw [marked (by decide) same, peek_behind (by decide)]
    by_cases scope : peek (Text.bytes chars) 0 = some ':'
    · rcases List.head?_eq_some_iff.mp ((peek_eq_some_iff (by decide)).mp scope) with ⟨rest, rfl⟩
      rw [if_pos scope]
      rfl
    · rw [if_neg scope]
      have alone : forall rest, chars ≠ ':' :: rest := by
        rintro rest rfl
        exact scope (peek_first (by decide) rest)
      rw [read_colon alone]
      rfl
  case h_10 other noQuote _ _ _ _ _ _ _ same =>
    cases same
    have noMark : c ∉ ['"', '\x7b', '\x7d', '[', ']', '=', ',', ':'] := by
      intro member
      simp only [List.mem_cons, List.not_mem_nil, or_false] at member
      rcases member with rfl | rfl | rfl | rfl | rfl | rfl | rfl | rfl
      all_goals exact absurd ((sees.eq_iff (by decide)).mpr rfl) ‹_›
    have quoteless : c ≠ '"' := fun quote => noMark (quote ▸ List.mem_cons_self ..)
    rw [unmarked_bytes sees, read_unmarked noMark notBlock, if_neg quoteless]
  -- What is left are the marks of a single character.
  all_goals
    next same =>
      rw [marked (by decide) same]
      rfl

end Measure
end TypeSchema
