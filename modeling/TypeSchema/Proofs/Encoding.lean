import TypeSchema.Proofs.Layout

namespace TypeSchema
namespace Encoding

/-!
# Bytes that encode a text

A text in memory is a run of bytes, and whoever cuts it names byte offsets.  A
division is refused where the offset lies behind the end or does not belong to
the first byte of a character.  On the bytes of a text this is exactly the
division of its characters.  Some of the searches below decode one character
after the other.  Others look at single bytes; that they find what the same search
finds among the characters rests on one fact: a character outside ASCII is encoded
without a single byte of ASCII.
-/

/-- The bytes are valid UTF-8. -/
def IsValid (memory : List UInt8) : Prop :=
  memory.toByteArray.IsValidUTF8

/-- Whether an offset is that of a character's first byte, or of the end. -/
def isBoundary (memory : List UInt8) (offset : Nat) : Bool :=
  match memory[offset]? with
  | some byte => decide byte.IsUTF8FirstByte
  | none => decide (offset = memory.length)

/-- Divide memory after its first `offset` bytes.  Inside a character or behind
the end, the division is refused. -/
def divide? (offset : Nat) (memory : List UInt8) : Option (List UInt8 × List UInt8) :=
  if isBoundary memory offset then some (memory.take offset, memory.drop offset) else none

/-- The character whose encoding stands at the front. -/
def front? (memory : List UInt8) : Option Char :=
  memory.toByteArray.utf8DecodeChar? 0

theorem remaining_lt_of_front? {memory : List UInt8} {c : Char} (found : front? memory = some c) :
    memory.length - c.utf8Size < memory.length := by
  have fits : 0 + c.utf8Size ≤ memory.toByteArray.size :=
    ByteArray.le_size_of_utf8DecodeChar?_eq_some found
  have positive := c.utf8Size_pos
  rw [List.size_toByteArray] at fits
  omega

/-- The offset of the first character that passes a test. -/
def find? (test : Char -> Bool) (memory : List UInt8) : Option Nat :=
  match found : front? memory with
  | none => none
  | some c =>
      have := remaining_lt_of_front? found
      if test c then some 0 else (find? test (memory.drop c.utf8Size)).map (· + c.utf8Size)
termination_by memory.length

/-- The number of bytes up to the first character that fails a test. -/
def runLength (test : Char -> Bool) (memory : List UInt8) : Nat :=
  (find? (fun c => !test c) memory).getD memory.length

/-- The offset of the first place where the bytes of a mark stand. -/
def findMark? (mark : List UInt8) : List UInt8 -> Option Nat
  | [] => if mark.isEmpty then some 0 else none
  | byte :: behind =>
      if mark.isPrefixOf (byte :: behind) then some 0 else (findMark? mark behind).map (· + 1)

/-- The byte at an offset, taken as the character with this number. -/
def peek (memory : List UInt8) (offset : Nat) : Option Char :=
  memory[offset]?.map Char.ofUInt8

/-! ## Valid bytes -/

theorem isValid_bytes (chars : List Char) : IsValid (Text.bytes chars) :=
  ByteArray.isValidUTF8_utf8Encode

theorem isValid_iff {memory : List UInt8} :
    IsValid memory <-> Exists fun chars => memory = Text.bytes chars := by
  constructor
  · rintro ⟨chars, same⟩
    exact ⟨chars, List.toByteArray_inj.mp same⟩
  · rintro ⟨chars, rfl⟩
    exact isValid_bytes chars

theorem bytes_cons (c : Char) (chars : List Char) :
    Text.bytes (c :: chars) = String.utf8EncodeChar c ++ Text.bytes chars :=
  rfl

/-! ## Divisions -/

theorem isBoundary_encoded {c : Char} {offset : Nat} (inside : offset < c.utf8Size)
    (behind : List UInt8) :
    isBoundary (String.utf8EncodeChar c ++ behind) offset = decide (offset = 0) := by
  have present : offset < (String.utf8EncodeChar c).length := by
    rwa [String.length_utf8EncodeChar]
  rw [isBoundary, List.getElem?_append_left present, List.getElem?_eq_getElem present]
  simp only [UInt8.isUTF8FirstByte_getElem_utf8EncodeChar]

theorem isBoundary_behind (c : Char) (behind : List UInt8) (offset : Nat) :
    isBoundary (String.utf8EncodeChar c ++ behind) (c.utf8Size + offset) = isBoundary behind offset := by
  have width := String.length_utf8EncodeChar c
  rw [isBoundary, isBoundary, List.getElem?_append_right (by omega), List.length_append, width,
    Nat.add_sub_cancel_left]
  simp only [Nat.add_left_cancel_iff]

theorem isBoundary_zero (chars : List Char) : isBoundary (Text.bytes chars) 0 = true := by
  cases chars with
  | nil => rfl
  | cons c chars =>
      rw [bytes_cons, isBoundary_encoded c.utf8Size_pos]
      rfl

theorem divide?_behind (c : Char) (behind : List UInt8) (offset : Nat) :
    divide? (c.utf8Size + offset) (String.utf8EncodeChar c ++ behind) =
      (divide? offset behind).map fun (before, after) => (String.utf8EncodeChar c ++ before, after) := by
  rw [divide?, divide?, isBoundary_behind, ← String.length_utf8EncodeChar c,
    List.take_length_add_append, List.drop_length_add_append]
  split <;> rfl

/-- The bytes of a text are divided where its characters are, and nowhere else. -/
theorem divide?_bytes (offset : Nat) (chars : List Char) :
    divide? offset (Text.bytes chars) =
      (Text.divide? offset chars).map fun (before, after) => (Text.bytes before, Text.bytes after) := by
  induction chars generalizing offset with
  | nil => cases offset <;> rfl
  | cons c chars ih =>
      cases offset with
      | zero =>
          rw [divide?, if_pos (isBoundary_zero _)]
          rfl
      | succ offset =>
          rw [Text.divide?, bytes_cons]
          split
          · next fits =>
              have later := ih (offset + 1 - c.utf8Size)
              rcases Nat.exists_eq_add_of_le fits with ⟨more, whole⟩
              rw [whole, Nat.add_sub_cancel_left] at later ⊢
              rw [divide?_behind, later, Option.map_map, Option.map_map]
              rfl
          · next tooFar =>
              rw [divide?, isBoundary_encoded (Nat.lt_of_not_le tooFar)]
              rfl

example : divide? 1 (Text.bytes ['é']) = none := by
  decide

theorem divide?_bytes_append (before after : List Char) :
    divide? (Text.size before) (Text.bytes (before ++ after)) =
      some (Text.bytes before, Text.bytes after) := by
  rw [divide?_bytes, Text.divide?_append]
  rfl

theorem drop_bytes (before after : List Char) :
    (Text.bytes (before ++ after)).drop (Text.size before) = Text.bytes after := by
  rw [Text.bytes_append, ← Text.length_bytes, List.drop_left]

/-! ## Characters of ASCII -/

/-- The character is encoded by the one byte that is its number. -/
def IsAscii (c : Char) : Prop :=
  c.toNat < 128

instance (c : Char) : Decidable (IsAscii c) :=
  inferInstanceAs (Decidable (c.toNat < 128))

theorem encoded_of_ascii {c : Char} (ascii : IsAscii c) : String.utf8EncodeChar c = [c.toUInt8] := by
  apply String.utf8EncodeChar_eq_singleton
  rw [Char.utf8Size_eq_one_iff, UInt32.le_iff_toNat_le]
  exact Nat.le_of_lt_succ ascii

theorem width_of_ascii {c : Char} (ascii : IsAscii c) : c.utf8Size = 1 := by
  rw [← String.length_utf8EncodeChar, encoded_of_ascii ascii, List.length_singleton]

theorem ofUInt8_toUInt8 {c : Char} (ascii : IsAscii c) : Char.ofUInt8 c.toUInt8 = c := by
  apply Char.toNat_inj.mp
  have small : c.toNat % 256 = c.toNat := Nat.mod_eq_of_lt (Nat.lt_trans ascii (by decide))
  exact small

/-- No byte of a character outside ASCII is the number of a character in it. -/
theorem not_ascii_of_mem_encoded {c : Char} (wide : ¬ IsAscii c) {byte : UInt8}
    (member : byte ∈ String.utf8EncodeChar c) : ¬ IsAscii (Char.ofUInt8 byte) := by
  have number : (Char.ofUInt8 byte).toNat = byte.toNat := rfl
  have value : c.val.toNat = c.toNat := rfl
  rw [IsAscii] at wide ⊢
  rw [number]
  simp only [String.utf8EncodeChar, value] at member
  -- The first byte has a mark of its own for each width, all others have the same.
  split at member
  · omega
  · split at member
    · simp only [List.mem_cons, List.not_mem_nil, or_false] at member
      rcases member with rfl | rfl <;> rw [UInt8.toNat_ofNat'] <;> omega
    · split at member
      · simp only [List.mem_cons, List.not_mem_nil, or_false] at member
        rcases member with rfl | rfl | rfl <;> rw [UInt8.toNat_ofNat'] <;> omega
      · simp only [List.mem_cons, List.not_mem_nil, or_false] at member
        rcases member with rfl | rfl | rfl | rfl <;> rw [UInt8.toNat_ofNat'] <;> omega

/-- What is seen of a character by one byte: itself, or something outside ASCII
in place of something outside ASCII. -/
def SeenAs (c seen : Char) : Prop :=
  seen = c ∨ ¬ IsAscii c ∧ ¬ IsAscii seen

/-- The first byte of a character. -/
theorem exists_first_byte (c : Char) :
    Exists fun byte => Exists fun others =>
      String.utf8EncodeChar c = byte :: others ∧ SeenAs c (Char.ofUInt8 byte) := by
  by_cases ascii : IsAscii c
  · exact ⟨c.toUInt8, [], encoded_of_ascii ascii, Or.inl (ofUInt8_toUInt8 ascii)⟩
  · rcases List.exists_cons_of_length_pos (String.length_utf8EncodeChar c ▸ c.utf8Size_pos) with
      ⟨byte, others, encoded⟩
    refine ⟨byte, others, encoded, Or.inr ⟨ascii, ?_⟩⟩
    exact not_ascii_of_mem_encoded ascii (encoded ▸ List.mem_cons_self ..)

/-- Only characters of ASCII pass the test. -/
def OnlyAscii (test : Char -> Bool) : Prop :=
  forall c, test c = true -> IsAscii c

theorem OnlyAscii.eq_false {test : Char -> Bool} (onlyAscii : OnlyAscii test) {c : Char}
    (wide : ¬ IsAscii c) : test c = false :=
  Bool.eq_false_iff.mpr fun passes => wide (onlyAscii c passes)

/-- A test for characters of ASCII can be made on the first byte. -/
theorem SeenAs.test_eq {c seen : Char} (sees : SeenAs c seen) {test : Char -> Bool}
    (onlyAscii : OnlyAscii test) : test seen = test c := by
  rcases sees with rfl | ⟨wide, seenWide⟩
  · rfl
  · rw [onlyAscii.eq_false wide, onlyAscii.eq_false seenWide]

theorem SeenAs.eq_iff {c seen mark : Char} (sees : SeenAs c seen) (ascii : IsAscii mark) :
    seen = mark <-> c = mark := by
  have onlyMark : OnlyAscii (· == mark) := fun _ same => beq_iff_eq.mp same ▸ ascii
  have same := sees.test_eq onlyMark
  rwa [Bool.eq_iff_iff, beq_iff_eq, beq_iff_eq] at same

theorem peek_front (c : Char) (chars : List Char) :
    Exists fun seen => peek (Text.bytes (c :: chars)) 0 = some seen ∧ SeenAs c seen := by
  rcases exists_first_byte c with ⟨byte, others, encoded, sees⟩
  refine ⟨Char.ofUInt8 byte, ?_, sees⟩
  rw [peek, bytes_cons, encoded]
  rfl

theorem peek_append (before after : List Char) (offset : Nat) :
    peek (Text.bytes (before ++ after)) (Text.size before + offset) = peek (Text.bytes after) offset := by
  rw [peek, peek, Text.bytes_append, ← Text.length_bytes,
    List.getElem?_append_right (Nat.le_add_right ..), Nat.add_sub_cancel_left]

theorem peek_behind {c : Char} (ascii : IsAscii c) (chars : List Char) (offset : Nat) :
    peek (Text.bytes (c :: chars)) (offset + 1) = peek (Text.bytes chars) offset := by
  have behind := peek_append [c] chars offset
  rwa [Text.size_cons, width_of_ascii ascii, Text.size_nil, Nat.add_zero, Nat.add_comm] at behind

theorem peek_eq_some_iff {mark : Char} (ascii : IsAscii mark) {chars : List Char} :
    peek (Text.bytes chars) 0 = some mark <-> chars.head? = some mark := by
  cases chars with
  | nil => exact Iff.rfl
  | cons c chars =>
      rcases peek_front c chars with ⟨seen, found, sees⟩
      rw [found, List.head?_cons, Option.some_inj, Option.some_inj, sees.eq_iff ascii]

/-- Counting bytes up to the first that fails a test for ASCII characters is
counting the bytes of the characters up to the first that fails it. -/
theorem findIdx_bytes {test : Char -> Bool} (onlyAscii : OnlyAscii test) (chars : List Char) :
    (Text.bytes chars).findIdx (fun byte => !test (Char.ofUInt8 byte)) =
      Text.size (chars.takeWhile test) := by
  induction chars with
  | nil => rfl
  | cons c chars ih =>
      cases passes : test c with
      | true =>
          have ascii := onlyAscii c passes
          rw [bytes_cons, encoded_of_ascii ascii, List.singleton_append, List.findIdx_cons,
            ofUInt8_toUInt8 ascii, passes, ih, List.takeWhile_cons_of_pos passes, Text.size_cons,
            width_of_ascii ascii, Nat.add_comm]
          rfl
      | false =>
          rcases exists_first_byte c with ⟨byte, others, encoded, sees⟩
          rw [bytes_cons, encoded, List.cons_append, List.findIdx_cons, sees.test_eq onlyAscii, passes,
            List.takeWhile_cons_of_neg (Bool.eq_false_iff.mp passes)]
          rfl

/-! ## Searches by characters -/

theorem front?_encoded (c : Char) (behind : List UInt8) :
    front? (String.utf8EncodeChar c ++ behind) = some c := by
  rw [front?, List.toByteArray_append]
  exact ByteArray.utf8DecodeChar?_utf8EncodeChar_append

theorem find?_nil (test : Char -> Bool) : find? test [] = none := by
  rw [find?]
  rfl

theorem find?_of_front? {memory : List UInt8} {c : Char} (found : front? memory = some c)
    (test : Char -> Bool) :
    find? test memory =
      if test c then some 0 else (find? test (memory.drop c.utf8Size)).map (· + c.utf8Size) := by
  rw [find?]
  split
  · next nothing =>
      rw [found] at nothing
      cases nothing
  · next other same =>
      rw [found] at same
      cases same
      rfl

theorem find?_encoded (test : Char -> Bool) (c : Char) (behind : List UInt8) :
    find? test (String.utf8EncodeChar c ++ behind) =
      if test c then some 0 else (find? test behind).map (· + c.utf8Size) := by
  have rest : (String.utf8EncodeChar c ++ behind).drop c.utf8Size = behind := by
    rw [← String.length_utf8EncodeChar c, List.drop_left]
  rw [find?_of_front? (front?_encoded c behind), rest]

/-- What is found in the bytes is the first character that passes the test. -/
theorem find?_bytes (test : Char -> Bool) (chars : List Char) :
    find? test (Text.bytes chars) =
      (chars.dropWhile fun c => !test c).head?.map fun _ =>
        Text.size (chars.takeWhile fun c => !test c) := by
  induction chars with
  | nil => exact find?_nil test
  | cons c chars ih =>
      rw [bytes_cons, find?_encoded]
      cases passes : test c with
      | true => simp [passes]
      | false =>
          rw [List.dropWhile_cons_of_pos (by simp [passes]), List.takeWhile_cons_of_pos (by simp [passes]),
            if_neg Bool.false_ne_true, ih, Option.map_map]
          congr 1
          funext _
          exact Nat.add_comm ..

theorem runLength_bytes (test : Char -> Bool) (chars : List Char) :
    runLength test (Text.bytes chars) = Text.size (chars.takeWhile test) := by
  have whole := List.takeWhile_append_dropWhile (p := test) (l := chars)
  rw [runLength, find?_bytes, Text.length_bytes]
  simp only [Bool.not_not]
  cases stop : chars.dropWhile test with
  | nil =>
      rw [stop, List.append_nil] at whole
      rw [whole]
      rfl
  | cons c rest => rfl

/-- A byte of ASCII at the front is a character. -/
theorem front?_of_peek {memory : List UInt8} {c : Char} (ascii : IsAscii c)
    (seen : peek memory 0 = some c) : front? memory = some c := by
  cases memory with
  | nil => cases seen
  | cons byte behind =>
      have same : Char.ofUInt8 byte = c := Option.some.inj seen
      have encoded : String.utf8EncodeChar c = [byte] := by
        rw [encoded_of_ascii ascii, ← same]
        exact congrArg (fun other => [other]) (UInt8.toUInt8_toUInt32 byte)
      rw [← List.singleton_append, ← encoded]
      exact front?_encoded c behind

theorem runLength_nil (test : Char -> Bool) : runLength test [] = 0 := by
  rw [runLength, find?_nil]
  rfl

theorem runLength_pos {memory : List UInt8} {c : Char} (found : front? memory = some c)
    {test : Char -> Bool} (passes : test c = true) : 0 < runLength test memory := by
  have positive := c.utf8Size_pos
  have fits := remaining_lt_of_front? found
  rw [runLength, find?_of_front? found, passes]
  cases find? (fun c => !test c) (memory.drop c.utf8Size) with
  | none => exact Nat.lt_of_le_of_lt (Nat.zero_le _) fits
  | some stop => exact Nat.lt_of_lt_of_le positive (Nat.le_add_left ..)

theorem runLength_of_fails {test : Char -> Bool} {c : Char} (fails : test c = false)
    (chars : List Char) : runLength test (Text.bytes (c :: chars)) = 0 := by
  rw [runLength_bytes, List.takeWhile_cons_of_neg (Bool.eq_false_iff.mp fails), Text.size_nil]

/-- What is left behind a run are the bytes of the characters behind it. -/
theorem drop_runLength (test : Char -> Bool) (chars : List Char) :
    (Text.bytes chars).drop (runLength test (Text.bytes chars)) = Text.bytes (chars.dropWhile test) := by
  have left := drop_bytes (chars.takeWhile test) (chars.dropWhile test)
  rwa [List.takeWhile_append_dropWhile, ← runLength_bytes] at left

/-! ## The search for a mark -/

theorem findMark?_append {first : UInt8} {left : List UInt8} (absent : first ∉ left)
    (others right : List UInt8) :
    findMark? (first :: others) (left ++ right) =
      (findMark? (first :: others) right).map (· + left.length) := by
  induction left with
  | nil => simp
  | cons byte left ih =>
      rw [List.mem_cons, not_or] at absent
      have noMark : (first :: others).isPrefixOf (byte :: (left ++ right)) = false := by
        simp [List.isPrefixOf, absent.1]
      rw [List.cons_append, findMark?, noMark, ih absent.2, Option.map_map]
      rfl

theorem bytes_prefix_iff {mark chars : List Char} :
    Text.bytes mark <+: Text.bytes chars <-> mark <+: chars := by
  constructor
  · rintro ⟨behind, whole⟩
    apply List.isPrefix_of_utf8Encode_append_eq_utf8Encode behind.toByteArray
    rw [List.utf8Encode, List.utf8Encode, ← List.toByteArray_append]
    exact congrArg List.toByteArray whole
  · rintro ⟨behind, rfl⟩
    exact ⟨Text.bytes behind, (Text.bytes_append mark behind).symm⟩

/-- Where no mark begins, the search goes on behind the whole character. -/
theorem findMark?_behind {first : Char} (ascii : IsAscii first) {others : List Char} {c : Char}
    {chars : List Char} (other : ¬ first :: others <+: c :: chars) :
    findMark? (Text.bytes (first :: others)) (Text.bytes (c :: chars)) =
      (findMark? (Text.bytes (first :: others)) (Text.bytes chars)).map (· + c.utf8Size) := by
  by_cases single : IsAscii c
  · have noMark : (Text.bytes (first :: others)).isPrefixOf (Text.bytes (c :: chars)) = false := by
      rwa [Bool.eq_false_iff, ne_eq, List.isPrefixOf_iff_prefix, bytes_prefix_iff]
    rw [bytes_cons c, encoded_of_ascii single, List.singleton_append] at noMark ⊢
    rw [findMark?, noMark, width_of_ascii single]
    rfl
  · have absent : first.toUInt8 ∉ String.utf8EncodeChar c := by
      intro member
      apply not_ascii_of_mem_encoded single member
      rwa [ofUInt8_toUInt8 ascii]
    rw [bytes_cons first, bytes_cons c, encoded_of_ascii ascii, List.singleton_append,
      findMark?_append absent, String.length_utf8EncodeChar]

/-- The closing mark of a block comment is found where it stands. -/
theorem findMark?_closingMark (chars : List Char) :
    findMark? (Text.bytes Layout.closingMark) (Text.bytes chars) =
      (Layout.untilClosed? chars).map fun (body, _) => Text.size body := by
  fun_induction Layout.untilClosed? chars with
  | case1 => rfl
  | case2 rest =>
      rw [bytes_cons, bytes_cons, encoded_of_ascii (by decide), encoded_of_ascii (by decide)]
      rfl
  | case3 c rest notClosed ih =>
      have other : ¬ Layout.closingMark <+: c :: rest := by
        rintro ⟨behind, whole⟩
        rcases List.cons.inj whole with ⟨isStar, isSlash⟩
        exact notClosed behind isStar.symm isSlash.symm
      have step : findMark? (Text.bytes Layout.closingMark) (Text.bytes (c :: rest)) =
          (findMark? (Text.bytes Layout.closingMark) (Text.bytes rest)).map (· + c.utf8Size) :=
        findMark?_behind (by decide) other
      rw [step, ih, Option.map_map, Option.map_map]
      congr 1
      funext parts
      exact Nat.add_comm ..

end Encoding
end TypeSchema
