namespace TypeSchema
namespace Text

/-!
# Text measured in bytes

A schema is read character by character, while every offset that is reported
counts UTF-8 bytes.  This module holds the few functions that pass from one
view to the other: the bytes of a run of characters, their number, and the
division of a run at a byte offset.  A division exists only where the offset
falls between two characters, so no character is ever cut.
-/

/-- The UTF-8 encoding of a run of characters. -/
def bytes (chars : List Char) : List UInt8 :=
  chars.flatMap String.utf8EncodeChar

/-- The number of bytes that a run of characters occupies. -/
def size : List Char -> Nat
  | [] => 0
  | c :: chars => c.utf8Size + size chars

@[simp] theorem size_nil : size [] = 0 := rfl

@[simp] theorem size_cons (c : Char) (chars : List Char) :
    size (c :: chars) = c.utf8Size + size chars := rfl

@[simp] theorem size_append (left right : List Char) :
    size (left ++ right) = size left + size right := by
  induction left with
  | nil => simp
  | cons c left ih => simp [ih, Nat.add_assoc]

@[simp] theorem bytes_append (left right : List Char) :
    bytes (left ++ right) = bytes left ++ bytes right := by
  simp [bytes]

theorem length_bytes (chars : List Char) : (bytes chars).length = size chars := by
  induction chars with
  | nil => rfl
  | cons c chars ih =>
      simp only [bytes, List.flatMap_cons, List.length_append,
        String.length_utf8EncodeChar, size_cons] at ih ⊢
      rw [ih]

/-- A string occupies as many bytes as its characters do. -/
theorem size_toList (text : String) : size text.toList = text.utf8ByteSize := by
  have encoded : text.utf8ByteSize = text.toList.utf8Encode.size := by
    rw [String.utf8Encode_toList]
    rfl
  rw [encoded, ← length_bytes, List.utf8Encode, bytes, List.size_toByteArray]

/-- A run that is not empty occupies at least one byte. -/
theorem size_pos {chars : List Char} (present : chars ≠ []) : 0 < size chars := by
  cases chars with
  | nil => exact absurd rfl present
  | cons c chars =>
      have positive := Char.utf8Size_pos c
      rw [size_cons]
      omega

/-- Divide a run after its first `offset` bytes.  There is no division inside
a character or behind the end. -/
def divide? : (offset : Nat) -> List Char -> Option (List Char × List Char)
  | 0, chars => some ([], chars)
  | _ + 1, [] => none
  | offset + 1, c :: chars =>
      if c.utf8Size ≤ offset + 1 then
        (divide? (offset + 1 - c.utf8Size) chars).map fun (before, after) => (c :: before, after)
      else
        none

/-- A division loses nothing, and its first part has the requested size. -/
theorem divide?_eq_some {offset : Nat} {chars before after : List Char}
    (divided : divide? offset chars = some (before, after)) :
    chars = before ++ after ∧ size before = offset := by
  induction chars generalizing offset before with
  | nil =>
      cases offset with
      | zero => simp_all [divide?]
      | succ offset => simp [divide?] at divided
  | cons c chars ih =>
      cases offset with
      | zero => simp_all [divide?]
      | succ offset =>
          simp only [divide?] at divided
          split at divided
          · next fits =>
              obtain ⟨⟨first, second⟩, inner, same⟩ := Option.map_eq_some_iff.1 divided
              obtain ⟨rfl, rfl⟩ := Prod.mk.inj same
              obtain ⟨whole, measured⟩ := ih inner
              exact ⟨by rw [whole]; rfl, by rw [size_cons, measured]; omega⟩
          · simp at divided

theorem divide?_behind (c : Char) (chars : List Char) (offset : Nat) :
    divide? (c.utf8Size + offset) (c :: chars) =
      (divide? offset chars).map fun (before, after) => (c :: before, after) := by
  rcases Nat.exists_eq_add_of_lt c.utf8Size_pos with ⟨more, width⟩
  have whole : c.utf8Size + offset = more + offset + 1 := by omega
  have left : more + offset + 1 - c.utf8Size = offset := by omega
  rw [whole, divide?, if_pos (by omega), left]

/-- A run is divided between any two of its parts. -/
theorem divide?_append (before after : List Char) :
    divide? (size before) (before ++ after) = some (before, after) := by
  induction before with
  | nil => cases after <;> rfl
  | cons c before ih =>
      rw [size_cons, List.cons_append, divide?_behind, ih]
      rfl

end Text
end TypeSchema
