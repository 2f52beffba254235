import TypeSchema.Text

namespace TypeSchema

/-!
# Layout

Between two tokens a schema may hold blanks and comments.  A line comment
runs up to the next line feed, which is not part of it; a block comment ends
at the first closing mark behind its opening mark, and an opening mark that is
never closed is no comment at all.  `Layout.split` passes over the longest
run of such pieces and returns them, so that nothing of the text is lost.
-/

namespace Layout

/-- Blanks separate tokens: space, tab, carriage return and line feed. -/
def isBlank (c : Char) : Bool :=
  c = ' ' ∨ c = '\t' ∨ c = '\r' ∨ c = '\n'

/-- One blank or one comment, without the marks that enclose its body. -/
inductive Piece where
  | blank (c : Char)
  | lineComment (body : List Char)
  | blockComment (body : List Char)
  deriving DecidableEq, Repr

/-- The text of a piece. -/
def Piece.chars : Piece -> List Char
  | .blank c => [c]
  | .lineComment body => '/' :: '/' :: body
  | .blockComment body => '/' :: '*' :: (body ++ ['*', '/'])

def Piece.isLineComment : Piece -> Bool
  | .lineComment _ => true
  | _ => false

def Piece.isBlockComment : Piece -> Bool
  | .blockComment _ => true
  | _ => false

/-- The text up to the first closing mark of a block comment, and the text
behind that mark. -/
def untilClosed? : List Char -> Option (List Char × List Char)
  | [] => none
  | '*' :: '/' :: rest => some ([], rest)
  | c :: rest => (untilClosed? rest).map fun (body, after) => (c :: body, after)

/-- The piece at the front of a text, if there is one, and what follows it. -/
def piece? : List Char -> Option (Piece × List Char)
  | '/' :: '/' :: rest =>
      some (.lineComment (rest.takeWhile (· != '\n')), rest.dropWhile (· != '\n'))
  | '/' :: '*' :: rest =>
      (untilClosed? rest).map fun (body, after) => (.blockComment body, after)
  | c :: rest => if isBlank c then some (.blank c, rest) else none
  | [] => none

theorem untilClosed?_eq_some {chars body after : List Char}
    (closed : untilClosed? chars = some (body, after)) :
    chars = body ++ '*' :: '/' :: after := by
  fun_induction untilClosed? chars generalizing body with
  | case1 => simp at closed
  | case2 rest => simp_all
  | case3 c rest _ ih =>
      obtain ⟨⟨inner, behind⟩, found, same⟩ := Option.map_eq_some_iff.1 closed
      obtain ⟨rfl, rfl⟩ := Prod.mk.inj same
      rw [ih found, List.cons_append]

/-- A piece and what follows it make up the text. -/
theorem piece?_eq_some {chars after : List Char} {piece : Piece}
    (found : piece? chars = some (piece, after)) : chars = piece.chars ++ after := by
  fun_cases piece? chars with
  | case1 rest =>
      simp only [piece?, Option.some.injEq, Prod.mk.injEq] at found
      obtain ⟨rfl, rfl⟩ := found
      simp only [Piece.chars, List.cons_append, List.takeWhile_append_dropWhile]
  | case2 rest =>
      simp only [piece?] at found
      obtain ⟨⟨body, behind⟩, closed, same⟩ := Option.map_eq_some_iff.1 found
      obtain ⟨rfl, rfl⟩ := Prod.mk.inj same
      simp [Piece.chars, untilClosed?_eq_some closed]
  | case3 c rest notLine notBlock blank =>
      simp only [piece?, blank, if_true, Option.some.injEq, Prod.mk.injEq] at found
      obtain ⟨rfl, rfl⟩ := found
      rfl
  | case4 c rest notLine notBlock solid =>
      simp_all [piece?]
  | case5 => simp [piece?] at found

theorem Piece.length_chars_pos (piece : Piece) : 0 < piece.chars.length := by
  cases piece <;> simp [Piece.chars]

theorem length_lt_of_piece? {chars after : List Char} {piece : Piece}
    (found : piece? chars = some (piece, after)) : after.length < chars.length := by
  have whole := congrArg List.length (piece?_eq_some found)
  have positive := piece.length_chars_pos
  rw [List.length_append] at whole
  omega

/-- The longest run of layout at the front of a text, and what follows it. -/
def split (chars : List Char) : List Piece × List Char :=
  match found : piece? chars with
  | none => ([], chars)
  | some (piece, after) =>
      have := length_lt_of_piece? found
      let (pieces, rest) := split after
      (piece :: pieces, rest)
termination_by chars.length

/-- The text of a run of layout. -/
def chars (pieces : List Piece) : List Char :=
  pieces.flatMap Piece.chars

theorem split_none {text : List Char} (solid : piece? text = none) : split text = ([], text) := by
  rw [split]
  split
  · rfl
  · next found => simp [solid] at found

theorem split_some {text after : List Char} {piece : Piece}
    (found : piece? text = some (piece, after)) :
    split text = (piece :: (split after).1, (split after).2) := by
  rw [split]
  split
  · next solid => simp [found] at solid
  · next other behind again =>
      rw [found] at again
      obtain ⟨rfl, rfl⟩ := Prod.mk.inj (Option.some.inj again)
      rfl

/-- Layout and what follows it make up the text. -/
theorem chars_split (text : List Char) : chars (split text).1 ++ (split text).2 = text := by
  fun_induction split text with
  | case1 text solid => rfl
  | case2 text piece after found shorter pieces rest inner ih =>
      rw [inner] at ih
      rw [piece?_eq_some found, ← ih]
      simp [chars]

/-- No layout is left at the front of what follows. -/
theorem piece?_split_rest (text : List Char) : piece? (split text).2 = none := by
  fun_induction split text with
  | case1 text solid => exact solid
  | case2 text piece after found shorter pieces rest inner ih =>
      rw [inner] at ih
      exact ih

theorem length_split_le (text : List Char) : (split text).2.length ≤ text.length := by
  have whole := congrArg List.length (chars_split text)
  rw [List.length_append] at whole
  omega

end Layout
end TypeSchema
