import TypeSchema.Layout

namespace TypeSchema
namespace Layout

/-!
# Layout as a relation

What layout is at the front of a text depends on what stands behind it: a line
comment ends at a line feed or at the end of the text, never earlier.  The
relation `Passes` says which pieces a text begins with, without saying how many
of them to take.  At each place there is at most one piece, so of two such runs
one continues the other, and `split` takes the longest of all.
-/

/-- The mark that closes a block comment. -/
def closingMark : List Char := ['*', '/']

/-- The text begins with this piece, and the rest stands behind it. -/
inductive IsPiece : List Char -> Piece -> List Char -> Prop where
  | blank {c : Char} {rest : List Char} : isBlank c = true -> IsPiece (c :: rest) (.blank c) rest
  | lineComment {body rest : List Char} : '\n' ∉ body -> rest = [] ∨ rest.head? = some '\n' ->
      IsPiece ('/' :: '/' :: (body ++ rest)) (.lineComment body) rest
  | blockComment {body rest : List Char} : ¬ closingMark <:+: body ->
      IsPiece ('/' :: '*' :: (body ++ '*' :: '/' :: rest)) (.blockComment body) rest

/-- The text begins with these pieces, and the rest stands behind them. -/
inductive Passes : List Char -> List Piece -> List Char -> Prop where
  | nil (text : List Char) : Passes text [] text
  | cons {text behind rest : List Char} {piece : Piece} {pieces : List Piece} :
      IsPiece text piece behind -> Passes behind pieces rest ->
      Passes text (piece :: pieces) rest

/-! ## Where comments end -/

theorem untilClosed?_eq_none_iff {chars : List Char} :
    untilClosed? chars = none <-> ¬ closingMark <:+: chars := by
  fun_induction untilClosed? chars with
  | case1 => simp [closingMark]
  | case2 rest => simp [closingMark, List.infix_cons_iff]
  | case3 c rest notClosed ih =>
      rw [Option.map_eq_none_iff, ih, List.infix_cons_iff, not_or]
      have other : ¬ closingMark <+: c :: rest := by
        intro given
        rcases given with ⟨behind, whole⟩
        simp only [closingMark, List.cons_append, List.nil_append, List.cons.injEq] at whole
        exact notClosed behind whole.1.symm whole.2.symm
      simp [other]

theorem untilClosed?_append {body : List Char} (rest : List Char) (inside : ¬ closingMark <:+: body) :
    untilClosed? (body ++ '*' :: '/' :: rest) = some (body, rest) := by
  induction body with
  | nil => rfl
  | cons c body ih =>
      rw [List.infix_cons_iff, not_or] at inside
      have later := ih inside.2
      rw [List.cons_append, untilClosed?]
      · rw [later, Option.map_some]
      · intro behind isStar isSlash
        -- A closing mark cannot begin with the last character of the body.
        cases body with
        | nil => simp at isSlash
        | cons second body =>
            rw [List.cons_append, List.cons.injEq] at isSlash
            exact inside.1 ⟨body, by rw [closingMark, isStar, isSlash.1]; rfl⟩

theorem not_infix_of_untilClosed? {chars body rest : List Char}
    (closed : untilClosed? chars = some (body, rest)) : ¬ closingMark <:+: body := by
  fun_induction untilClosed? chars generalizing body with
  | case1 => simp at closed
  | case2 behind =>
      have parts := Prod.mk.inj (Option.some.inj closed)
      rw [← parts.1]
      decide
  | case3 c behind notClosed ih =>
      rcases Option.map_eq_some_iff.mp closed with ⟨⟨inner, after⟩, found, same⟩
      rcases Prod.mk.inj same with ⟨rfl, rfl⟩
      rw [List.infix_cons_iff, not_or]
      refine ⟨?_, ih found⟩
      intro given
      rcases given with ⟨more, whole⟩
      have marks : c = '*' ∧ inner = '/' :: more := by
        simpa [closingMark, eq_comm] using whole
      apply notClosed (more ++ '*' :: '/' :: after) marks.1
      rw [untilClosed?_eq_some found, marks.2, List.cons_append]

theorem untilClosed?_eq_some_iff {chars body rest : List Char} :
    untilClosed? chars = some (body, rest) <->
      chars = body ++ '*' :: '/' :: rest ∧ ¬ closingMark <:+: body := by
  constructor
  · intro closed
    exact ⟨untilClosed?_eq_some closed, not_infix_of_untilClosed? closed⟩
  · intro given
    rcases given with ⟨rfl, inside⟩
    exact untilClosed?_append rest inside

/-! ## Pieces and runs of pieces -/

/-- A run of characters that pass a test ends where the test first fails. -/
theorem takeWhile_dropWhile_append {test : Char -> Bool} {body rest : List Char}
    (inside : forall c, c ∈ body -> test c = true)
    (stops : forall c, c ∈ rest.head? -> test c = false) :
    (body ++ rest).takeWhile test = body ∧ (body ++ rest).dropWhile test = rest := by
  rw [List.takeWhile_append_of_pos inside, List.dropWhile_append_of_pos inside]
  cases rest with
  | nil => simp
  | cons c rest => simp [stops c rfl]

theorem head?_dropWhile {test : Char -> Bool} {chars : List Char} {c : Char}
    (found : c ∈ (chars.dropWhile test).head?) : test c = false := by
  have stops := List.head?_dropWhile_not test chars
  rw [Option.mem_def.mp found] at stops
  simpa using stops

theorem piece?_of_isPiece {text rest : List Char} {piece : Piece}
    (isPiece : IsPiece text piece rest) : piece? text = some (piece, rest) := by
  cases isPiece with
  | @blank c rest blank =>
      rw [piece?, if_pos blank]
      · rintro _ rfl _
        exact absurd blank (by decide)
      · rintro _ rfl _
        exact absurd blank (by decide)
  | @lineComment body rest inside ends =>
      have stops : forall c, c ∈ rest.head? -> (c != '\n') = false := by
        intro c ahead
        rcases ends with rfl | feed
        · cases ahead
        · rw [feed] at ahead
          rw [← Option.mem_some_iff.mp ahead]
          rfl
      have parts := takeWhile_dropWhile_append
        (fun c member => bne_iff_ne.mpr (ne_of_mem_of_not_mem member inside)) stops
      rw [piece?, parts.1, parts.2]
  | blockComment inside =>
      rw [piece?, untilClosed?_append _ inside, Option.map_some]

theorem isPiece_of_piece? {text rest : List Char} {piece : Piece}
    (found : piece? text = some (piece, rest)) : IsPiece text piece rest := by
  fun_cases piece? text with
  | case1 behind =>
      rw [piece?] at found
      rcases Prod.mk.inj (Option.some.inj found) with ⟨rfl, rfl⟩
      have parts : behind.takeWhile (· != '\n') ++ behind.dropWhile (· != '\n') = behind :=
        List.takeWhile_append_dropWhile
      have inside : '\n' ∉ behind.takeWhile (· != '\n') := by
        intro member
        have passed := List.all_eq_true.mp List.all_takeWhile '\n' member
        exact absurd passed (by decide)
      have ends : behind.dropWhile (· != '\n') = [] ∨
          (behind.dropWhile (· != '\n')).head? = some '\n' := by
        cases ahead : (behind.dropWhile (· != '\n')).head? with
        | none => exact Or.inl (List.head?_eq_none_iff.mp ahead)
        | some c => exact Or.inr (congrArg some (by simpa using head?_dropWhile ahead))
      have lineComment := IsPiece.lineComment inside ends
      rwa [parts] at lineComment
  | case2 behind =>
      rw [piece?] at found
      rcases Option.map_eq_some_iff.mp found with ⟨⟨body, after⟩, closed, same⟩
      rcases Prod.mk.inj same with ⟨rfl, rfl⟩
      rcases untilClosed?_eq_some_iff.mp closed with ⟨rfl, inside⟩
      exact .blockComment inside
  | case3 c behind notLine notBlock blank =>
      rw [piece?, if_pos blank] at found
      · rcases Prod.mk.inj (Option.some.inj found) with ⟨rfl, rfl⟩
        exact .blank blank
      · exact notLine
      · exact notBlock
  | case4 c behind notLine notBlock solid => simp_all [piece?]
  | case5 => simp [piece?] at found

theorem Passes.whole {text rest : List Char} {pieces : List Piece}
    (passes : Passes text pieces rest) : text = chars pieces ++ rest := by
  induction passes with
  | nil text => rfl
  | cons isPiece passes ih =>
      rw [piece?_eq_some (piece?_of_isPiece isPiece), ih]
      simp [chars]

theorem Passes.append {text middle rest : List Char} {first second : List Piece}
    (before : Passes text first middle) (after : Passes middle second rest) :
    Passes text (first ++ second) rest := by
  induction before with
  | nil text => exact after
  | cons isPiece passes ih => exact .cons isPiece (ih after)

theorem passes_split (text : List Char) : Passes text (split text).1 (split text).2 := by
  fun_induction split text with
  | case1 text solid => exact .nil text
  | case2 text piece after found shorter pieces rest inner ih =>
      rw [inner] at ih
      exact .cons (isPiece_of_piece? found) ih

/-- The longest run of layout goes on behind any other. -/
theorem split_of_passes {text rest : List Char} {pieces : List Piece}
    (passes : Passes text pieces rest) :
    split text = (pieces ++ (split rest).1, (split rest).2) := by
  induction passes with
  | nil text => rfl
  | cons isPiece passes ih => rw [split_some (piece?_of_isPiece isPiece), ih, List.cons_append]

/-- A run of layout in front of a text without any is the longest one. -/
theorem split_eq_of_passes {text rest : List Char} {pieces : List Piece}
    (passes : Passes text pieces rest) (solid : piece? rest = none) :
    split text = (pieces, rest) := by
  rw [split_of_passes passes, split_none solid, List.append_nil]

theorem split_suffix_of_passes {text rest : List Char} {pieces : List Piece}
    (passes : Passes text pieces rest) : (split text).2 <:+ rest := by
  rw [split_of_passes passes]
  exact ⟨chars (split rest).1, chars_split rest⟩

end Layout
end TypeSchema
