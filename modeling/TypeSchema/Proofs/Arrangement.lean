import TypeSchema.Proofs.MaximalMunch

namespace TypeSchema

/-!
# Arrangements of tokens

Tokens can be written down one after another, with layout between them.  A scan
of such a text finds the same tokens again if each of them is spelled as its
kind demands and is not continued by what stands behind it.  Where the tokens
stand is then the only thing that is new about them.
-/

namespace Token

/-- The token at the start of its text, so that tokens which differ in their
places alone become equal. -/
def unplaced (token : Token) : Token :=
  { token with start := 0 }

/-- The text of the token belongs to its kind. -/
def Spelled (token : Token) : Prop :=
  Lexeme.Spelling token.kind token.text.toList

end Token

namespace Lexeme

/-- No token begins with a character at which layout could begin. -/
theorem Spelling.head_solid {kind : Token.Kind} {c : Char} {chars : List Char}
    (spelled : Spelling kind (c :: chars)) : c ≠ '/' ∧ Layout.isBlank c = false := by
  have found := front?_of_spelling spelled (ends_nil kind)
  rw [List.append_nil, front?] at found
  have success := congrArg Lexeme.verdict (Option.some.inj found)
  constructor
  · rintro rfl
    simp only [read] at success
    split at success
    · cases success
    · cases success
  · rw [Bool.eq_false_iff]
    intro blank
    simp only [Layout.isBlank, decide_eq_true_eq] at blank
    rcases blank with rfl | rfl | rfl | rfl <;> cases success

theorem Spelling.solid {kind : Token.Kind} {taken : List Char} (spelled : Spelling kind taken)
    (rest : List Char) : Layout.piece? (taken ++ rest) = none := by
  cases taken with
  | nil => exact absurd rfl spelled.ne_nil
  | cons c chars =>
      have head := spelled.head_solid
      rw [List.cons_append, Layout.piece?]
      · simp [head.2]
      · intro _ slash _
        exact head.1 slash
      · intro _ slash _
        exact head.1 slash

end Lexeme

namespace Scan

open Layout (Passes Piece)
open Lexeme (Ends)

/-- The text consists of these tokens, in this order, and of these pieces of
layout around them.  No token is continued by what stands behind it. -/
inductive Arranges : List Char -> List Piece -> List Token -> Prop where
  | nil {text : List Char} {gap : List Piece} : Passes text gap [] -> Arranges text gap []
  | cons {text rest : List Char} {gap pieces : List Piece} {token : Token} {tokens : List Token} :
      Passes text gap (token.text.toList ++ rest) -> token.Spelled -> Ends token.kind rest ->
      Arranges rest pieces tokens -> Arranges text (gap ++ pieces) (token :: tokens)

/-! ## One step -/

/-- A step finds a token that is spelled behind layout and not continued. -/
theorem next_of_passes {scan : Scan} {gap : List Piece} {token : Token} {rest : List Char}
    (passes : Passes scan.rest gap (token.text.toList ++ rest)) (spelled : token.Spelled)
    (ends : Ends token.kind rest) :
    Exists fun found => Exists fun after => scan.next = (some (.ok found), after) ∧
      found.unplaced = token.unplaced ∧ after.rest = rest ∧
      after.lineComments = scan.lineComments + gap.countP Piece.isLineComment ∧
      after.blockComments = scan.blockComments + gap.countP Piece.isBlockComment := by
  have split := Layout.split_eq_of_passes passes (spelled.solid rest)
  have front := Lexeme.front?_of_spelling spelled ends
  cases whole : token.text.toList ++ rest with
  | nil => exact absurd (List.append_eq_nil_iff.mp whole).1 spelled.ne_nil
  | cons c chars =>
      rw [whole] at split front
      have ahead : (Layout.split scan.rest).2 = c :: chars := by rw [split]
      have step := next_of_cons ahead
      rw [Option.some.inj front] at step
      refine ⟨_, _, step, ?_, ?_, ?_, ?_⟩
      · simp [Token.unplaced, tokenOf, Lexeme.kind]
      · rfl
      · simp [pass, skipLayout, split]
      · simp [pass, skipLayout, split]

/-! ## Runs -/

theorem run_of_next_none {scan last : Scan} (found : scan.next = (none, last)) :
    scan.run = { tokens := [], error := none, last } := by
  rw [run]
  split <;> simp_all

theorem run_of_next_error {scan last : Scan} {error : LexicalError}
    (found : scan.next = (some (.error error), last)) :
    scan.run = { tokens := [], error := some error, last } := by
  rw [run]
  split <;> simp_all

theorem run_of_next_ok {scan after : Scan} {token : Token}
    (found : scan.next = (some (.ok token), after)) :
    scan.run = { after.run with tokens := token :: after.run.tokens } := by
  rw [run]
  split <;> simp_all

/-- A run over an arrangement finds its tokens and counts its comments. -/
theorem run_of_arranges {text : List Char} {pieces : List Piece} {tokens : List Token}
    (arranged : Arranges text pieces tokens) {scan : Scan} (ahead : scan.rest = text) :
    scan.run.error = none ∧
      scan.run.tokens.map Token.unplaced = tokens.map Token.unplaced ∧
      scan.run.last.lineComments = scan.lineComments + pieces.countP Piece.isLineComment ∧
      scan.run.last.blockComments = scan.blockComments + pieces.countP Piece.isBlockComment := by
  induction arranged generalizing scan with
  | @nil text gap passes =>
      rw [← ahead] at passes
      have split := Layout.split_eq_of_passes passes rfl
      have found : scan.next = (none, scan.skipLayout) := next_of_nil (by rw [split])
      rw [run_of_next_none found]
      simp [skipLayout, split]
  | cons passes spelled ends arranged ih =>
      rw [← ahead] at passes
      rcases next_of_passes passes spelled ends with
        ⟨found, after, step, same, rest, lines, blocks⟩
      have later := ih rest
      rw [run_of_next_ok step]
      refine ⟨later.1, ?_, ?_, ?_⟩
      · simp only [List.map_cons, same, later.2.1]
      · simp only [later.2.2.1, lines, List.countP_append, Nat.add_assoc]
      · simp only [later.2.2.2, blocks, List.countP_append, Nat.add_assoc]

/-- A text that is an arrangement of tokens has these tokens. -/
theorem tokens_of_arranges {text : String} {pieces : List Piece} {tokens : List Token}
    (arranged : Arranges text.toList pieces tokens) :
    Exists fun found => Scan.tokens text = .ok found ∧
      found.map Token.unplaced = tokens.map Token.unplaced := by
  have ahead : (start text).rest = text.toList := rfl
  have run := run_of_arranges arranged ahead
  refine ⟨(start text).run.tokens, ?_, run.2.1⟩
  rw [Scan.tokens, Run.result, run.1]

/-! ## Where tokens come from -/

theorem Finds.spelled {text rest : List Char} {start : Nat} {token : Token}
    (finds : Finds text start (some (.ok token)) rest) : token.Spelled := by
  cases finds with
  | token longest _ => simpa only [Token.Spelled, String.toList_ofList] using longest.spelled

theorem spelled_of_next {scan after : Scan} {token : Token}
    (found : scan.next = (some (.ok token), after)) : token.Spelled := by
  rcases read_of_next found with ⟨c, chars, _, solid, item, _⟩
  have finds := finds_read solid scan.skipLayout.offset
  rw [item] at finds
  exact finds.spelled

theorem spelled_of_run (scan : Scan) : forall token, token ∈ scan.run.tokens -> token.Spelled := by
  induction scan using Scan.run.induct with
  | case1 scan last found =>
      intro token member
      rw [run_of_next_none found] at member
      cases member
  | case2 scan error last found =>
      intro token member
      rw [run_of_next_error found] at member
      cases member
  | case3 scan first after found shorter ih =>
      intro token member
      rw [run_of_next_ok found] at member
      rcases List.mem_cons.mp member with isFirst | later
      · rw [isFirst]
        exact spelled_of_next found
      · exact ih token later

/-- The tokens of a text are spelled as their kinds demand. -/
theorem spelled_of_tokens {text : String} {tokens : List Token}
    (scanned : Scan.tokens text = .ok tokens) : forall token, token ∈ tokens -> token.Spelled := by
  rw [Scan.tokens, Run.result] at scanned
  split at scanned
  · rw [← Except.ok.inj scanned]
    exact spelled_of_run (start text)
  · cases scanned

end Scan
end TypeSchema
