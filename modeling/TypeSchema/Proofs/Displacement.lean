import TypeSchema.Proofs.Arrangement

namespace TypeSchema

/-!
# Where a scan begins

A scan reports places in the text that it is a part of.  Begun further on, on
the same text ahead, it finds the same tokens and stops at the same error, and
all their places are further on by the same distance.  Nothing it finds depends
on what it has passed before, be it counted comments or warnings, and the limit
on the length of words decides about nothing but warnings.
-/

/-- The token, so much further on. -/
def Token.shift (distance : Nat) (token : Token) : Token :=
  { token with start := token.start + distance }

theorem Token.text_shift (distance : Nat) (token : Token) : (token.shift distance).text = token.text :=
  rfl

theorem Token.shift_zero : Token.shift 0 = id :=
  rfl

/-- The error, so much further on. -/
def LexicalError.shift (distance : Nat) (error : LexicalError) : LexicalError :=
  { error with token := error.token.shift distance }

namespace Scan

/-- What a step finds, so much further on. -/
def Item.shift (distance : Nat) : Item -> Item
  | .ok token => .ok (token.shift distance)
  | .error error => .error (error.shift distance)

theorem itemOf_add (lexeme : Lexeme) (offset distance : Nat) :
    itemOf lexeme (offset + distance) = Item.shift distance (itemOf lexeme offset) := by
  unfold itemOf
  cases lexeme.verdict <;> rfl

/-- The second scan has the same text ahead as the first one, so much further
on. -/
structure Shifted (distance : Nat) (scan shifted : Scan) : Prop where
  rest : shifted.rest = scan.rest
  offset : shifted.offset = scan.offset + distance

variable {distance : Nat} {scan shifted : Scan}

theorem Shifted.skipLayout (isShifted : Shifted distance scan shifted) :
    Shifted distance scan.skipLayout shifted.skipLayout := by
  refine ⟨?_, ?_⟩
  · simp only [Scan.skipLayout, isShifted.rest]
  · simp only [Scan.skipLayout, isShifted.rest, isShifted.offset, Nat.add_right_comm]

theorem Shifted.pass (isShifted : Shifted distance scan shifted) (lexeme : Lexeme) :
    Shifted distance (scan.pass lexeme) (shifted.pass lexeme) := by
  refine ⟨rfl, ?_⟩
  simp only [Scan.pass, isShifted.offset, Nat.add_right_comm]

/-! ## One step -/

theorem Shifted.next (isShifted : Shifted distance scan shifted) :
    shifted.next.1 = scan.next.1.map (Item.shift distance) ∧
      Shifted distance scan.next.2 shifted.next.2 := by
  have skipped := isShifted.skipLayout
  cases ahead : (Layout.split scan.rest).2 with
  | nil =>
      have other := ahead
      rw [← isShifted.rest] at other
      rw [next_of_nil ahead, next_of_nil other]
      exact ⟨rfl, skipped⟩
  | cons c chars =>
      have other := ahead
      rw [← isShifted.rest] at other
      rw [next_of_cons ahead, next_of_cons other, skipped.offset, itemOf_add]
      exact ⟨rfl, skipped.pass _⟩

theorem Shifted.next_eq {after : Scan} {found : Option Item} (isShifted : Shifted distance scan shifted)
    (step : scan.next = (found, after)) :
    Exists fun other => shifted.next = (found.map (Item.shift distance), other) ∧
      Shifted distance after other := by
  have shiftedStep := isShifted.next
  rw [step] at shiftedStep
  exact ⟨shifted.next.2, Prod.ext shiftedStep.1 rfl, shiftedStep.2⟩

/-! ## Runs -/

/-- A run that begins further on finds the same tokens and the same error, all
of them further on. -/
theorem Shifted.run (isShifted : Shifted distance scan shifted) :
    shifted.run.tokens = scan.run.tokens.map (Token.shift distance) ∧
      shifted.run.error = scan.run.error.map (LexicalError.shift distance) := by
  induction scan using Scan.run.induct generalizing shifted with
  | case1 scan last found =>
      rcases isShifted.next_eq found with ⟨other, step, _⟩
      rw [run_of_next_none found, run_of_next_none step]
      exact ⟨rfl, rfl⟩
  | case2 scan error last found =>
      rcases isShifted.next_eq found with ⟨other, step, _⟩
      rw [run_of_next_error found, run_of_next_error step]
      exact ⟨rfl, rfl⟩
  | case3 scan token after found shorter ih =>
      rcases isShifted.next_eq found with ⟨other, step, afterShifted⟩
      have later := ih afterShifted
      rw [run_of_next_ok found, run_of_next_ok step]
      exact ⟨congrArg (token.shift distance :: ·) later.1, later.2⟩

/-- A limit on the length of words has no influence on the tokens of a text. -/
theorem run_of_tokens {text : String} {tokens : List Token} (scanned : Scan.tokens text = .ok tokens)
    (limit : Option Nat) :
    (start text limit).run.tokens = tokens ∧ (start text limit).run.error = none := by
  have isShifted : Shifted 0 (start text) (start text limit) := ⟨rfl, rfl⟩
  rw [isShifted.run.1, isShifted.run.2]
  rw [Scan.tokens, Run.result] at scanned
  split at scanned
  · next noError =>
      rw [noError, Token.shift_zero, List.map_id]
      exact ⟨Except.ok.inj scanned, rfl⟩
  · cases scanned

end Scan
end TypeSchema
