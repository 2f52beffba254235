import TypeSchema.Buffer
import TypeSchema.Proofs.Arrangement
import TypeSchema.Proofs.Lossless

namespace TypeSchema

/-!
# Tokens stand in their text

A scan reports the place of every token that it finds, sound or faulty.  The
spelling of the token is found in the text at that place, so a buffer that
holds the text can locate the token, and no token begins before the one in
front of it has ended.
-/

/-- The spelling of the token is found in the text, at the offset at which the
token starts. -/
def Token.StandsIn (token : Token) (text : List Char) : Prop :=
  Exists fun before => Exists fun after =>
    text = before ++ (token.text.toList ++ after) ∧ Text.size before = token.start

/-- A buffer locates every token that stands in its text. -/
theorem Buffer.locate?_of_standsIn {source : String} {token : Token}
    (stands : token.StandsIn source.toList) :
    locate? { text := source } token = some (locationAt { text := source } token.start) := by
  rcases stands with ⟨before, after, whole, start⟩
  have measured : source.utf8ByteSize = token.stop + Text.size after := by
    rw [← Text.size_toList, whole, Text.size_append, Text.size_append, start, Token.stop,
      Token.size_eq, Nat.add_assoc]
  have inside : offset? { text := source } token = some token.start := by
    refine (offset?_eq_some_iff _ _ _).mpr ⟨Nat.zero_le _, ?_, rfl⟩
    rw [Buffer.size, measured]
    omega
  rw [locate?, inside, Option.map_some]

namespace Scan

/-! ## One step -/

/-- A step passes over a part of the text in which the token of its item stands. -/
theorem TakesSegment.standsIn {scan after : Scan} {segment : Segment} {text passed : List Char}
    (taken : TakesSegment scan segment after) (whole : text = passed ++ scan.rest)
    (offset : Text.size passed = scan.offset) :
    (Item.token segment.item).StandsIn text ∧
      text = (passed ++ segment.chars) ++ after.rest ∧
      Text.size (passed ++ segment.chars) = after.offset := by
  have split : text = passed ++ (segment.chars ++ after.rest) := by
    rw [whole, taken.passes.whole, Segment.chars, List.append_assoc]
  refine ⟨⟨passed ++ Layout.chars segment.gap, after.rest, ?_, ?_⟩, ?_, ?_⟩
  · rw [split, Segment.chars]
    simp only [List.append_assoc]
  · rw [Text.size_append, offset, taken.start]
  · rw [split, List.append_assoc]
  · rw [Text.size_append, offset, taken.offset]

/-- The item starts at or behind the place of the scan, and the scan behind it
has passed its start. -/
theorem TakesSegment.start_bounds {scan after : Scan} {segment : Segment}
    (taken : TakesSegment scan segment after) :
    scan.offset ≤ (Item.token segment.item).start ∧
      (Item.token segment.item).start < after.offset := by
  have present : (Item.token segment.item).text.toList ≠ [] := by
    simpa using taken.nonempty
  have positive := Text.size_pos present
  rw [taken.offset, taken.start, Segment.chars, Text.size_append]
  omega

/-! ## Runs -/

/-- The tokens of a run stand in its text, and so does the text of its error. -/
theorem standsIn_of_run {scan : Scan} {text passed : List Char} (whole : text = passed ++ scan.rest)
    (offset : Text.size passed = scan.offset) :
    (forall token, token ∈ scan.run.tokens -> token.StandsIn text) ∧
      forall error, error ∈ scan.run.error -> error.token.StandsIn text := by
  induction scan using Scan.run.induct generalizing passed with
  | case1 scan last found =>
      rw [run_of_next_none found]
      exact ⟨fun _ member => absurd member List.not_mem_nil, fun _ same => by cases same⟩
  | case2 scan error last found =>
      rw [run_of_next_error found]
      refine ⟨fun _ member => absurd member List.not_mem_nil, ?_⟩
      intro other same
      rw [← Option.some.inj same]
      exact ((takesSegment_of_next found).standsIn whole offset).1
  | case3 scan token after found shorter ih =>
      rcases (takesSegment_of_next found).standsIn whole offset with ⟨stands, wholeAgain, offsetAgain⟩
      have later := ih wholeAgain offsetAgain
      rw [run_of_next_ok found]
      refine ⟨?_, later.2⟩
      intro other member
      rcases List.mem_cons.mp member with rfl | behind
      · exact stands
      · exact later.1 other behind

/-- The tokens of a run start one behind the other, none of them before the
place at which the run began. -/
theorem pairwise_run (scan : Scan) :
    (forall token, token ∈ scan.run.tokens -> scan.offset ≤ token.start) ∧
      scan.run.tokens.Pairwise fun left right => left.start < right.start := by
  induction scan using Scan.run.induct with
  | case1 scan last found =>
      rw [run_of_next_none found]
      exact ⟨fun _ member => absurd member List.not_mem_nil, .nil⟩
  | case2 scan error last found =>
      rw [run_of_next_error found]
      exact ⟨fun _ member => absurd member List.not_mem_nil, .nil⟩
  | case3 scan token after found shorter ih =>
      have starts := (takesSegment_of_next found).start_bounds
      have behind : forall other, other ∈ after.run.tokens -> token.start < other.start :=
        fun other member => Nat.lt_of_lt_of_le starts.2 (ih.1 other member)
      rw [run_of_next_ok found]
      refine ⟨?_, List.pairwise_cons.mpr ⟨behind, ih.2⟩⟩
      intro other member
      rcases List.mem_cons.mp member with rfl | later
      · exact starts.1
      · exact Nat.le_of_lt (Nat.lt_of_le_of_lt starts.1 (behind other later))

/-! ## Whole texts -/

theorem tokens_eq_ok_iff {text : String} {tokens : List Token} :
    Scan.tokens text = .ok tokens <-> (start text).run.error = none ∧ (start text).run.tokens = tokens := by
  rw [Scan.tokens, Run.result]
  cases (start text).run.error with
  | none => simp
  | some error => simp

theorem tokens_eq_error_iff {text : String} {error : LexicalError} :
    Scan.tokens text = .error error <-> (start text).run.error = some error := by
  rw [Scan.tokens, Run.result]
  cases (start text).run.error with
  | none => simp
  | some error => simp

/-- The tokens of a text stand in it. -/
theorem standsIn_of_tokens {text : String} {tokens : List Token}
    (scanned : Scan.tokens text = .ok tokens) :
    forall token, token ∈ tokens -> token.StandsIn text.toList := by
  have run := standsIn_of_run (List.nil_append (start text).rest).symm rfl
  rw [← (tokens_eq_ok_iff.mp scanned).2]
  exact run.1

/-- So does the text of the error that keeps it from having tokens. -/
theorem standsIn_of_error {text : String} {error : LexicalError}
    (failed : Scan.tokens text = .error error) : error.token.StandsIn text.toList := by
  have run := standsIn_of_run (List.nil_append (start text).rest).symm rfl
  exact run.2 error (tokens_eq_error_iff.mp failed)

/-- The tokens of a text start one behind the other. -/
theorem increasing_of_tokens {text : String} {tokens : List Token}
    (scanned : Scan.tokens text = .ok tokens) :
    tokens.Pairwise fun left right => left.start < right.start := by
  rw [← (tokens_eq_ok_iff.mp scanned).2]
  exact (pairwise_run (start text)).2

end Scan
end TypeSchema
