import TypeSchema.Proofs.Composition
import TypeSchema.Proofs.Language

namespace TypeSchema
namespace Parser

open Grammar

/-!
# One token ahead

A parser sees the tokens that it takes and the one behind them, and no others.
What stands further behind can therefore be replaced, or be missing, and
nothing changes.  A definition ends with a brace, so the reader of a complete
definition has not even seen the token behind it.
-/

variable {α β : Type}

/-- As long as the parser leaves some of the tokens `ahead`, those behind them
do not matter. -/
def Nearsighted (parser : Parser α) : Prop :=
  forall ahead left behind other : List Token, left ≠ [] ->
    (parser.run (ahead ++ behind)).rest = left ++ behind ->
      parser.run (ahead ++ other) = { parser.run (ahead ++ behind) with rest := left ++ other }

/-! ## Composed parsers -/

/-- To leave some of the tokens ahead there must be some. -/
theorem ahead_ne_nil {parser : Parser α} {ahead left behind : List Token} (present : left ≠ [])
    (same : (parser.run (ahead ++ behind)).rest = left ++ behind) : ahead ≠ [] := by
  rintro rfl
  have fewer := parser.length_rest_le ([] ++ behind)
  have some := List.length_pos_iff.mpr present
  rw [same, List.length_append, List.nil_append] at fewer
  omega

/-- What is left behind a part of a parser reaches back to the tokens that the
whole parser leaves. -/
theorem exists_between {ahead left behind between : List Token} (present : left ≠ [])
    (suffix : left ++ behind <:+ between) (inside : between <:+ ahead ++ behind) :
    Exists fun middle => between = middle ++ behind ∧ middle ≠ [] ∧ middle.length ≤ ahead.length := by
  rcases suffix with ⟨front, rfl⟩
  refine ⟨front ++ left, (List.append_assoc ..).symm, by simp [present], ?_⟩
  have fewer := inside.length_le
  simp only [List.length_append] at fewer ⊢
  omega

theorem nearsighted_pure (value : α) : Nearsighted (pure value : Parser α) := by
  intro ahead left behind other _ same
  rw [← List.append_cancel_right same]
  rfl

theorem nearsighted_fail (cause : Cause) : Nearsighted (fail cause : Parser α) := by
  intro ahead left behind other _ same
  rw [← List.append_cancel_right same]
  rfl

theorem nearsighted_emit (event : Event) : Nearsighted (emit event) := by
  intro ahead left behind other _ same
  rw [← List.append_cancel_right same]
  rfl

theorem Nearsighted.bind {parser : Parser α} {next : α -> Parser β} (first : Nearsighted parser)
    (later : forall value, Nearsighted (next value)) : Nearsighted (parser >>= next) := by
  intro ahead left behind other present same
  have inside := parser.suffix (ahead ++ behind)
  rw [run_bind] at same
  rw [run_bind, run_bind]
  cases reply : parser.run (ahead ++ behind) with
  | mk outcome rest events =>
      rw [reply] at same inside
      cases outcome with
      | error diagnostic =>
          have longer := first ahead left behind other present (by rw [reply]; exact same)
          rw [longer, reply]
          rfl
      | ok value =>
          have left_rest : ((next value).run rest).rest = left ++ behind := same
          have suffix := (next value).suffix rest
          rw [left_rest] at suffix
          rcases exists_between present suffix inside with ⟨middle, rfl, some, _⟩
          have longer := first ahead middle behind other some (by rw [reply])
          have laterLonger := later value middle left behind other present left_rest
          rw [longer, reply]
          simp only [Reply.andThen, laterLonger]

theorem Nearsighted.within {parser : Parser α} (inner : Nearsighted parser) (context : Context) :
    Nearsighted (within context parser) := by
  intro ahead left behind other present same
  simp only [Parser.within, inner ahead left behind other present same]

/-! ## Primitives -/

theorem nearsighted_next? : Nearsighted next? := by
  intro ahead left behind other present same
  cases ahead with
  | nil => exact absurd rfl (ahead_ne_nil present same)
  | cons token ahead =>
      have whole : ahead = left := List.append_cancel_right same
      rw [← whole]
      rfl

theorem nearsighted_front? : Nearsighted front? := by
  intro ahead left behind other present same
  have whole : ahead = left := List.append_cancel_right same
  subst whole
  cases ahead with
  | nil => exact absurd rfl present
  | cons token ahead => rfl

/-! ## Lists -/

theorem stops_afterCommas (tokens : List Token) : Stops .comma (afterCommas tokens) := by
  intro token isFirst comma
  have passed := List.head?_dropWhile_not (fun token : Token => token.is .comma) tokens
  rw [Option.mem_def] at isFirst
  rw [afterCommas] at isFirst
  simp only [isFirst] at passed
  rw [(token.is_iff .comma).mpr comma] at passed
  cases passed

/-- Only the first token matters. -/
theorem Stops.replace {kind : Token.Kind} {front behind other : List Token} (present : front ≠ [])
    (stops : Stops kind (front ++ behind)) : Stops kind (front ++ other) := by
  cases front with
  | nil => exact absurd rfl present
  | cons token front => exact stops

theorem nearsighted_loop {list : BraceList} {item : List α -> Token -> Parser α}
    (each : forall earlier first, Nearsighted (item earlier first)) (earlier : List α) :
    Nearsighted (loop list item earlier) := by
  intro ahead left behind other present same
  -- The loop goes on behind at least one of the tokens ahead.
  induction size : ahead.length using Nat.strongRecOn generalizing ahead earlier with
  | ind size ih =>
      cases ahead with
      | nil => exact absurd rfl (ahead_ne_nil present same)
      | cons first ahead =>
          simp only [loop, List.cons_append] at same ⊢
          by_cases closes : first.kind = .closeBrace
          · rw [items_closeBrace list item earlier closes] at same
            rw [items_closeBrace list item earlier closes, items_closeBrace list item earlier closes,
              ← List.append_cancel_right same]
          · rw [items_item list item earlier closes] at same
            rw [items_item list item earlier closes, items_item list item earlier closes]
            have inside := (item earlier first).suffix (ahead ++ behind)
            cases reply : (item earlier first).run (ahead ++ behind) with
            | mk outcome rest events =>
                rw [reply] at same inside
                cases outcome with
                | error diagnostic =>
                    have longer := each earlier first ahead left behind other present
                      (by rw [reply]; exact same)
                    rw [longer, reply]
                    rfl
                | ok value =>
                    have later : (items list item (earlier ++ [value]) (afterCommas rest)).rest =
                        left ++ behind := same
                    have suffix := items_suffix list item (earlier ++ [value]) (afterCommas rest)
                    rw [later] at suffix
                    rcases exists_commas rest with ⟨commas, split, areCommas⟩
                    rcases exists_between present suffix ((afterCommas_suffix rest).trans inside) with
                      ⟨middle, between, some, shorter⟩
                    have stops := stops_afterCommas rest
                    rw [between] at split later stops
                    have longer := each earlier first ahead (commas ++ middle) behind other
                      (by simp [some]) (by rw [reply, List.append_assoc]; exact split)
                    have passed : afterCommas (commas ++ middle ++ other) = middle ++ other := by
                      rw [List.append_assoc, afterCommas_append areCommas (stops.replace some)]
                    rw [List.length_cons] at size
                    have laterLonger := ih middle.length (by omega) (earlier ++ [value]) middle later rfl
                    simp only [loop] at laterLonger
                    rw [longer, reply]
                    simp only [Reply.andThen, passed, between, laterLonger]

/-! ## All readers -/

theorem nearsighted_value {first : Token}
    (each : forall depth, Nearsighted (valueOfDepth depth first)) :
    Nearsighted (Parser.value first) := by
  intro ahead left behind other present same
  -- One depth is enough for both lists of tokens.
  have deep := each ((ahead ++ behind).length + (ahead ++ other).length) ahead left behind other
    present
  rw [run_valueOfDepth (Nat.le_add_right _ _), run_valueOfDepth (Nat.le_add_left _ _)] at deep
  exact deep same

theorem compositional_nearsighted : Compositional Nearsighted where
  pure := nearsighted_pure
  fail _ := nearsighted_fail _
  emit := nearsighted_emit
  next? := nearsighted_next?
  front? := nearsighted_front?
  bind := Nearsighted.bind
  within context inner := inner.within context
  braced each := nearsighted_loop each []
  value := nearsighted_value

/-! ## Replacing what is behind -/

section Replace

variable {parser : Parser α} {ahead left behind : List Token}
  (nearsighted : Nearsighted parser) (present : left ≠ []) (other : List Token)
include nearsighted present

theorem Nearsighted.fails {diagnostic : Diagnostic}
    (failed : parser.Fails (ahead ++ behind) diagnostic (left ++ behind)) :
    parser.Fails (ahead ++ other) diagnostic (left ++ other) := by
  have same := nearsighted ahead left behind other present failed.2
  rw [Fails, same]
  exact ⟨failed.1, rfl⟩

theorem Nearsighted.reads {value : α}
    (read : parser.Reads (ahead ++ behind) value (left ++ behind)) :
    parser.Reads (ahead ++ other) value (left ++ other) := by
  have same := nearsighted ahead left behind other present read.2
  rw [Reads, same]
  exact ⟨read.1, rfl⟩

end Replace

end Parser

namespace Schema

/-! ## Steps -/

/-- What stands behind a definition does not matter. -/
theorem Enters.replace {schema : Schema} {tokens taken rest : List Token} {definition : Definition}
    (entered : schema.Enters tokens definition rest) (split : tokens = taken ++ rest)
    (other : List Token) : schema.Enters (taken ++ other) definition other := by
  rcases enters_iff.mp entered with ⟨⟨own, ownSplit, spelled, admissible⟩, isNew⟩
  have same : taken = own := List.append_cancel_right (split.symm.trans ownSplit)
  subst same
  exact enters_iff.mpr ⟨⟨taken, rfl, spelled, admissible⟩, isNew⟩

/-- If a step that fails leaves some of the tokens `ahead`, those behind them do
not matter. -/
theorem Rejects.replace {schema : Schema} {ahead left behind : List Token}
    {diagnostic : Diagnostic}
    (rejected : schema.Rejects (ahead ++ behind) diagnostic (left ++ behind))
    (present : left ≠ []) (other : List Token) :
    schema.Rejects (ahead ++ other) diagnostic (left ++ other) := by
  rcases rejects_iff.mp rejected with ⟨first, others, whole, outcome⟩
  have suffix := schema.step_cons_suffix first others
  rw [← whole, rejected.2.2] at suffix
  cases ahead with
  | nil =>
      have some := List.length_pos_iff.mpr present
      have fewer := suffix.length_le
      have longer := congrArg List.length whole
      simp only [List.length_append, List.length_cons, List.nil_append] at fewer longer
      omega
  | cons front ahead =>
      rcases List.cons.inj whole with ⟨rfl, rfl⟩
      refine rejects_iff.mpr ⟨front, ahead ++ other, rfl, ?_⟩
      rcases outcome with failed | ⟨definition, read, known, same⟩
      · exact Or.inl ((Parser.compositional_nearsighted.definition front).fails present other failed)
      · exact Or.inr ⟨definition, (Parser.compositional_nearsighted.definition front).reads present other read,
          known, same⟩

/-- The other step comes to the same, and it leaves these tokens. -/
structure Step.Repeats (step other : Step) (left : List Token) : Prop where
  outcome : other.outcome = step.outcome
  schema : other.schema = step.schema
  rest : other.rest = left

theorem Enters.repeats {schema : Schema} {tokens others rest left : List Token}
    {definition : Definition} (entered : schema.Enters tokens definition rest)
    (again : schema.Enters others definition left) :
    (schema.step tokens).Repeats (schema.step others) left :=
  ⟨again.1.trans entered.1.symm, again.2.1.trans entered.2.1.symm, again.2.2⟩

theorem Rejects.repeats {schema : Schema} {tokens others rest left : List Token}
    {diagnostic : Diagnostic} (rejected : schema.Rejects tokens diagnostic rest)
    (again : schema.Rejects others diagnostic left) :
    (schema.step tokens).Repeats (schema.step others) left :=
  ⟨again.1.trans rejected.1.symm, again.2.1.trans rejected.2.1.symm, again.2.2⟩

/-- A step that succeeds has not seen the tokens it leaves, and a step that fails
has seen no more than the first of them.  Whether the others are more, fewer or
different ones, the step comes to the same and leaves them. -/
theorem step_lookahead (schema : Schema) (tokens : List Token) :
    (forall name more, (schema.step tokens).outcome = .ok (some name) ->
      (schema.step tokens).Repeats (schema.step (tokens ++ more))
        ((schema.step tokens).rest ++ more)) ∧
    (forall diagnostic more, (schema.step tokens).outcome = .error diagnostic ->
      (schema.step tokens).rest ≠ [] ->
        (schema.step tokens).Repeats (schema.step (tokens ++ more))
          ((schema.step tokens).rest ++ more)) ∧
    (forall name taken other, (schema.step tokens).outcome = .ok (some name) ->
      tokens = taken ++ (schema.step tokens).rest ->
        (schema.step tokens).Repeats (schema.step (taken ++ other)) other) ∧
    forall taken other, tokens = taken ++ (schema.step tokens).rest ->
      other.head? = (schema.step tokens).rest.head? ->
        (schema.step tokens).Repeats (schema.step (taken ++ other)) other := by
  have succeeds : forall name taken other, (schema.step tokens).outcome = .ok (some name) ->
      tokens = taken ++ (schema.step tokens).rest ->
        (schema.step tokens).Repeats (schema.step (taken ++ other)) other := by
    intro name taken other success split
    rcases enters_of_success success with ⟨definition, entered⟩
    exact entered.repeats (entered.replace split other)
  refine ⟨?_, ?_, succeeds, ?_⟩
  · intro name more success
    rcases schema.step_suffix tokens with ⟨taken, split⟩
    have longer := succeeds name taken ((schema.step tokens).rest ++ more) success split.symm
    rw [← List.append_assoc, split] at longer
    exact longer
  · intro diagnostic more failed present
    have rejected := rejects_of_error failed
    refine rejected.repeats (@Rejects.replace _ tokens _ [] _ ?_ present more)
    rw [List.append_nil, List.append_nil]
    exact rejected
  · intro taken other split sameFront
    cases left : (schema.step tokens).rest with
    | nil =>
        rw [left] at split sameFront
        rw [List.head?_eq_none_iff.mp sameFront, ← split]
        exact ⟨rfl, rfl, left⟩
    | cons next behind =>
        rw [left] at sameFront
        rcases List.head?_eq_some_iff.mp sameFront with ⟨others, rfl⟩
        cases outcome : (schema.step tokens).outcome with
        | ok name =>
            cases name with
            | none =>
                cases tokens with
                | nil => cases left
                | cons first later =>
                    rcases step_cons_success outcome with ⟨definition, impossible, _⟩
                    cases impossible
            | some name => exact succeeds name taken _ outcome split
        | error diagnostic =>
            have rejected := rejects_of_error outcome
            have seen : schema.Rejects (taken ++ [next] ++ behind) diagnostic ([next] ++ behind) := by
              rw [left] at split rejected
              rw [List.append_assoc, List.singleton_append, ← split]
              exact rejected
            have again := seen.replace (List.cons_ne_nil next []) others
            rw [List.append_assoc, List.singleton_append] at again
            exact rejected.repeats again

/-- The tokens of `enum A { X } }`. -/
def closedTokens : List Token :=
  [{ kind := .word, text := "enum" }, { kind := .word, text := "A", start := 5 },
    { kind := .openBrace, text := "\x7b", start := 7 }, { kind := .word, text := "X", start := 9 },
    { kind := .closeBrace, text := "\x7d", start := 11 },
    { kind := .closeBrace, text := "\x7d", start := 13 }]

/-- The tokens of `type B { C c = d , }`, where a word stands for a value. -/
def scopelessTokens : List Token :=
  [{ kind := .word, text := "type" }, { kind := .word, text := "B", start := 5 },
    { kind := .openBrace, text := "\x7b", start := 7 }, { kind := .word, text := "C", start := 9 },
    { kind := .word, text := "c", start := 11 }, { kind := .equals, text := "=", start := 13 },
    { kind := .word, text := "d", start := 15 }, { kind := .comma, text := ",", start := 17 },
    { kind := .closeBrace, text := "\x7d", start := 19 }]

/-- The second list fails at the word, with the comma as the token ahead. -/
theorem step_lookahead_scopelessTokens :
    (empty.step closedTokens).Repeats (empty.step (closedTokens ++ scopelessTokens))
        (closedTokens.drop 5 ++ scopelessTokens) ∧
      (empty.step closedTokens).Repeats (empty.step (closedTokens.take 5)) [] ∧
      (empty.step scopelessTokens).Repeats (empty.step (scopelessTokens ++ closedTokens))
        (scopelessTokens.drop 7 ++ closedTokens) ∧
      (empty.step scopelessTokens).Repeats (empty.step (scopelessTokens.take 8))
        (scopelessTokens.take 8 |>.drop 7) := by
  have success : (empty.step closedTokens).outcome = .ok (some "A") := by decide +kernel
  have closedRest : (empty.step closedTokens).rest = closedTokens.drop 5 := by decide +kernel
  have failed : (empty.step scopelessTokens).outcome =
      .error { context := [.definition .type { kind := .word, text := "B", start := 5 }],
               cause := .valueExpected { kind := .word, text := "d", start := 15 } } := by
    decide +kernel
  have scopelessRest : (empty.step scopelessTokens).rest = scopelessTokens.drop 7 := by
    decide +kernel
  rcases step_lookahead empty closedTokens with ⟨longer, _, replaced, _⟩
  rcases step_lookahead empty scopelessTokens with ⟨_, failedLonger, _, failedReplaced⟩
  rw [closedRest] at longer replaced
  rw [scopelessRest] at failedLonger failedReplaced
  exact ⟨longer _ scopelessTokens success, replaced _ (closedTokens.take 5) [] success rfl,
    failedLonger _ closedTokens failed (by decide),
    failedReplaced (scopelessTokens.take 7) (scopelessTokens.take 8 |>.drop 7) rfl rfl⟩

end Schema
end TypeSchema
