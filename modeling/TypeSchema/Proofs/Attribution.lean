import TypeSchema.Proofs.Agreement
import TypeSchema.Proofs.Lookahead
import TypeSchema.Proofs.Unfinished

namespace TypeSchema

/-!
# Where failures point

A failure blames one of the given tokens.  The step that fails has seen no
tokens but those it has taken and the first one that it leaves, and with only
these it would have failed in the same way; so the token to blame is among
them.  In a text each token has its place, so every failure can be reported
with a place, except where no token is left to be blamed.
-/

namespace Parser

variable {α : Type}

/-- A reader of tokens does not complain about characters. -/
def Unlexical (parser : Parser α) : Prop :=
  forall {tokens rest : List Token} {diagnostic : Diagnostic},
    parser.Fails tokens diagnostic rest -> diagnostic.category ≠ .lexical

theorem unlexical_loop {list : BraceList} {item : List α -> Token -> Parser α}
    (each : forall earlier first, Unlexical (item earlier first)) (earlier : List α) :
    Unlexical (loop list item earlier) := by
  intro tokens rest diagnostic failed
  -- The loop goes on behind at least one token, the first one of an item.
  induction size : tokens.length using Nat.strongRecOn generalizing tokens earlier with
  | ind size ih =>
      rcases fails_loop_iff.mp failed with
        ⟨_, rfl, _⟩ | ⟨first, behind, rfl, _, itemFailed | ⟨value, left, itemRead, later⟩⟩
      · exact nofun
      · exact each earlier first itemFailed
      · have taking := itemRead.length_le
        have passing := (afterCommas_suffix left).length_le
        rw [List.length_cons] at size
        exact ih (afterCommas left).length (by omega) _ later rfl

theorem compositional_unlexical : Compositional Unlexical where
  pure _ := fun failed => (fails_pure_iff.mp failed).elim
  fail plain := by
    intro tokens rest diagnostic failed
    rcases fails_fail_iff.mp failed with ⟨rfl, _⟩
    exact plain
  emit _ := fun failed => (fails_emit_iff.mp failed).elim
  next? := fun failed => (fails_next?_iff.mp failed).elim
  front? := fun failed => (fails_front?_iff.mp failed).elim
  bind first later := by
    intro tokens rest diagnostic failed
    rcases fails_bind_iff.mp failed with firstFailed | ⟨value, behind, _, laterFailed⟩
    · exact first firstFailed
    · exact later value laterFailed
  within context inner := by
    intro tokens rest diagnostic failed
    rcases fails_within_iff.mp failed with ⟨found, innerFailed, rfl⟩
    exact fun isLexical => inner innerFailed isLexical
  braced each := unlexical_loop each []
  value each := by
    intro tokens rest diagnostic failed
    exact each tokens.length failed

end Parser

namespace Schema

variable {schema : Schema} {tokens rest : List Token} {diagnostic : Diagnostic}

theorem Rejects.category_ne (rejected : schema.Rejects tokens diagnostic rest) :
    diagnostic.category ≠ .lexical := by
  rcases rejects_iff.mp rejected with ⟨first, behind, _, failed | ⟨definition, _, _, rfl⟩⟩
  · exact Parser.compositional_unlexical.definition first failed
  · exact nofun

/-- A step that fails blames one of the tokens, or none. -/
theorem Rejects.mem_of_blamed (rejected : schema.Rejects tokens diagnostic rest) {token : Token}
    (blamed : diagnostic.token? = some token) : token ∈ tokens := by
  rcases rejects_iff.mp rejected with ⟨first, behind, rfl, failed | ⟨definition, read, _, rfl⟩⟩
  · exact Parser.mem_of_blamed failed blamed
  · rcases Parser.reads_definition_iff.mp read with ⟨taken, rfl, spelled, _⟩
    have named := List.mem_of_getElem? (name_of_spelled spelled)
    rw [← Option.some.inj blamed]
    exact List.mem_append_left rest named

/-- A failure of a step points at the tokens that the step has seen: those that
it has taken, and the first one of the rest. -/
structure PointsInto (tokens rest : List Token) (diagnostic : Diagnostic) : Prop where
  unblamed : diagnostic.token? = none -> diagnostic.category = .syntactic ∧ rest = []
  blamed : forall token, diagnostic.token? = some token ->
    Exists fun taken => tokens = taken ++ rest ∧ (token ∈ taken ∨ rest.head? = some token)

theorem Rejects.pointsInto (rejected : schema.Rejects tokens diagnostic rest) :
    PointsInto tokens rest diagnostic where
  unblamed none := ⟨(Cause.of_unblamed none).1, (unfinished_step rejected none).1⟩
  blamed := by
    intro token blamed
    have suffix := schema.step_suffix tokens
    rw [rejected.2.2] at suffix
    rcases suffix with ⟨taken, rfl⟩
    refine ⟨taken, rfl, ?_⟩
    cases rest with
    | nil =>
        have member := rejected.mem_of_blamed blamed
        rw [List.append_nil] at member
        exact Or.inl member
    | cons next behind =>
        -- With the next token alone the step fails in the same way.
        have seen : schema.Rejects (taken ++ [next] ++ behind) diagnostic ([next] ++ behind) := by
          rw [List.append_assoc, List.singleton_append]
          exact rejected
        have member := (seen.replace (List.cons_ne_nil next []) []).mem_of_blamed blamed
        rw [List.append_nil] at member
        rcases List.mem_append.mp member with isTaken | isNext
        · exact Or.inl isTaken
        · rw [List.mem_singleton.mp isNext]
          exact Or.inr rfl

/-- A schema that cannot be extended to the end of the tokens is stopped by a
step that fails. -/
theorem exists_rejects_of_extend (failed : (schema.extend tokens).outcome = .error diagnostic) :
    Exists fun reached : Schema => Exists fun ahead => ahead <:+ tokens ∧
      reached.Rejects ahead diagnostic (schema.extend tokens).rest := by
  fun_induction extend schema tokens with
  | case1 schema => cases failed
  | case2 schema first behind step other stepFailed =>
      have same : other = diagnostic := Except.error.inj failed
      subst same
      exact ⟨schema, first :: behind, List.suffix_refl _, rejects_of_error stepFailed⟩
  | case3 schema first behind step name succeeded ih =>
      rcases ih failed with ⟨reached, ahead, suffix, rejected⟩
      exact ⟨reached, ahead, suffix.trans (schema.step_suffix (first :: behind)), rejected⟩

/-- Behind the scanner all failures are those of steps. -/
theorem exists_rejects_of_parse {source : String} (failed : parse source = .error diagnostic)
    (scanned : Scan.tokens source = .ok tokens) :
    Exists fun reached : Schema => Exists fun ahead =>
      reached.Rejects ahead diagnostic (ofTokens tokens).rest := by
  rw [parse, scanned] at failed
  rcases exists_rejects_of_extend failed with ⟨reached, ahead, _, rejected⟩
  exact ⟨reached, ahead, rejected⟩

end Schema

namespace CommandLine

open Schema

/-- A failure to read a text points into the text, and so does the report of any
run on it. -/
structure PointsIntoText (source : String) (diagnostic : Diagnostic) : Prop where
  lexical : diagnostic.category = .lexical <->
    Exists fun error => Scan.tokens source = .error error
  /-- The token to blame is located where its text stands. -/
  located : forall token, diagnostic.token? = some token -> Exists fun location =>
    Buffer.locate? { text := source } token = some location ∧
      (Exists fun before => Exists fun after =>
        source.toList = before ++ (token.text.toList ++ after) ∧
          Text.size before = location.offset) ∧
      forall options, (process options source).reports =
        [options.path ++ ":" ++ location.render ++ ": " ++ diagnostic.category.render ++ ": " ++
          diagnostic.message]
  /-- Without a token to blame, all tokens are taken, and no place is reported. -/
  unlocated : diagnostic.token? = none -> diagnostic.category = .syntactic ∧
    (Exists fun tokens => Scan.tokens source = .ok tokens ∧ (ofTokens tokens).rest = []) ∧
      forall options, (process options source).reports =
        [options.path ++ ": " ++ diagnostic.category.render ++ ": " ++ diagnostic.message]

theorem pointsIntoText_of_failure {source : String} {diagnostic : Diagnostic}
    (failed : parse source = .error diagnostic) : PointsIntoText source diagnostic where
  lexical := by
    constructor
    · intro isLexical
      cases scanned : Scan.tokens source with
      | error error => exact ⟨error, rfl⟩
      | ok tokens =>
          rcases exists_rejects_of_parse failed scanned with ⟨reached, ahead, rejected⟩
          exact absurd isLexical rejected.category_ne
    · intro given
      rcases given with ⟨error, scanned⟩
      rw [parse, scanned] at failed
      rw [← Except.error.inj failed]
      rfl
  located := by
    intro token blamed
    have stands := standsIn_of_blamed failed blamed
    have found := Buffer.locate?_of_standsIn stands
    refine ⟨_, found, stands, ?_⟩
    intro options
    rw [(process_of_failure options failed).2.2, report, blamed, Option.bind_some, found]
    simp [toString, String.append_assoc]
  unlocated := by
    intro unblamed
    cases scanned : Scan.tokens source with
    | error error =>
        rw [parse, scanned] at failed
        rw [← Except.error.inj failed] at unblamed
        cases unblamed
    | ok tokens =>
        rcases exists_rejects_of_parse failed scanned with ⟨reached, ahead, rejected⟩
        rcases rejected.pointsInto.unblamed unblamed with ⟨syntactic, atEnd⟩
        refine ⟨syntactic, ⟨tokens, rfl, atEnd⟩, ?_⟩
        intro options
        rw [(process_of_failure options failed).2.2, report, unblamed, Option.bind_none]
        simp [toString, String.append_assoc]

/-- A step that fails blames a token that it has seen, and at the end of the
tokens it may blame none.  Hence every failure to read a text is reported with
the place of a token that stands in the text, or it has come to the end of the
tokens and is reported without a place. -/
theorem failures_point :
    (forall (schema : Schema) tokens diagnostic,
      (schema.step tokens).outcome = .error diagnostic ->
        PointsInto tokens (schema.step tokens).rest diagnostic) ∧
      forall source diagnostic, parse source = .error diagnostic ->
        PointsIntoText source diagnostic := by
  constructor
  · intro schema tokens diagnostic failed
    exact (rejects_of_error failed).pointsInto
  · intro source diagnostic failed
    exact pointsIntoText_of_failure failed

/-- A text with a list of values that is closed before it is found to be mixed. -/
def mixedText : String :=
  "enum A\x7bX\x7d\ntype B\x7bA a=\x7b1\x7bx=2\x7d\x7d int n\x7d"

/-- The mixed list is blamed on its second child, which is neither the last
token that is taken nor the first one that is left. -/
def mixedDiagnostic : Diagnostic where
  context := [.definition .type { kind := .word, text := "B", start := 15 }, .compound]
  cause := .mixedCompound (.scalar .int) .compound { kind := .openBrace, text := "\x7b", start := 23 }

theorem failures_point_mixedText :
    Exists fun tokens => Scan.tokens mixedText = .ok tokens ∧
      PointsInto (tokens.drop 5) (tokens.drop 19) mixedDiagnostic ∧
      parse mixedText = .error mixedDiagnostic ∧ PointsIntoText mixedText mixedDiagnostic ∧
      (process { path := "s" } mixedText).reports =
        ["s:2:14: semantic error: type 'B': compound value: " ++
          "invalid compound mixes types (int and compound value)"] := by
  have scanned : Scan.tokens mixedText = .ok (Scan.start mixedText).run.tokens :=
    Scan.tokens_eq_ok_iff.mpr ⟨by decide +kernel, rfl⟩
  have refused : (empty.step ((Scan.start mixedText).run.tokens.drop 5)).outcome =
      .error mixedDiagnostic := by decide +kernel
  have left : (empty.step ((Scan.start mixedText).run.tokens.drop 5)).rest =
      (Scan.start mixedText).run.tokens.drop 19 := by decide +kernel
  have failed : parse mixedText = .error mixedDiagnostic := by
    have reported : (parse mixedText).map (fun _ => ()) = .error mixedDiagnostic := by
      decide +kernel
    cases outcome : parse mixedText with
    | error diagnostic =>
        rw [outcome] at reported
        rw [Except.error.inj reported]
    | ok schema =>
        rw [outcome] at reported
        cases reported
  have points := failures_point.1 _ _ _ refused
  rw [left] at points
  exact ⟨_, scanned, points, failed, failures_point.2 _ _ failed, by decide +kernel⟩

end CommandLine
end TypeSchema
