import TypeSchema.Proofs.Blame
import TypeSchema.Proofs.Declarations
import TypeSchema.Proofs.Driver
import TypeSchema.Proofs.Progress

namespace TypeSchema

/-!
# All ways to read a schema agree

A schema can be read at once, or step by step by a caller who stops at the
first step that adds nothing, or by a run of the program, which scans the text
under a limit of its own and logs what it does on the way.  All three come to
the same schema or to the same failure.  A run prints nothing before it knows
which of the two it is, so a failure leaves no output, only its report.
-/

namespace Schema

/-! ## Step by step -/

/-- As long as a step adds a definition another one is made.  This is the first
step that does not. -/
inductive Concludes : Schema -> List Token -> Step -> Prop where
  | here {schema : Schema} {tokens : List Token} :
      (forall name, (schema.step tokens).outcome ≠ .ok (some name)) ->
      Concludes schema tokens (schema.step tokens)
  | later {schema : Schema} {tokens : List Token} {name : String} {last : Step} :
      (schema.step tokens).outcome = .ok (some name) ->
      Concludes (schema.step tokens).schema (schema.step tokens).rest last ->
      Concludes schema tokens last

theorem Concludes.unique {schema : Schema} {tokens : List Token} {last other : Step}
    (concludes : Concludes schema tokens last) (again : Concludes schema tokens other) :
    other = last := by
  induction concludes with
  | here nothing =>
      cases again with
      | here _ => rfl
      | later something _ => exact absurd something (nothing _)
  | later something _ ih =>
      cases again with
      | here nothing => exact absurd something (nothing _)
      | later _ behind => exact ih behind

/-- To read at once comes to what the last of the steps comes to: its schema if
it finds no tokens, its failure otherwise, and the tokens it leaves. -/
structure Extension.Matches (extension : Extension) (last : Step) : Prop where
  success : forall schema, extension.outcome = .ok schema <->
    last.outcome = .ok none ∧ last.schema = schema
  failure : forall diagnostic, extension.outcome = .error diagnostic <->
    last.outcome = .error diagnostic
  rest : extension.rest = last.rest

/-- To read at once is to make steps until one of them adds nothing. -/
theorem concludes_extend (schema : Schema) (tokens : List Token) :
    Exists fun last => Concludes schema tokens last ∧ (schema.extend tokens).Matches last := by
  fun_induction extend schema tokens with
  | case1 schema =>
      refine ⟨schema.step [], .here (by simp [step]), ?_, ?_, rfl⟩
      · simp [step]
      · simp [step]
  | case2 schema first behind step diagnostic failed =>
      refine ⟨step, .here ?_, ?_, ?_, rfl⟩
      · intro name succeeded
        rw [failed] at succeeded
        cases succeeded
      · simp [failed]
      · simp [failed]
  | case3 schema first behind step name succeeded ih =>
      rcases ih with ⟨last, concludes, matching⟩
      cases name with
      | none => exact absurd (step_outcome_eq_none_iff.mp succeeded) (List.cons_ne_nil first behind)
      | some name => exact ⟨last, .later succeeded concludes, matching⟩

end Schema

namespace CommandLine

/-! ## Reports -/

/-- The line of a report; a log record is none. -/
def Note.report? : Note -> Option String
  | report line => some line
  | log _ => none

/-- What a run writes beside its output, apart from the log. -/
def Transcript.reports (transcript : Transcript) : List String :=
  transcript.notes.filterMap Note.report?

/-- The notes are all of the log. -/
def Logged (notes : List Note) : Prop :=
  forall note, note ∈ notes -> note.report? = none

theorem logged_map {α : Type} (items : List α) (record : α -> Log.Record) :
    Logged (items.map fun item => Note.log (record item)) := by
  intro note member
  rcases List.mem_map.mp member with ⟨item, _, rfl⟩
  rfl

theorem logged_single (record : Log.Record) : Logged [.log record] :=
  logged_map [record] id

theorem Logged.append {notes others : List Note} (logged : Logged notes) (alsoLogged : Logged others) :
    Logged (notes ++ others) := by
  intro note member
  exact (List.mem_append.mp member).elim (logged note) (alsoLogged note)

theorem Transcript.reports_failure (lines : List String) : (failure lines).reports = lines := by
  simp [reports, failure, Note.report?, List.filterMap_map, Function.comp_def]

/-- What is logged before a run is no report of the run. -/
theorem Transcript.reports_after {notes : List Note} (logged : Logged notes) (transcript : Transcript) :
    (transcript.after notes).reports = transcript.reports := by
  have none : notes.filterMap Note.report? = [] := List.filterMap_eq_nil_iff.mpr logged
  rw [reports, after, List.filterMap_append, none, List.nil_append, reports]

/-- The line reports the diagnostic about the text: the path, the place of the
token to blame if there is one, the category and the message. -/
inductive Reports (path source : String) (diagnostic : Diagnostic) : String -> Prop where
  | placed {token : Token} {location : Location} : diagnostic.token? = some token ->
      token.StandsIn source.toList -> location = Buffer.locationAt { text := source } token.start ->
      Reports path source diagnostic
        (path ++ ":" ++ location.render ++ ": " ++ diagnostic.category.render ++ ": " ++
          diagnostic.message)
  | unplaced : diagnostic.token? = none ->
      Reports path source diagnostic
        (path ++ ": " ++ diagnostic.category.render ++ ": " ++ diagnostic.message)

theorem reports_report (path : String) {source : String} {diagnostic : Diagnostic}
    (failed : Schema.parse source = .error diagnostic) :
    Reports path source diagnostic (report path { text := source } diagnostic) := by
  rw [report]
  cases blamed : diagnostic.token? with
  | none =>
      have line : Reports path source diagnostic _ := .unplaced blamed
      simpa [toString, String.append_assoc] using line
  | some token =>
      have stands := Schema.standsIn_of_blamed failed blamed
      have line : Reports path source diagnostic _ := .placed blamed stands rfl
      simpa [toString, String.append_assoc, Buffer.locate?_of_standsIn stands] using line

/-! ## Runs of the program -/

section Follow

variable (options : Options) (buffer : Buffer) (warnings : Nat) {schema : Schema}
  {tokens : List Token}

/-- What is noted about a step that adds a definition is of the log. -/
theorem logged_step (step : Schema.Step) (name : Option String) :
    Logged ((step.events.map fun event => Note.log (Log.ofEvent event)) ++
      name.toList.map fun name => info s!"ast added {name}") :=
  (logged_map step.events Log.ofEvent).append (logged_map name.toList _)

/-- Following the steps of a schema that is read to the end reports nothing. -/
theorem reports_follow_of_success {extended : Schema}
    (success : (schema.extend tokens).outcome = .ok extended) :
    (follow options buffer warnings schema (schema.steps tokens)).reports = [] := by
  fun_induction Schema.extend schema tokens with
  | case1 schema =>
      rw [Schema.steps, follow]
      rfl
  | case2 schema first behind step diagnostic failed => cases success
  | case3 schema first behind step name succeeded ih =>
      have later := ih success
      rw [Schema.steps, follow]
      simp only [step] at succeeded later
      simp only [succeeded]
      rw [Transcript.reports_after (logged_step _ name)]
      exact later

/-- Following them up to a failure ends in the report of this failure, and
nothing is printed. -/
theorem follow_of_failure {diagnostic : Diagnostic}
    (failed : (schema.extend tokens).outcome = .error diagnostic) :
    (follow options buffer warnings schema (schema.steps tokens)).code = 1 ∧
      (follow options buffer warnings schema (schema.steps tokens)).output = [] ∧
      (follow options buffer warnings schema (schema.steps tokens)).reports =
        [report options.path buffer diagnostic] := by
  fun_induction Schema.extend schema tokens with
  | case1 schema => cases failed
  | case2 schema first behind step other stepFailed =>
      rw [Schema.steps, follow]
      simp only [step] at stepFailed
      simp only [stepFailed]
      rw [Transcript.reports_after (logged_map _ Log.ofEvent), Transcript.reports_failure,
        Except.error.inj failed]
      exact ⟨rfl, rfl, rfl⟩
  | case3 schema first behind step name succeeded ih =>
      have later := ih failed
      rw [Schema.steps, follow]
      simp only [step] at succeeded later
      simp only [succeeded]
      rw [Transcript.reports_after (logged_step _ name)]
      exact later

end Follow

/-- A run on a text with tokens follows their steps. -/
theorem process_of_tokens (options : Options) {source : String} {tokens : List Token}
    (scanned : Scan.tokens source = .ok tokens) :
    Exists fun notes => Exists fun warnings => Logged notes ∧
      process options source =
        (follow options { text := source } warnings Schema.empty (Schema.empty.steps tokens)).after
          notes := by
  have run := Scan.run_of_tokens scanned options.limit
  rw [process, run.1, run.2]
  refine ⟨_, _, ?_, rfl⟩
  have listing : Logged (if options.showTokens then tokens.map (listed { text := source }) else []) := by
    split
    · exact logged_map tokens _
    · exact fun _ member => absurd member List.not_mem_nil
  have traces := logged_map (tokens.flatMap (Log.ofToken options.limit)) id
  exact (traces.append listing).append (logged_single _)

/-- A run on a text with a lexical error ends in the report of this error. -/
theorem process_of_lexicalError (options : Options) {source : String} {error : LexicalError}
    (failed : Scan.tokens source = .error error) :
    Exists fun notes => Logged notes ∧
      process options source =
        (Transcript.failure
          [report options.path { text := source } { cause := .lexical error }]).after notes := by
  have isShifted : Scan.Shifted 0 (Scan.start source) (Scan.start source options.limit) := ⟨rfl, rfl⟩
  have found := isShifted.run.2
  rw [Scan.tokens_eq_error_iff.mp failed] at found
  rw [process, found]
  exact ⟨_, logged_map _ id, rfl⟩

/-- What a run leaves behind is what its text is read as. -/
structure Agrees (transcript : Transcript) (path source : String) : Prop where
  code : transcript.code = 0 <-> Exists fun schema => Schema.parse source = .ok schema
  /-- The definitions are printed in the order of their declaration. -/
  printed : forall schema, Schema.parse source = .ok schema ->
    transcript.outputText = unlines (schema.definitions.flatMap Definition.lines) ∧
      transcript.reports = []
  /-- There is one report, and nothing is printed. -/
  reported : forall diagnostic, Schema.parse source = .error diagnostic ->
    transcript.code = 1 ∧ transcript.outputText = "" ∧
      Exists fun line => transcript.reports = [line] ∧ Reports path source diagnostic line

theorem process_of_failure (options : Options) {source : String} {diagnostic : Diagnostic}
    (failed : Schema.parse source = .error diagnostic) :
    (process options source).code = 1 ∧ (process options source).output = [] ∧
      (process options source).reports = [report options.path { text := source } diagnostic] := by
  rw [Schema.parse] at failed
  split at failed
  · next error scanned =>
      rcases process_of_lexicalError options scanned with ⟨notes, logged, same⟩
      rw [same, Transcript.reports_after logged, Transcript.reports_failure, Except.error.inj failed]
      exact ⟨rfl, rfl, rfl⟩
  · next tokens scanned =>
      rcases process_of_tokens options scanned with ⟨notes, warnings, logged, same⟩
      rw [same, Transcript.reports_after logged]
      exact follow_of_failure options _ warnings failed

theorem agrees_process (options : Options) (source : String) :
    Agrees (process options source) options.path source := by
  cases parsed : Schema.parse source with
  | ok schema =>
      have printed := process_of_parse options parsed
      have reports : (process options source).reports = [] := by
        rcases Schema.parse_eq_ok_iff.mp parsed with ⟨tokens, scanned, declared⟩
        rcases process_of_tokens options scanned with ⟨notes, warnings, logged, same⟩
        rw [same, Transcript.reports_after logged]
        exact reports_follow_of_success options _ warnings declared
      constructor
      case code => exact ⟨fun _ => ⟨schema, parsed⟩, fun _ => printed.1⟩
      case printed =>
        intro other same
        rw [parsed] at same
        rw [Transcript.outputText, printed.2, ← Except.ok.inj same]
        exact ⟨rfl, reports⟩
      case reported =>
        intro diagnostic impossible
        rw [parsed] at impossible
        cases impossible
  | error diagnostic =>
      rcases process_of_failure options parsed with ⟨code, output, reports⟩
      constructor
      case code =>
        rw [code, parsed]
        exact ⟨fun impossible => absurd impossible (by decide), nofun⟩
      case printed =>
        intro schema impossible
        rw [parsed] at impossible
        cases impossible
      case reported =>
        intro other same
        rw [parsed] at same
        rw [Transcript.outputText, output, reports, ← Except.error.inj same]
        exact ⟨code, rfl, _, rfl, reports_report options.path parsed⟩

/-- A schema is read at once as it is read step by step, and a run of the
program, whatever its options, ends as its text is read: with the definitions
of the schema, or with the one report of the failure. -/
theorem readers_agree (source : String) :
    (forall tokens, Exists fun last => Schema.Concludes Schema.empty tokens last ∧
      (forall other, Schema.Concludes Schema.empty tokens other -> other = last) ∧
      (Schema.ofTokens tokens).Matches last) ∧
    forall arguments options lookup contents, Options.parse arguments = .ok options ->
      lookup options.path = .file contents -> String.fromUTF8? contents = some source ->
        Agrees (run arguments lookup) options.path source := by
  constructor
  · intro tokens
    rcases Schema.empty.concludes_extend tokens with ⟨last, concludes, matching⟩
    exact ⟨last, concludes, fun _ other => concludes.unique other, matching⟩
  · intro arguments options lookup contents parsed found decoded
    have same : run arguments lookup = process options source := by
      simp only [run, parsed, runOn, found, decoded]
    rw [same]
    exact agrees_process options source

/-- A text of an enum and a type that refers to it. -/
def completedText : String :=
  "type B:A\x7bE e=E::Y,int n[]=\x7b1 2\x7d\x7d\nenum E\x7bX,,Y\x7d"

/-- A text whose second definition has no default value where it announces one. -/
def interruptedText : String :=
  "enum A\x7bX\x7d\ntype B\x7bint n=\x7d"

/-- The arguments of a run that shows tokens and warns of long words. -/
def wordyArguments : List String :=
  ["--tokens", "a.schema", "--max-word-len", "4"]

/-- A run with these arguments on a file that holds the text. -/
def wordyRun (source : String) : Transcript :=
  run wordyArguments fun _ => .file source.toUTF8

/-- One text is printed, and of the other nothing is, not even the definition that
is read before the failure. -/
theorem readers_agree_interruptedText :
    Options.parse wordyArguments =
        .ok { path := "a.schema", showTokens := true, limit := some 4 } ∧
      (String.fromUTF8? completedText.toUTF8 = some completedText ∧
        Agrees (wordyRun completedText) "a.schema" completedText ∧
        (wordyRun completedText).code = 0 ∧
        (wordyRun completedText).outputText =
          "type B : A \x7b\n    E e = E::Y\n    int n[] = \x7b 1, 2 \x7d\n\x7d\nenum E \x7b X, Y \x7d\n") ∧
      String.fromUTF8? interruptedText.toUTF8 = some interruptedText ∧
      Agrees (wordyRun interruptedText) "a.schema" interruptedText ∧
      (wordyRun interruptedText).code = 1 ∧
      (wordyRun interruptedText).outputText = "" ∧
      (wordyRun interruptedText).reports =
        ["a.schema:2:14: syntax error: type 'B': expected a string, number, boolean, enum::label, " ++
          "array, or object; got close brace '\x7d'"] := by
  have parsed : Options.parse wordyArguments =
      .ok { path := "a.schema", showTokens := true, limit := some 4 } := rfl
  have whole : String.fromUTF8? completedText.toUTF8 = some completedText := by decide +kernel
  have cut : String.fromUTF8? interruptedText.toUTF8 = some interruptedText := by decide +kernel
  have printed : Agrees (wordyRun completedText) "a.schema" completedText :=
    (readers_agree completedText).2 _ _ _ _ parsed rfl whole
  have reported : Agrees (wordyRun interruptedText) "a.schema" interruptedText :=
    (readers_agree interruptedText).2 _ _ _ _ parsed rfl cut
  refine ⟨parsed, ⟨whole, printed, ?_⟩, cut, reported, ?_⟩
  · decide +kernel
  · decide +kernel

end CommandLine
end TypeSchema
