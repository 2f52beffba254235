import TypeSchema.CommandLine.Run
import TypeSchema.Proofs.Displacement

namespace TypeSchema

/-!
# What a run prints

A run follows the steps of a schema one by one, so as to log them, under
whatever limit on word lengths it was given.  In the end it prints what
`Schema.parse` reads from the text at once and without a limit.
-/

namespace CommandLine

/-- Following the steps of a schema that is read to the end prints this schema. -/
theorem follow_steps (options : Options) (buffer : Buffer) (warnings : Nat) {schema extended : Schema}
    {tokens : List Token} (success : (schema.extend tokens).outcome = .ok extended) :
    (follow options buffer warnings schema (schema.steps tokens)).code = 0 ∧
      (follow options buffer warnings schema (schema.steps tokens)).output = extended.lines := by
  fun_induction Schema.extend schema tokens with
  | case1 schema =>
      rw [Schema.steps, follow, Except.ok.inj success]
      exact ⟨rfl, rfl⟩
  | case2 schema first behind step diagnostic failed => cases success
  | case3 schema first behind step name succeeded ih =>
      have later := ih success
      rw [Schema.steps, follow]
      simp only [step] at succeeded later
      simp only [succeeded]
      exact later

/-- A run on the text of a schema succeeds and prints the schema. -/
theorem process_of_parse (options : Options) {source : String} {schema : Schema}
    (parsed : Schema.parse source = .ok schema) :
    (process options source).code = 0 ∧ (process options source).output = schema.lines := by
  rw [Schema.parse] at parsed
  split at parsed
  · cases parsed
  · next tokens scanned =>
      have run := Scan.run_of_tokens scanned options.limit
      rw [process, run.1, run.2]
      exact follow_steps options _ _ parsed

end CommandLine
end TypeSchema
