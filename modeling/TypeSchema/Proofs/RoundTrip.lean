import TypeSchema.Proofs.Driver
import TypeSchema.Proofs.Placement
import TypeSchema.Proofs.Printing

namespace TypeSchema

/-!
# Printing and reading again

The printed text of a schema is again the text of a schema, and the two differ
in nothing but the places of their tokens.  Printing the second one gives the
text that it was read from, so printing has settled after one round.

The text that was read first is not recovered: its comments are lost, and so
are its commas and its layout.
-/

namespace CommandLine

/-- What a run prints for the text of a schema is the text of a schema again.
It is alike the first one in all its definitions and is printed in the same
way. -/
theorem process_roundtrip (options : Options) {source : String} {schema : Schema}
    (parsed : Schema.parse source = .ok schema) :
    (process options source).outputText = unlines schema.lines ∧
      Exists fun again => Schema.parse (process options source).outputText = .ok again ∧
        again.Alike schema ∧ unlines again.lines = (process options source).outputText := by
  have printed : (process options source).outputText = unlines schema.lines := by
    rw [Transcript.outputText, (process_of_parse options parsed).2]
  rw [printed]
  refine ⟨rfl, ?_⟩
  rw [Schema.parse] at parsed
  split at parsed
  · cases parsed
  · next tokens scanned =>
      rcases Schema.ofTokens_eq_ok_iff.mp parsed with ⟨declares, distinct⟩
      rcases Printing.declares_printed declares (Scan.spelled_of_tokens scanned) with
        ⟨canonical, found, declared, scannedAgain, same⟩
      have success := Schema.ofTokens_eq_ok_iff.mpr ⟨declared, distinct⟩
      rcases Schema.ofTokens_alike same success with ⟨again, readAgain, alike⟩
      refine ⟨again, ?_, alike, by rw [alike.lines_eq]⟩
      rw [Schema.parse, scannedAgain]
      exact readAgain

/-- A schema with comments, with commas where they are not needed, and with
default values of every kind. -/
def untidyText : String :=
  "type A:B\x7b//x\nC c=C::D int i[]=\x7b1,+2,,-3\x7d/*y*/ F f=\x7b. 1. -.5\x7d" ++
    "S s=\"//\" O o=\x7ba=true b=\x7b\x7d\x7d\x7denum C\x7bD E\x7d"

/-- The same schema as it is printed. -/
def tidyText : String :=
  unlines
    ["type A : B \x7b", "    C c = C::D", "    int i[] = \x7b 1, +2, -3 \x7d",
      "    F f = \x7b ., 1., -.5 \x7d", "    S s = \"//\"",
      "    O o = \x7b a = true, b = \x7b\x7d \x7d", "\x7d", "enum C \x7b D, E \x7d"]

theorem process_roundtrip_untidyText :
    Exists fun schema => Schema.parse untidyText = .ok schema ∧
      (process { path := "schema" } untidyText).outputText = tidyText ∧
        Exists fun again => Schema.parse tidyText = .ok again ∧ again.Alike schema ∧
          unlines again.lines = tidyText := by
  have printed : (Schema.parse untidyText).toOption.map (fun schema => unlines schema.lines) =
      some tidyText := by decide +kernel
  cases parsed : Schema.parse untidyText with
  | error diagnostic =>
      rw [parsed] at printed
      cases printed
  | ok schema =>
      rw [parsed] at printed
      have tidy : unlines schema.lines = tidyText := Option.some.inj printed
      rcases process_roundtrip { path := "schema" } parsed with
        ⟨output, again, readAgain, alike, settled⟩
      rw [output, tidy] at readAgain settled
      exact ⟨schema, rfl, output.trans tidy, again, readAgain, alike, settled⟩

end CommandLine
end TypeSchema
