import TypeSchema.Proofs.Displacement
import TypeSchema.Proofs.Failing
import TypeSchema.Proofs.Occurrence
import TypeSchema.Proofs.Placement

namespace TypeSchema

/-!
# Who is to blame

A failure never makes up the token that it blames: the token is one of those
that were given, or the faulty piece of text itself.  The first half needs no
look at the rules of the grammar.  To move every token that was not given to
another place is a renaming, and it changes nothing about what was given; so
it changes nothing about the failure, which therefore speaks of given tokens
alone.
-/

/-- Every token that is not kept, moved to another place. -/
def Token.displaceOthers (kept : List Token) (token : Token) : Token :=
  if token ∈ kept then token else token.shift 1

namespace Token

theorem displaceOthers_of_mem {kept : List Token} {token : Token} (member : token ∈ kept) :
    displaceOthers kept token = token :=
  if_pos member

theorem mem_of_displaceOthers_eq {kept : List Token} {token : Token}
    (same : displaceOthers kept token = token) : token ∈ kept := by
  apply Classical.byContradiction
  intro absent
  rw [displaceOthers, if_neg absent] at same
  have starts : token.start + 1 = token.start := congrArg start same
  omega

theorem isRenaming_displaceOthers (kept : List Token) : IsRenaming (displaceOthers kept) := by
  apply isRenaming_of_texts
  · intro token
    rw [displaceOthers]
    split <;> rfl
  · intro token
    rw [displaceOthers]
    split <;> rfl

theorem map_displaceOthers {kept tokens : List Token}
    (all : forall token, token ∈ tokens -> token ∈ kept) :
    tokens.map (displaceOthers kept) = tokens :=
  (List.map_congr_left fun token member => displaceOthers_of_mem (all token member)).trans
    (List.map_id tokens)

/-- A failure that stays the same when all other tokens are moved blames a token
that is kept. -/
theorem mem_of_unchanged {kept : List Token} {diagnostic : Diagnostic} {token : Token}
    (unchanged : diagnostic = diagnostic.mapTokens (displaceOthers kept))
    (blamed : diagnostic.token? = some token) : token ∈ kept := by
  have same := Diagnostic.token?_mapTokens (isRenaming_displaceOthers kept).kind diagnostic
  rw [← unchanged, blamed] at same
  exact mem_of_displaceOthers_eq (Option.some.inj same).symm

end Token

namespace Parser

/-- Tokens that are no definition fail on one of themselves, or on none. -/
theorem mem_of_blamed {first token : Token} {behind rest : List Token} {diagnostic : Diagnostic}
    (failed : (Parser.definition first).Fails behind diagnostic rest)
    (blamed : diagnostic.token? = some token) : token ∈ first :: behind := by
  have renames := Token.isRenaming_displaceOthers (first :: behind)
  have renamed := congrArg Reply.outcome (commutes_definition renames first behind)
  rw [Token.displaceOthers_of_mem (List.mem_cons_self ..),
    Token.map_displaceOthers fun _ member => List.mem_cons_of_mem _ member] at renamed
  simp only [Reply.mapTokens, failed.1] at renamed
  exact Token.mem_of_unchanged (Except.error.inj renamed) blamed

end Parser

namespace Schema

/-- Tokens that are no schema fail on one of themselves, or on none. -/
theorem mem_of_blamed {tokens : List Token} {diagnostic : Diagnostic} {token : Token}
    (failed : (ofTokens tokens).outcome = .error diagnostic)
    (blamed : diagnostic.token? = some token) : token ∈ tokens := by
  have renames := Token.isRenaming_displaceOthers tokens
  have renamed := congrArg Extension.outcome (extend_map renames namedByWords_empty tokens)
  rw [ofTokens] at failed
  simp only [Token.map_displaceOthers fun _ member => member, Extension.mapTokens, failed]
    at renamed
  exact Token.mem_of_unchanged (Except.error.inj (failed.symm.trans renamed)) blamed

/-- Whatever keeps a text from being a schema, the token to blame stands in the
text. -/
theorem standsIn_of_blamed {source : String} {diagnostic : Diagnostic} {token : Token}
    (failed : parse source = .error diagnostic) (blamed : diagnostic.token? = some token) :
    token.StandsIn source.toList := by
  rw [parse] at failed
  split at failed
  · next error scanned =>
      rw [← Except.error.inj failed] at blamed
      rw [← Option.some.inj blamed]
      exact Scan.standsIn_of_error scanned
  · next tokens scanned => exact Scan.standsIn_of_tokens scanned token (mem_of_blamed failed blamed)

end Schema
end TypeSchema
