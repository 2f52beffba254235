import TypeSchema.Proofs.Arrangement
import TypeSchema.Proofs.Renaming

namespace TypeSchema

/-!
# Where tokens stand

To put tokens in other places is a renaming like any other, one that keeps
every text.  Tokens that differ in their places alone therefore extend alike
schemas alike, or fail alike: with one message, on tokens that differ in their
places alone.
-/

theorem Token.isRenaming_of_texts {change : Token -> Token}
    (kinds : forall token, (change token).kind = token.kind)
    (texts : forall token, (change token).text = token.text) : IsRenaming change where
  kind := kinds
  reserved token _ _ _ := by rw [texts]
  apart left right _ _ := by rw [texts, texts]
  blank token _ := by rw [texts]

theorem Token.isRenaming_unplaced : IsRenaming unplaced :=
  isRenaming_of_texts (fun _ => rfl) fun _ => rfl

namespace Schema

/-- Two schemas are alike when they differ at most in where their tokens stand. -/
def Alike (left right : Schema) : Prop :=
  left.mapTokens Token.unplaced = right.mapTokens Token.unplaced

theorem Alike.refl (schema : Schema) : Alike schema schema :=
  rfl

theorem Alike.lines_eq {left right : Schema} (alike : Alike left right) : left.lines = right.lines := by
  have texts : forall token : Token, token.unplaced.text = token.text := fun _ => rfl
  rw [← lines_mapTokens texts left, alike, lines_mapTokens texts right]

/-- Two readings come to the same: alike schemas, or failures of one category
and one message, on tokens of one kind and one text or on none. -/
inductive ComesTo : Except Diagnostic Schema -> Except Diagnostic Schema -> Prop where
  | schema {left right : Schema} : left.Alike right -> ComesTo (.ok left) (.ok right)
  | failure {left right : Diagnostic} : left.category = right.category ->
      left.message = right.message ->
      left.token?.map Token.unplaced = right.token?.map Token.unplaced ->
      ComesTo (.error left) (.error right)

theorem comesTo_of_mapTokens {left right : Diagnostic}
    (same : left.mapTokens Token.unplaced = right.mapTokens Token.unplaced) :
    ComesTo (.error left) (.error right) := by
  have texts : forall token : Token, token.unplaced.text = token.text := fun _ => rfl
  have kinds : forall token : Token, token.unplaced.kind = token.kind := fun _ => rfl
  refine .failure ?_ ?_ ?_
  · rw [← Diagnostic.category_mapTokens Token.unplaced left, same, Diagnostic.category_mapTokens]
  · rw [← Diagnostic.message_mapTokens texts kinds left, same,
      Diagnostic.message_mapTokens texts kinds]
  · rw [← Diagnostic.token?_mapTokens kinds, same, Diagnostic.token?_mapTokens kinds]

/-- Where tokens stand has no influence on what they add to a schema. -/
theorem extend_comesTo {left right : Schema} {tokens others : List Token} (alike : left.Alike right)
    (words : left.NamedByWords) (otherWords : right.NamedByWords)
    (same : tokens.map Token.unplaced = others.map Token.unplaced) :
    ComesTo (left.extend tokens).outcome (right.extend others).outcome := by
  have extended := extend_map Token.isRenaming_unplaced words tokens
  have otherExtended := extend_map Token.isRenaming_unplaced otherWords others
  rw [same, alike, otherExtended] at extended
  have outcomes := congrArg Extension.outcome extended
  simp only [Extension.mapTokens] at outcomes
  cases first : (left.extend tokens).outcome with
  | error diagnostic =>
      cases second : (right.extend others).outcome with
      | error other =>
          rw [first, second] at outcomes
          exact comesTo_of_mapTokens (Except.error.inj outcomes).symm
      | ok other =>
          rw [first, second] at outcomes
          cases outcomes
  | ok schema =>
      cases second : (right.extend others).outcome with
      | error other =>
          rw [first, second] at outcomes
          cases outcomes
      | ok other =>
          rw [first, second] at outcomes
          exact .schema (Except.ok.inj outcomes).symm

/-- Where tokens stand has no influence on what they declare. -/
theorem ofTokens_alike {tokens others : List Token} {schema : Schema}
    (same : others.map Token.unplaced = tokens.map Token.unplaced)
    (success : (ofTokens tokens).outcome = .ok schema) :
    Exists fun again => (ofTokens others).outcome = .ok again ∧ again.Alike schema := by
  have comes := extend_comesTo (Alike.refl empty) namedByWords_empty namedByWords_empty same
  simp only [ofTokens] at success ⊢
  rw [success] at comes
  generalize (empty.extend others).outcome = outcome at comes
  cases comes with
  | schema alike => exact ⟨_, rfl, alike⟩

end Schema
end TypeSchema
