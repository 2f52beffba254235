import Mathlib.Data.List.Find
import Mathlib.Data.List.Forall2
import Mathlib.Logic.Equiv.Basic
import TypeSchema.Proofs.Attribution

namespace TypeSchema

/-!
# Other spellings

Words can be spelled differently.  If the reserved words stay as they are, if
different words stay different, and if blank names stay blank and no others
become so, then nothing else happens: step by step a driver does to the other
tokens what it does to the given ones, and it ends up with the same definitions
under other names.  How the other tokens are written, the literals among them,
has no influence at all.
-/

instance (text : String) : Decidable (IsTelling text) :=
  decidable_of_iff (Parser.isBlankName text = false) Parser.isBlankName_eq_false_iff

namespace Token

/-- The token with another spelling: words are respelled by their texts, all
other tokens in any way. -/
def respell (onWord : String -> String) (onOther : Token -> String) (token : Token) : Token :=
  { token with text := if token.kind = .word then onWord token.text else onOther token }

/-- What is asked of another spelling of words. -/
structure IsRespelling (onWord : String -> String) : Prop where
  injective : Function.Injective onWord
  reserved : forall text, text ∈ reservedWords -> onWord text = text
  telling : forall text, IsTelling (onWord text) <-> IsTelling text

variable {onWord : String -> String} {onOther : Token -> String}

@[simp] theorem kind_respell (token : Token) : (respell onWord onOther token).kind = token.kind :=
  rfl

theorem text_respell {token : Token} (word : token.kind = .word) :
    (respell onWord onOther token).text = onWord token.text :=
  if_pos word

namespace IsRespelling

theorem isRenaming (respells : IsRespelling onWord) (onOther : Token -> String) :
    IsRenaming (respell onWord onOther) where
  kind := kind_respell
  reserved := by
    intro token word text reserved
    rw [text_respell word]
    constructor
    · intro same
      exact respells.injective (same.trans (respells.reserved text reserved).symm)
    · rintro rfl
      exact respells.reserved _ reserved
  apart := by
    intro left right leftWord rightWord
    rw [text_respell leftWord, text_respell rightWord]
    exact respells.injective.eq_iff
  blank := by
    intro token word
    rw [text_respell word, Bool.eq_iff_iff, ← not_iff_not, Bool.not_eq_true, Bool.not_eq_true,
      Parser.isBlankName_eq_false_iff, Parser.isBlankName_eq_false_iff]
    exact respells.telling token.text

theorem comp {first second : String -> String} (respells : IsRespelling second)
    (others : IsRespelling first) : IsRespelling (second ∘ first) where
  injective := respells.injective.comp others.injective
  reserved := by
    intro text reserved
    rw [Function.comp_apply, others.reserved text reserved, respells.reserved text reserved]
  telling := by
    intro text
    rw [Function.comp_apply, respells.telling, others.telling]

/-- Two words that are not reserved can change places, if both of them say
something or none of them does. -/
theorem swap {left right : String} (leftFree : left ∉ reservedWords)
    (rightFree : right ∉ reservedWords) (alike : IsTelling left <-> IsTelling right) :
    IsRespelling (Equiv.swap left right) where
  injective := (Equiv.swap left right).injective
  reserved := by
    intro text reserved
    exact Equiv.swap_apply_of_ne_of_ne (fun same => leftFree (same ▸ reserved))
      fun same => rightFree (same ▸ reserved)
  telling := by
    intro text
    rw [Equiv.swap_apply_def]
    split
    · next same => rw [same, alike]
    · split
      · next same => rw [same, alike]
      · rfl

end IsRespelling

/-! ## Looking up other names -/

section Lookup

variable {α : Type} (named : α -> Token) {onItem : α -> α}
  (renamed : forall item, named (onItem item) = respell onWord onOther (named item))
  {items : List α} (words : forall item, item ∈ items -> (named item).kind = .word)

include renamed words

/-- The names of items with other names are the other names. -/
theorem names_respell : (items.map onItem).map (fun item => (named item).text) =
    (items.map fun item => (named item).text).map onWord := by
  rw [List.map_map, List.map_map]
  apply List.map_congr_left
  intro item member
  rw [Function.comp_apply, Function.comp_apply, renamed, text_respell (words item member)]

variable (respells : IsRespelling onWord)

include respells

theorem find?_respell (name : String) :
    (Index.of ((items.map onItem).map fun item => (named item).text)).find? (onWord name) =
      (Index.of (items.map fun item => (named item).text)).find? name := by
  rw [names_respell named renamed words, Index.find?_of_map respells.injective]

theorem item?_respell (name : String) :
    (Index.of ((items.map onItem).map fun item => (named item).text)).item? (items.map onItem)
        (onWord name) =
      ((Index.of (items.map fun item => (named item).text)).item? items name).map onItem := by
  rw [Index.item?, Index.item?, find?_respell named renamed words respells, Option.map_bind]
  congr 1
  funext place
  exact List.getElem?_map

end Lookup

end Token

/-- The other diagnostic is of the same category and blames the token at the same
index.  An index behind the last token stands for no token. -/
structure Diagnostic.Mirrors (tokens others : List Token) (diagnostic other : Diagnostic) : Prop where
  category : other.category = diagnostic.category
  blamed : Exists fun index : Nat =>
    diagnostic.token? = tokens[index]? ∧ other.token? = others[index]?

namespace Schema

open Grammar
open Token (respell IsRespelling)

/-! ## Schemas that were read -/

/-- Every definition has been read from tokens. -/
def Spelled (schema : Schema) : Prop :=
  forall definition, definition ∈ schema.definitions ->
    Exists fun taken => SpellsDefinition taken definition

theorem spelled_empty : empty.Spelled :=
  fun _ impossible => absurd impossible List.not_mem_nil

theorem Spelled.namedByWords {schema : Schema} (spelled : schema.Spelled) :
    schema.NamedByWords := by
  intro definition member
  rcases spelled definition member with ⟨taken, definitionSpelled⟩
  exact nameWord_of_spelled definitionSpelled

theorem spelled_step {schema : Schema} (spelled : schema.Spelled) (tokens : List Token) :
    (schema.step tokens).schema.Spelled := by
  rcases schema.step_schema_cases tokens with unchanged | ⟨definition, entered⟩
  · rw [unchanged]
    exact spelled
  · rcases (enters_iff.mp entered).1 with ⟨taken, _, definitionSpelled, _⟩
    rw [entered.2.1]
    intro other member
    rcases List.mem_append.mp member with before | isNew
    · exact spelled other before
    · rw [List.mem_singleton.mp isNew]
      exact ⟨taken, definitionSpelled⟩

theorem memberWords_of_spelled {taken : List Token} {definition : EnumDefinition}
    (spelled : SpellsDefinition taken (.enum definition)) :
    forall member, member ∈ definition.members -> member.kind = .word := by
  cases spelled with
  | enum _ _ _ _ listing _ _ =>
      intro member inside
      rcases listing.exists_of_mem inside with ⟨own, ownSpelled⟩
      cases ownSpelled with
      | member word => exact word

theorem fieldWords_of_spelled {taken : List Token} {definition : TypeDefinition}
    (spelled : SpellsDefinition taken (.type definition)) :
    forall field, field ∈ definition.fields -> field.name.kind = .word := by
  cases spelled with
  | type _ _ _ _ _ listing _ =>
      intro field inside
      rcases listing.exists_of_mem inside with ⟨own, ownSpelled⟩
      cases ownSpelled with
      | field _ word _ _ => exact word

/-! ## Mirrored steps -/

section Mirrors

variable (onWord : String -> String) (onOther : Token -> String)

/-- The other schema holds the same definitions with the other spelling, and
whatever is looked up in it is found under the other name. -/
structure Mirrors (schema other : Schema) : Prop where
  definitions : other = schema.mapTokens (respell onWord onOther)
  find : forall name, other.find? (onWord name) =
    (schema.find? name).map (Definition.mapTokens (respell onWord onOther))
  ordinal : forall definition, .enum definition ∈ schema.definitions -> forall name,
    (definition.mapTokens (respell onWord onOther)).ordinal? (onWord name) = definition.ordinal? name
  field : forall definition, .type definition ∈ schema.definitions -> forall name,
    (definition.mapTokens (respell onWord onOther)).field? (onWord name) =
      (definition.field? name).map (Field.mapTokens (respell onWord onOther))

/-- The other step comes to the same with the other spelling.  Both of them are
steps on an end of these tokens, or of the other ones. -/
structure Step.Mirrors (tokens : List Token) (step other : Step) : Prop where
  success : forall name, step.outcome = .ok name -> other.outcome = .ok (name.map onWord)
  failure : forall diagnostic, step.outcome = .error diagnostic ->
    other.outcome = .error (diagnostic.mapTokens (respell onWord onOther)) ∧
      diagnostic.Mirrors tokens (tokens.map (respell onWord onOther))
        (diagnostic.mapTokens (respell onWord onOther))
  rest : other.rest = step.rest.map (respell onWord onOther)
  schema : step.schema.Mirrors onWord onOther other.schema
  events : other.events = step.events.map (Event.mapTokens (respell onWord onOther))

end Mirrors

variable {onWord : String -> String}

/-- The diagnostic with the other spelling blames the token at the same index. -/
theorem mirrors_of_rejects (onOther : Token -> String) {schema : Schema}
    {tokens ahead rest : List Token} {diagnostic : Diagnostic} (suffix : ahead <:+ tokens)
    (rejected : schema.Rejects ahead diagnostic rest) :
    diagnostic.Mirrors tokens (tokens.map (respell onWord onOther))
      (diagnostic.mapTokens (respell onWord onOther)) where
  category := Diagnostic.category_mapTokens _ diagnostic
  blamed := by
    rw [Diagnostic.token?_mapTokens Token.kind_respell]
    cases blamed : diagnostic.token? with
    | none => exact ⟨tokens.length, by simp⟩
    | some token =>
        have member := suffix.subset (rejected.mem_of_blamed blamed)
        rcases List.mem_iff_getElem?.mp member with ⟨index, found⟩
        exact ⟨index, found.symm, by rw [List.getElem?_map, found]⟩

variable (respells : IsRespelling onWord)

include respells

theorem mirrors_mapTokens (onOther : Token -> String) {schema : Schema} (spelled : schema.Spelled) :
    schema.Mirrors onWord onOther (schema.mapTokens (respell onWord onOther)) where
  definitions := rfl
  find := by
    intro name
    rw [find?, find?, Schema.indexed, schema.indexed]
    exact Token.item?_respell Definition.name (Definition.name_mapTokens _) spelled.namedByWords
      respells name
  ordinal := by
    intro definition member name
    rcases spelled _ member with ⟨taken, definitionSpelled⟩
    rw [EnumDefinition.ordinal?, EnumDefinition.ordinal?, EnumDefinition.indexed, definition.indexed]
    exact Token.find?_respell id (fun _ => rfl) (memberWords_of_spelled definitionSpelled) respells name
  field := by
    intro definition member name
    rcases spelled _ member with ⟨taken, definitionSpelled⟩
    rw [TypeDefinition.field?, TypeDefinition.field?, TypeDefinition.indexed, definition.indexed]
    exact Token.item?_respell Field.name (fun _ => rfl) (fieldWords_of_spelled definitionSpelled)
      respells name

theorem step_mirrors (onOther : Token -> String) {schema : Schema} (spelled : schema.Spelled)
    {tokens ahead : List Token} (suffix : ahead <:+ tokens) :
    (schema.step ahead).Mirrors onWord onOther tokens
      ((schema.mapTokens (respell onWord onOther)).step (ahead.map (respell onWord onOther))) := by
  have renamed := step_map (respells.isRenaming onOther) spelled.namedByWords ahead
  constructor
  case success =>
    intro name succeeded
    cases name with
    | none =>
        rw [step_outcome_eq_none_iff.mp succeeded]
        rfl
    | some name =>
        rcases enters_of_success succeeded with ⟨definition, entered⟩
        have word := entered.nameWord
        have other := entered.map (respells.isRenaming onOther) spelled.namedByWords
        have same := Option.some.inj (Except.ok.inj (succeeded.symm.trans entered.1))
        rw [other.1, Definition.name_mapTokens, Token.text_respell word, same]
        rfl
  case failure =>
    intro diagnostic failed
    exact ⟨renamed.failure diagnostic failed,
      mirrors_of_rejects onOther suffix (rejects_of_error failed)⟩
  case rest => exact renamed.rest
  case schema =>
    rw [renamed.schema]
    exact mirrors_mapTokens respells onOther (spelled_step spelled ahead)
  case events => exact renamed.events

/-! ## Mirrored runs -/

/-- The driver of a schema that was read has a mirror image. -/
theorem Drives.mirror (onOther : Token -> String) {schema last : Schema}
    {tokens ahead : List Token} {steps : List Step} (drives : Drives schema ahead steps last)
    (spelled : schema.Spelled) (suffix : ahead <:+ tokens) :
    Exists fun others => Exists fun otherLast =>
      Drives (schema.mapTokens (respell onWord onOther)) (ahead.map (respell onWord onOther)) others
          otherLast ∧
        List.Forall₂ (Step.Mirrors onWord onOther tokens) steps others ∧
        last.Mirrors onWord onOther otherLast := by
  induction drives with
  | done nothing =>
      refine ⟨[], _, .done ?_, .nil, mirrors_mapTokens respells onOther spelled⟩
      rw [step_outcome_eq_none_iff.mp nothing]
      rfl
  | @next schema last ahead later something _ ih =>
      have mirrors := step_mirrors respells onOther spelled suffix
      rcases ih (spelled_step spelled ahead) ((schema.step_suffix ahead).trans suffix) with
        ⟨others, otherLast, drives, all, lastMirrors⟩
      rw [← mirrors.rest, ← mirrors.schema.definitions] at drives
      refine ⟨_, otherLast, .next ?_ drives, .cons mirrors all, lastMirrors⟩
      intro nothing
      have isEmpty := List.map_eq_nil_iff.mp (step_outcome_eq_none_iff.mp nothing)
      exact something (step_outcome_eq_none_iff.mpr isEmpty)

/-- A driver that goes on behind failures until it finds no tokens makes as many
steps on the tokens with the other spelling.  Each of them mirrors the one on the
given tokens, and so does what the driver has in the end. -/
theorem steps_respelled (onOther : Token -> String) (tokens : List Token) :
    Exists fun last => Exists fun otherLast =>
      Drives empty tokens (empty.steps tokens) last ∧
        Drives empty (tokens.map (respell onWord onOther))
          (empty.steps (tokens.map (respell onWord onOther))) otherLast ∧
        List.Forall₂ (Step.Mirrors onWord onOther tokens) (empty.steps tokens)
          (empty.steps (tokens.map (respell onWord onOther))) ∧
        last.Mirrors onWord onOther otherLast := by
  rcases empty.drives_steps tokens with ⟨last, drives, _⟩
  rcases empty.drives_steps (tokens.map (respell onWord onOther)) with ⟨otherLast, otherDrives, _⟩
  rcases drives.mirror respells onOther spelled_empty (List.suffix_refl tokens) with
    ⟨others, reached, mirrored, all, lastMirrors⟩
  rcases otherDrives.unique mirrored with ⟨rfl, rfl⟩
  exact ⟨last, reached, drives, otherDrives, all, lastMirrors⟩

omit respells

/-- A name that is used throughout changes places with one that is not used, and
so do two members and two blank names. -/
def otherNames : String -> String :=
  Equiv.swap "A" "Animal" ∘ Equiv.swap "X" "Y" ∘ Equiv.swap "_" "__"

theorem isRespelling_otherNames : IsRespelling otherNames :=
  (IsRespelling.swap (by decide) (by decide) (by decide)).comp
    ((IsRespelling.swap (by decide) (by decide) (by decide)).comp
      (IsRespelling.swap (by decide) (by decide) (by decide)))

/-- Two definitions, a third one under a name that is taken, a field with a blank
name, braces that match nothing, and a definition that is cut off. -/
def brokenText : String :=
  "enum A \x7b X Y \x7d type B : A \x7b A a[] = \x7b x = A::X, y = A::Y \x7d \x7d" ++
    "type A \x7b \x7d type C \x7b B __ \x7d \x7d type D \x7b D d = "

/-- What a step has entered, and the number of tokens behind it. -/
def Step.summary (step : Step) : Option (Option String) × Nat :=
  (step.outcome.toOption, step.rest.length)

theorem steps_respelled_brokenText :
    IsRespelling otherNames ∧ Exists fun tokens => Scan.tokens brokenText = .ok tokens ∧
      List.Forall₂ (Step.Mirrors otherNames (fun _ => "") tokens) (empty.steps tokens)
        (empty.steps (tokens.map (respell otherNames fun _ => ""))) ∧
      (empty.steps tokens).map Step.summary =
        [(some (some "A"), 41), (some (some "B"), 17), (none, 13), (none, 8), (none, 7), (none, 6),
          (none, 0)] ∧
      (empty.steps (tokens.map (respell otherNames fun _ => ""))).map Step.summary =
        [(some (some "Animal"), 41), (some (some "B"), 17), (none, 13), (none, 8), (none, 7),
          (none, 6), (none, 0)] := by
  have scanned : Scan.tokens brokenText = .ok (Scan.start brokenText).run.tokens :=
    Scan.tokens_eq_ok_iff.mpr ⟨by decide +kernel, rfl⟩
  rcases steps_respelled isRespelling_otherNames (fun _ => "") (Scan.start brokenText).run.tokens with
    ⟨_, _, _, _, mirrored, _⟩
  refine ⟨isRespelling_otherNames, _, scanned, mirrored, ?_, ?_⟩
  · decide +kernel
  · decide +kernel

end Schema
end TypeSchema
