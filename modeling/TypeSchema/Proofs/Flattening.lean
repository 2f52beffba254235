import Mathlib.Data.List.Forall2
import TypeSchema.Proofs.Commas
import TypeSchema.Proofs.Occurrence

namespace TypeSchema

/-!
# Nothing but commas is lost

A definition can be written down again as a row of parts: the tokens that it
holds, and between them the marks that it only implies, such as the equals sign
of an assignment.  The tokens of the definition, commas apart, are this row.
The order of the tokens in a definition is therefore the order in the text, and
the braces that a list holds are those that match in the text.
-/

/-- A part of what is written down: a token that is held, or a mark of which
only the kind is known. -/
inductive Part where
  | held (token : Token)
  | mark (kind : Token.Kind)

namespace Part

/-- A held token is found itself, and a mark by its kind. -/
def Fits : Part -> Token -> Prop
  | held token, found => found = token
  | mark kind, found => found.kind = kind

def token? : Part -> Option Token
  | held token => some token
  | mark _ => none

end Part

namespace Value

mutual

/-- A value as a row of parts. -/
def flatten : Value -> List Part
  | scalar literal => [.held literal.token]
  | reference enumName member => [.held enumName, .mark .scope, .held member]
  | assignment name value => .held name :: .mark .equals :: value.flatten
  | compound opening closing _ children =>
      .held opening :: (flattenAll children ++ [.held closing])

/-- Values one behind the other. -/
def flattenAll : List Value -> List Part
  | [] => []
  | value :: values => value.flatten ++ flattenAll values

end

/-- The value is the other one, or stands in it. -/
inductive Holds : Value -> Value -> Prop where
  | itself {value : Value} : Holds value value
  | assigned {name : Token} {value inner : Value} : Holds value inner ->
      Holds (.assignment name value) inner
  | listed {opening closing : Token} {shape : Shape} {children : List Value} {child inner : Value} :
      child ∈ children -> Holds child inner -> Holds (.compound opening closing shape children) inner

end Value

/-- A field as a row of parts. -/
def Field.flatten (field : Field) : List Part :=
  .held field.typeName :: .held field.name ::
    ((if field.isArray then [.mark .openBracket, .mark .closeBracket] else []) ++
      match field.defaultValue with
      | some value => .mark .equals :: value.flatten
      | none => [])

namespace Definition

/-- A parent behind its colon. -/
def flattenParent : Option Token -> List Part
  | some parent => [.mark .colon, .held parent]
  | none => []

/-- A definition as a row of parts. -/
def flatten : Definition -> List Part
  | enum definition =>
      .held definition.keyword :: .held definition.name :: .mark .openBrace ::
        (definition.members.map .held ++ [.mark .closeBrace])
  | type definition =>
      .held definition.keyword :: .held definition.name ::
        (flattenParent definition.parent ++ .mark .openBrace ::
          (definition.fields.flatMap Field.flatten ++ [.mark .closeBrace]))

/-- The tokens that the definition holds, in the order of its parts. -/
def tokens (definition : Definition) : List Token :=
  definition.flatten.filterMap Part.token?

/-- The value stands in a default value of the definition. -/
def Holds : Definition -> Value -> Prop
  | enum _, _ => False
  | type definition, inner =>
      Exists fun field => field ∈ definition.fields ∧
        Exists fun value => value ∈ field.defaultValue ∧ value.Holds inner

end Definition

/-- The braces of the tokens match each other. -/
inductive Balanced : List Token -> Prop where
  | nil : Balanced []
  | other {token : Token} {behind : List Token} : token.kind ≠ .openBrace ->
      token.kind ≠ .closeBrace -> Balanced behind -> Balanced (token :: behind)
  | braces {opening closing : Token} {inside behind : List Token} : opening.kind = .openBrace ->
      Balanced inside -> closing.kind = .closeBrace -> Balanced behind ->
      Balanced (opening :: (inside ++ closing :: behind))

/-- The children of a list stand between two tokens, which are braces that match
each other. -/
def Encloses (taken : List Token) (opening closing : Token) (children : List Value) : Prop :=
  Exists fun inside => opening :: (inside ++ [closing]) <:+: taken ∧
    opening.kind = .openBrace ∧ Balanced inside ∧ closing.kind = .closeBrace ∧
    List.Forall₂ Part.Fits (Value.flattenAll children) (withoutCommas inside)

/-! ## Rows of parts -/

theorem Balanced.append {left right : List Token} (first : Balanced left) (second : Balanced right) :
    Balanced (left ++ right) := by
  induction first with
  | nil => exact second
  | other noOpening noClosing _ ih => exact .other noOpening noClosing ih
  | braces opens inside closes _ _ ih =>
      simp only [List.cons_append, List.append_assoc]
      exact .braces opens inside closes ih

theorem sublist_of_fits {parts : List Part} {tokens : List Token}
    (fits : List.Forall₂ Part.Fits parts tokens) :
    (parts.filterMap Part.token?).Sublist tokens := by
  induction fits with
  | nil => exact .slnil
  | @cons part token parts tokens fit _ ih =>
      cases part with
      | held kept =>
          have same : token = kept := fit
          subst same
          exact ih.cons_cons token
      | mark kind => exact ih.cons token

namespace Grammar

variable {α : Type}

theorem Listing.balanced {item : List Token -> α -> Prop}
    (balanced : forall taken value, item taken value -> Balanced taken) {body : List Token}
    {values : List α} (listing : Listing item body values) : Balanced body := by
  induction listing with
  | nil => exact .nil
  | @cons taken commas behind value values spelled areCommas _ ih =>
      refine (balanced taken value spelled).append ?_
      have others : Balanced commas := by
        clear ih
        induction commas with
        | nil => exact .nil
        | cons comma commas commasIH =>
            have kind := areCommas comma (List.mem_cons_self ..)
            refine .other (by simp [kind]) (by simp [kind]) (commasIH ?_)
            intro token member
            exact areCommas token (List.mem_cons_of_mem _ member)
      exact others.append ih

theorem Listing.fits {item : List Token -> α -> Prop} {parts : α -> List Part}
    (fits : forall taken value, item taken value ->
      List.Forall₂ Part.Fits (parts value) (withoutCommas taken))
    {body : List Token} {values : List α} (listing : Listing item body values) :
    List.Forall₂ Part.Fits (values.flatMap parts) (withoutCommas body) := by
  induction listing with
  | nil => exact .nil
  | @cons taken commas behind value values spelled areCommas _ ih =>
      rw [withoutCommas_append, withoutCommas_append, withoutCommas_eq_nil areCommas,
        List.flatMap_cons]
      exact List.rel_append (fits taken value spelled) ih

/-! ## Values -/

theorem flattenAll_eq (values : List Value) :
    Value.flattenAll values = values.flatMap Value.flatten := by
  induction values with
  | nil => rw [Value.flattenAll, List.flatMap_nil]
  | cons value values ih => rw [Value.flattenAll, ih, List.flatMap_cons]

theorem fits_flatten :
    Hereditary fun taken value => List.Forall₂ Part.Fits value.flatten (withoutCommas taken) where
  literal := by
    intro token kind literal
    rw [withoutCommas_cons literal.kind_ne_comma, Value.flatten]
    exact .cons rfl .nil
  reference := by
    intro enumName scope member word _ isScope memberWord
    rw [withoutCommas_cons (by simp [word]), withoutCommas_cons (by simp [isScope]),
      withoutCommas_cons (by simp [memberWord]), Value.flatten]
    exact .cons rfl (.cons isScope (.cons rfl .nil))
  assignment := by
    intro name equals taken value word isEquals _ fits
    rw [withoutCommas_cons (by simp [word]), withoutCommas_cons (by simp [isEquals]), Value.flatten]
    exact .cons rfl (.cons isEquals fits)
  compound := by
    intro opening closing body children opens listing closes
    have fits := listing.fits fun _ _ spelled => spelled.2
    rw [withoutCommas_cons (by simp [opens]), withoutCommas_append,
      withoutCommas_cons (by simp [closes]), Value.flatten, flattenAll_eq]
    exact .cons rfl (List.rel_append fits (.cons rfl .nil))

theorem balanced_value : Hereditary fun taken _ => Balanced taken where
  literal := by
    intro token kind literal
    cases literal <;> exact .other (by simp_all) (by simp_all) .nil
  reference := by
    intro enumName scope member word _ isScope memberWord
    exact .other (by simp [word]) (by simp [word]) (.other (by simp [isScope]) (by simp [isScope])
      (.other (by simp [memberWord]) (by simp [memberWord]) .nil))
  assignment := by
    intro name equals taken value word isEquals _ balanced
    exact .other (by simp [word]) (by simp [word])
      (.other (by simp [isEquals]) (by simp [isEquals]) balanced)
  compound := by
    intro opening closing body children opens listing closes
    exact .braces opens (listing.balanced fun _ _ spelled => spelled.2) closes .nil

/-- A value that stands in another one is spelled by a part of its tokens. -/
theorem spells_held : Hereditary fun taken value => forall inner, value.Holds inner ->
    Exists fun own => own <:+: taken ∧ SpellsChild own inner where
  literal := by
    intro token kind literal inner holds
    cases holds with
    | itself => exact ⟨_, List.infix_rfl, .value (.literal literal)⟩
  reference := by
    intro enumName scope member word plain isScope memberWord inner holds
    cases holds with
    | itself => exact ⟨_, List.infix_rfl, .value (.reference word plain isScope memberWord)⟩
  assignment := by
    intro name equals taken value word isEquals spelled held inner holds
    cases holds with
    | itself => exact ⟨_, List.infix_rfl, .assignment word isEquals spelled⟩
    | assigned deeper =>
        rcases held inner deeper with ⟨own, infixed, ownSpelled⟩
        exact ⟨own, infixed.trans (List.suffix_append [name, equals] taken).isInfix, ownSpelled⟩
  compound := by
    intro opening closing body children opens listing closes inner holds
    cases holds with
    | itself =>
        have spelled : Listing SpellsChild body children := listing.mono fun _ _ spelled => spelled.1
        exact ⟨_, List.infix_rfl, .value (.compound opens spelled closes)⟩
    | listed member deeper =>
        rcases listing.exists_place member with
          ⟨before, taken, behind, _, _, rfl, _, _, ⟨_, held⟩, _⟩
        rcases held inner deeper with ⟨own, infixed, ownSpelled⟩
        refine ⟨own, infixed.trans ⟨opening :: before, behind ++ [closing], ?_⟩, ownSpelled⟩
        simp only [List.cons_append, List.append_assoc]

/-! ## Definitions -/

theorem fits_field {taken : List Token} {field : Field} (spelled : SpellsField taken field) :
    List.Forall₂ Part.Fits field.flatten (withoutCommas taken) := by
  cases spelled with
  | field word name mark initial =>
      rw [withoutCommas_cons (by simp [word]), withoutCommas_cons (by simp [name]),
        withoutCommas_append, Field.flatten]
      refine .cons rfl (.cons rfl (List.rel_append ?_ ?_))
      · cases mark with
        | absent => exact .nil
        | present opens closes =>
            rw [withoutCommas_cons (by simp [opens]), withoutCommas_cons (by simp [closes])]
            exact .cons opens (.cons closes .nil)
      · cases initial with
        | absent => exact .nil
        | present equals inner =>
            rw [withoutCommas_cons (by simp [equals])]
            exact .cons equals (fits_flatten.value inner)

theorem fits_member {taken : List Token} {member : Token} (spelled : SpellsMember taken member) :
    List.Forall₂ Part.Fits [.held member] (withoutCommas taken) := by
  cases spelled with
  | member word =>
      rw [withoutCommas_cons (by simp [word])]
      exact .cons rfl .nil

theorem fits_parent {taken : List Token} {parent : Option Token}
    (spelled : SpellsParent taken parent) :
    List.Forall₂ Part.Fits (Definition.flattenParent parent) (withoutCommas taken) := by
  cases spelled with
  | absent => exact .nil
  | present colon word =>
      rw [withoutCommas_cons (by simp [colon]), withoutCommas_cons (by simp [word])]
      exact .cons colon (.cons rfl .nil)

theorem fits_definition {taken : List Token} {definition : Definition}
    (spelled : SpellsDefinition taken definition) :
    List.Forall₂ Part.Fits definition.flatten (withoutCommas taken) := by
  cases spelled with
  | @enum keyword name opening closing body members word _ named opens listing _ closes =>
      have body := listing.fits fun _ _ spelled => fits_member spelled
      rw [← List.map_eq_flatMap] at body
      rw [withoutCommas_cons (by simp [word]), withoutCommas_cons (by simp [named]),
        withoutCommas_cons (by simp [opens]), withoutCommas_append,
        withoutCommas_cons (by simp [closes]), Definition.flatten]
      exact .cons rfl (.cons rfl (.cons opens (List.rel_append body (.cons closes .nil))))
  | @type keyword name opening closing _ body parent fields word _ named parentSpelled opens listing
      closes =>
      have inner := listing.fits fun _ _ spelled => fits_field spelled
      have ending : List.Forall₂ Part.Fits [.mark .closeBrace] [closing] := .cons closes .nil
      have braced : List.Forall₂ Part.Fits
          (.mark .openBrace :: (fields.flatMap Field.flatten ++ [.mark .closeBrace]))
          (opening :: (withoutCommas body ++ [closing])) :=
        .cons opens (List.rel_append inner ending)
      rw [withoutCommas_cons (by simp [word]), withoutCommas_cons (by simp [named]),
        withoutCommas_append, withoutCommas_cons (by simp [opens]), withoutCommas_append,
        withoutCommas_cons (by simp [closes]), Definition.flatten]
      exact .cons rfl (.cons rfl (List.rel_append (fits_parent parentSpelled) braced))

/-- So is a value that stands in a default value of a definition. -/
theorem spells_held_definition {taken : List Token} {definition : Definition}
    (spelled : SpellsDefinition taken definition) {inner : Value} (holds : definition.Holds inner) :
    Exists fun own => own <:+: taken ∧ SpellsChild own inner := by
  cases spelled with
  | enum => exact holds.elim
  | @type keyword name first last ancestry body parent fields word _ named _ opens listing closes =>
      rcases holds with ⟨field, member, value, isDefault, holds⟩
      rcases listing.exists_place member with
        ⟨before, own, behind, _, _, rfl, _, _, fieldSpelled, _⟩
      cases fieldSpelled with
      | @field typeName fieldName mark initial _ _ _ _ _ defaultSpelled =>
          cases defaultSpelled with
          | absent => cases isDefault
          | @present equals taken value _ valueSpelled =>
              rcases Option.some.inj isDefault with rfl
              rcases spells_held.value valueSpelled inner holds with ⟨inside, infixed, innerSpelled⟩
              refine ⟨inside, infixed.trans ⟨keyword :: name :: (ancestry ++ first :: (before ++
                (typeName :: fieldName :: (mark ++ [equals])))), behind ++ [last], ?_⟩, innerSpelled⟩
              simp only [List.cons_append, List.append_assoc, List.nil_append]

theorem encloses_definition {taken : List Token} {definition : Definition}
    (spelled : SpellsDefinition taken definition) {opening closing : Token} {shape : Shape}
    {children : List Value} (holds : definition.Holds (.compound opening closing shape children)) :
    Encloses taken opening closing children := by
  rcases spells_held_definition spelled holds with ⟨own, infixed, inner⟩
  cases inner with
  | value list =>
      cases list with
      | @compound _ _ body _ opens listing closes =>
          have fits := listing.fits fun _ _ spelled => fits_flatten.child spelled
          rw [← flattenAll_eq] at fits
          exact ⟨body, infixed, opens,
            listing.balanced fun _ _ spelled => balanced_value.child spelled, closes, fits⟩

end Grammar

namespace Schema

open Grammar

/-- The tokens with which a definition is entered are its parts, and commas.
Each list in its default values stands between braces that match each other.
If the tokens come from a text, then those that the definition holds start one
behind the other. -/
theorem enters_flattened {schema : Schema} {tokens rest : List Token} {definition : Definition}
    (entered : schema.Enters tokens definition rest) :
    Exists fun taken => tokens = taken ++ rest ∧
      List.Forall₂ Part.Fits definition.flatten (withoutCommas taken) ∧
      (forall opening closing shape children,
        definition.Holds (.compound opening closing shape children) ->
          Encloses taken opening closing children) ∧
      forall text all, Scan.tokens text = .ok all -> tokens <:+ all ->
        definition.tokens.Pairwise fun left right => left.start < right.start := by
  rcases (enters_iff.mp entered).1 with ⟨taken, rfl, spelled, _⟩
  have fits := fits_definition spelled
  refine ⟨taken, rfl, fits, fun _ _ _ _ holds => encloses_definition spelled holds, ?_⟩
  intro text all scanned suffix
  have inside : definition.tokens.Sublist all :=
    (sublist_of_fits fits).trans (List.filter_sublist.trans
      ((List.sublist_append_left taken rest).trans suffix.sublist))
  exact (Scan.increasing_of_tokens scanned).sublist inside

/-- A type with an object of lists for a default value. -/
def objectText : String :=
  "type B : A \x7b C c[] = \x7b x = \x7b1, 2,\x7d, y = \x7b\x7d \x7d, \x7d"

theorem enters_flattened_objectText :
    Exists fun all => Scan.tokens objectText = .ok all ∧ Exists fun definition =>
      empty.Enters all definition [] ∧
      List.Forall₂ Part.Fits definition.flatten (withoutCommas all) ∧
      (definition.tokens.Pairwise fun left right => left.start < right.start) ∧
      definition.tokens.map Token.text =
        ["type", "B", "A", "C", "c", "\x7b", "x", "\x7b", "1", "2", "\x7d", "y", "\x7b", "\x7d", "\x7d"] := by
  have scanned : Scan.tokens objectText = .ok (Scan.start objectText).run.tokens :=
    Scan.tokens_eq_ok_iff.mpr ⟨by decide +kernel, rfl⟩
  have name : (empty.step (Scan.start objectText).run.tokens).outcome.toOption = some (some "B") := by
    decide +kernel
  have left : (empty.step (Scan.start objectText).run.tokens).rest = [] := by decide +kernel
  have texts : ((empty.step (Scan.start objectText).run.tokens).schema.definitions.flatMap
      Definition.tokens).map Token.text =
        ["type", "B", "A", "C", "c", "\x7b", "x", "\x7b", "1", "2", "\x7d", "y", "\x7b", "\x7d", "\x7d"] := by
    decide +kernel
  generalize (Scan.start objectText).run.tokens = all at scanned name left texts
  have entered : Exists fun definition => empty.Enters all definition [] := by
    cases all with
    | nil => cases name
    | cons first behind =>
        cases success : (empty.step (first :: behind)).outcome with
        | error diagnostic =>
            rw [success] at name
            cases name
        | ok entry =>
            rcases step_cons_success success with ⟨definition, _, entered, _⟩
            exact ⟨definition, left ▸ entered⟩
  rcases entered with ⟨definition, entered⟩
  rcases enters_flattened entered with ⟨taken, split, fits, _, ordered⟩
  rw [List.append_nil] at split
  subst split
  rw [entered.2.1] at texts
  refine ⟨all, scanned, definition, entered, fits, ordered _ _ scanned (List.suffix_refl _), ?_⟩
  simpa [empty] using texts

end Schema
end TypeSchema
