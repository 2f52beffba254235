import TypeSchema.Proofs.Declarations
import TypeSchema.Proofs.Surroundings

namespace TypeSchema

/-!
# Commas carry no meaning

Commas stand behind the items of lists and nowhere else, and the rules do not
count them.  To leave all of them out, or to put more of them behind an item,
therefore leaves every derivation in place, and with it the tree.  That the
items do not run into each other without commas is no concern of the rules; it
is settled where lists are shown to be read as they are spelled.
-/

/-- The tokens that are no commas. -/
def withoutCommas (tokens : List Token) : List Token :=
  tokens.filter fun token => !token.is .comma

@[simp] theorem withoutCommas_append (left right : List Token) :
    withoutCommas (left ++ right) = withoutCommas left ++ withoutCommas right :=
  List.filter_append ..

theorem withoutCommas_cons {token : Token} (other : token.kind ≠ .comma) (tokens : List Token) :
    withoutCommas (token :: tokens) = token :: withoutCommas tokens := by
  apply List.filter_cons_of_pos
  simp [Token.is, other]

theorem withoutCommas_eq_nil {commas : List Token}
    (all : forall token, token ∈ commas -> token.kind = .comma) : withoutCommas commas = [] := by
  apply List.filter_eq_nil_iff.mpr
  intro token member
  simp [Token.is, all token member]

namespace Grammar

variable {α : Type}

/-! ## Leaving commas out -/

theorem Listing.dropCommas {item other : List Token -> α -> Prop}
    (drops : forall taken value, item taken value -> other (withoutCommas taken) value)
    {body : List Token} {values : List α} (listing : Listing item body values) :
    Listing other (withoutCommas body) values := by
  induction listing with
  | nil => exact .nil
  | @cons taken commas behind value values spelled areCommas _ ih =>
      have whole : withoutCommas (taken ++ (commas ++ behind)) =
          withoutCommas taken ++ ([] ++ withoutCommas behind) := by
        rw [withoutCommas_append, withoutCommas_append, withoutCommas_eq_nil areCommas]
      rw [whole]
      exact .cons (drops taken value spelled) nofun ih

theorem IsLiteral.kind_ne_comma {token : Token} {kind : Scalar.Kind} (literal : IsLiteral token kind) :
    token.kind ≠ .comma := by
  cases literal <;> simp_all

theorem spells_withoutCommas :
    Hereditary fun taken value => SpellsChild (withoutCommas taken) value where
  literal := by
    intro token kind literal
    rw [withoutCommas_cons literal.kind_ne_comma]
    exact .value (.literal literal)
  reference := by
    intro enumName scope member word plain isScope memberWord
    rw [withoutCommas_cons (by simp [word]), withoutCommas_cons (by simp [isScope]),
      withoutCommas_cons (by simp [memberWord])]
    exact .value (.reference word plain isScope memberWord)
  assignment := by
    intro name equals taken value word isEquals spelled shorter
    rw [withoutCommas_cons (by simp [word]), withoutCommas_cons (by simp [isEquals])]
    exact .assignment word isEquals (shorter.value_of_kind spelled.kind_ne_assignment)
  compound := by
    intro opening closing body children opens listing closes
    have shorter : Listing SpellsChild (withoutCommas body) children :=
      listing.dropCommas fun _ _ spelled => spelled.2
    rw [withoutCommas_cons (by simp [opens]), withoutCommas_append,
      withoutCommas_cons (by simp [closes])]
    exact .value (.compound opens shorter closes)

theorem SpellsValue.dropCommas {taken : List Token} {value : Value}
    (spelled : SpellsValue taken value) : SpellsValue (withoutCommas taken) value :=
  (spells_withoutCommas.value spelled).value_of_kind spelled.kind_ne_assignment

theorem SpellsField.dropCommas {taken : List Token} {field : Field}
    (spelled : SpellsField taken field) : SpellsField (withoutCommas taken) field := by
  cases spelled with
  | field word name mark initial =>
      rw [withoutCommas_cons (by simp [word]), withoutCommas_cons (by simp [name]),
        withoutCommas_append]
      refine .field word name ?_ ?_
      · cases mark with
        | absent => exact .absent
        | present opens closes =>
            rw [withoutCommas_cons (by simp [opens]), withoutCommas_cons (by simp [closes])]
            exact .present opens closes
      · cases initial with
        | absent => exact .absent
        | present equals inner =>
            rw [withoutCommas_cons (by simp [equals])]
            exact .present equals inner.dropCommas

theorem SpellsMember.dropCommas {taken : List Token} {member : Token}
    (spelled : SpellsMember taken member) : SpellsMember (withoutCommas taken) member := by
  cases spelled with
  | member word =>
      rw [withoutCommas_cons (by simp [word])]
      exact .member word

theorem SpellsParent.dropCommas {taken : List Token} {parent : Option Token}
    (spelled : SpellsParent taken parent) : SpellsParent (withoutCommas taken) parent := by
  cases spelled with
  | absent => exact .absent
  | present colon word =>
      rw [withoutCommas_cons (by simp [colon]), withoutCommas_cons (by simp [word])]
      exact .present colon word

theorem SpellsDefinition.dropCommas {taken : List Token} {definition : Definition}
    (spelled : SpellsDefinition taken definition) :
    SpellsDefinition (withoutCommas taken) definition := by
  cases spelled with
  | enum word spelling name opens listing present closes =>
      have shorter := listing.dropCommas fun _ _ spelled => spelled.dropCommas
      rw [withoutCommas_cons (by simp [word]), withoutCommas_cons (by simp [name]),
        withoutCommas_cons (by simp [opens]), withoutCommas_append,
        withoutCommas_cons (by simp [closes])]
      exact .enum word spelling name opens shorter present closes
  | type word spelling name parent opens listing closes =>
      have shorter := listing.dropCommas fun _ _ spelled => spelled.dropCommas
      rw [withoutCommas_cons (by simp [word]), withoutCommas_cons (by simp [name]),
        withoutCommas_append, withoutCommas_cons (by simp [opens]), withoutCommas_append,
        withoutCommas_cons (by simp [closes])]
      exact .type word spelling name parent.dropCommas opens shorter closes

/-! ## Places for commas -/

/-- The place directly behind an item, in the tokens of a listing. -/
inductive BehindItem (item : List Token -> α -> Prop) :
    (front back : List Token) -> (values : List α) -> Prop where
  | behind {before taken back : List Token} {earlier later : List α} {value : α} :
      Listing item before earlier -> item taken value -> Trail item back later ->
      BehindItem item (before ++ taken) back (earlier ++ value :: later)

/-- The place directly behind a child of a list, in the tokens of the list or of
a value around it. -/
inductive BehindChild : (front back : List Token) -> Value -> Prop where
  | child {opening closing : Token} {before behind front back : List Token} {depth : Nat}
      {children : List Value} {value : Value} :
      opening.kind = .openBrace -> BehindItem SpellsChild front back children ->
      closing.kind = .closeBrace ->
      Surrounds before behind depth
        (.compound opening closing (Value.shapeOf children) children) value ->
      BehindChild (before ++ opening :: front) (back ++ closing :: behind) value

/-- The place directly behind a child of a list, in the tokens of a field. -/
inductive InField : (front back : List Token) -> Field -> Prop where
  | field {typeName name equals : Token} {mark front back : List Token} {isArray : Bool}
      {value : Value} :
      typeName.kind = .word -> name.kind = .word -> SpellsArrayMark mark isArray ->
      equals.kind = .equals -> BehindChild front back value -> value.kind ≠ .assignment ->
      InField (typeName :: name :: (mark ++ equals :: front)) back
        { typeName, name, isArray, defaultValue := some value }

/-- The place directly behind a member, a field, or a child of a list, in the
tokens of a definition. -/
inductive Gap : (front back : List Token) -> Definition -> Prop where
  | member {keyword name opening closing : Token} {front back members : List Token} :
      keyword.kind = .word -> keyword.text = "enum" -> name.kind = .word ->
      opening.kind = .openBrace -> BehindItem SpellsMember front back members ->
      closing.kind = .closeBrace ->
      Gap (keyword :: name :: opening :: front) (back ++ [closing])
        (.enum { keyword, name, members })
  | field {keyword name opening closing : Token} {ancestry front back : List Token}
      {parent : Option Token} {fields : List Field} :
      keyword.kind = .word -> keyword.text = "type" -> name.kind = .word ->
      SpellsParent ancestry parent -> opening.kind = .openBrace ->
      BehindItem SpellsField front back fields -> closing.kind = .closeBrace ->
      Gap (keyword :: name :: (ancestry ++ opening :: front)) (back ++ [closing])
        (.type { keyword, name, parent, fields })
  | child {keyword name opening closing : Token} {ancestry before front back after : List Token}
      {parent : Option Token} {earlier later : List Field} {field : Field} :
      keyword.kind = .word -> keyword.text = "type" -> name.kind = .word ->
      SpellsParent ancestry parent -> opening.kind = .openBrace ->
      Listing SpellsField before earlier -> InField front back field ->
      Trail SpellsField after later -> closing.kind = .closeBrace ->
      Gap (keyword :: name :: (ancestry ++ opening :: (before ++ front)))
        (back ++ (after ++ [closing]))
        (.type { keyword, name, parent, fields := earlier ++ field :: later })

section Pad

variable {front back commas : List Token}
  (areCommas : forall token, token ∈ commas -> token.kind = .comma)
include areCommas

theorem BehindItem.pad {item : List Token -> α -> Prop} {values : List α}
    (gap : BehindItem item front back values) : Listing item (front ++ (commas ++ back)) values := by
  cases gap with
  | behind listing spelled trail =>
      rw [List.append_assoc]
      exact listing.around spelled (trail.pad areCommas)

theorem BehindChild.pad {value : Value} (gap : BehindChild front back value) :
    SpellsChild (front ++ (commas ++ back)) value := by
  cases gap with
  | @child opening closing before behind front back depth children value opens gap closes surrounds =>
      have spelled := surrounds.spells (.compound opens (gap.pad areCommas) closes)
      simpa only [List.append_assoc, List.cons_append, List.nil_append] using spelled

theorem InField.pad {field : Field} (gap : InField front back field) :
    SpellsField (front ++ (commas ++ back)) field := by
  cases gap with
  | field typed named mark equals gap unnamed =>
      have initial := SpellsDefault.present equals ((gap.pad areCommas).value_of_kind unnamed)
      have spelled := SpellsField.field typed named mark initial
      simpa only [List.append_assoc, List.cons_append] using spelled

/-- With commas in the gap the tokens spell the same definition. -/
theorem Gap.pad {definition : Definition} (gap : Gap front back definition) :
    SpellsDefinition (front ++ (commas ++ back)) definition := by
  cases gap with
  | @member keyword name opening closing front back members word spelling named opens gap closes =>
      have present : members ≠ [] := by
        cases gap
        simp
      have spelled := SpellsDefinition.enum word spelling named opens (gap.pad areCommas) present closes
      simpa only [List.append_assoc, List.cons_append] using spelled
  | field word spelling named parent opens gap closes =>
      have spelled := SpellsDefinition.type word spelling named parent opens (gap.pad areCommas) closes
      simpa only [List.append_assoc, List.cons_append] using spelled
  | child word spelling named parent opens listing gap trail closes =>
      have spelled := SpellsDefinition.type word spelling named parent opens
        (listing.around (gap.pad areCommas) trail) closes
      simpa only [List.append_assoc, List.cons_append] using spelled

end Pad

end Grammar

namespace Schema

open Grammar

/-! ## Schemas -/

theorem Declares.dropCommas {tokens : List Token} {definitions : List Definition}
    (declares : Declares tokens definitions) : Declares (withoutCommas tokens) definitions := by
  induction declares with
  | nil => exact .nil
  | cons spelled admissible _ ih =>
      rw [withoutCommas_append]
      exact .cons spelled.dropCommas admissible ih

theorem Declares.append {left right : List Token} {earlier later : List Definition}
    (first : Declares left earlier) (second : Declares right later) :
    Declares (left ++ right) (earlier ++ later) := by
  induction first with
  | nil => exact second
  | cons spelled admissible _ ih =>
      rw [List.append_assoc]
      exact .cons spelled admissible ih

/-- The place directly behind a member, a field, or a child of a list, in the
tokens of several definitions. -/
inductive Gap : (front back : List Token) -> (definitions : List Definition) -> Prop where
  | inside {before front back after : List Token} {earlier later : List Definition}
      {definition : Definition} :
      Declares before earlier -> Grammar.Gap front back definition -> definition.Admissible ->
      Declares after later ->
      Gap (before ++ front) (back ++ after) (earlier ++ definition :: later)

theorem Gap.pad {front back commas : List Token} {definitions : List Definition}
    (gap : Gap front back definitions)
    (areCommas : forall token, token ∈ commas -> token.kind = .comma) :
    Declares (front ++ (commas ++ back)) definitions := by
  cases gap with
  | inside first gap admissible second =>
      have declares := first.append (.cons (gap.pad areCommas) admissible second)
      simpa only [List.append_assoc] using declares

/-- Tokens that result from these by putting commas behind members, fields and
children of lists, any number of times and any number at a time. -/
inductive Padding (definitions : List Definition) (tokens : List Token) : List Token -> Prop where
  | none : Padding definitions tokens tokens
  | more {front back commas : List Token} : Padding definitions tokens (front ++ back) ->
      Gap front back definitions -> (forall token, token ∈ commas -> token.kind = .comma) ->
      Padding definitions tokens (front ++ (commas ++ back))

theorem Padding.declares {tokens padded : List Token} {definitions : List Definition}
    (padding : Padding definitions tokens padded) (declares : Declares tokens definitions) :
    Declares padded definitions := by
  induction padding with
  | none => exact declares
  | more _ gap areCommas _ => exact gap.pad areCommas

/-- The tokens of a schema are the same schema if all commas are left out, and
if commas are put behind members, fields or children of lists. -/
theorem ofTokens_commas {tokens : List Token} {schema : Schema}
    (success : (ofTokens tokens).outcome = .ok schema) :
    (ofTokens (withoutCommas tokens)).outcome = .ok schema ∧
      forall padded, Padding schema.definitions tokens padded ->
        (ofTokens padded).outcome = .ok schema := by
  rcases ofTokens_eq_ok_iff.mp success with ⟨declares, distinct⟩
  constructor
  · exact ofTokens_eq_ok_iff.mpr ⟨declares.dropCommas, distinct⟩
  · intro padded padding
    exact ofTokens_eq_ok_iff.mpr ⟨padding.declares declares, distinct⟩

/-- The tokens of `type B { C c = { 1, 2 } }` up to the end of the first child. -/
def listFront : List Token :=
  [{ kind := .word, text := "type" }, { kind := .word, text := "B", start := 5 },
    { kind := .openBrace, text := "\x7b", start := 7 }, { kind := .word, text := "C", start := 9 },
    { kind := .word, text := "c", start := 11 }, { kind := .equals, text := "=", start := 13 },
    { kind := .openBrace, text := "\x7b", start := 15 }, { kind := .integer, text := "1", start := 17 }]

def listComma : Token :=
  { kind := .comma, text := ",", start := 18 }

/-- The tokens behind the first child. -/
def listBack : List Token :=
  [listComma, { kind := .integer, text := "2", start := 20 },
    { kind := .closeBrace, text := "\x7d", start := 22 },
    { kind := .closeBrace, text := "\x7d", start := 24 }]

theorem exists_gap_list : Exists fun definition => Gap listFront listBack [definition] := by
  have integer : forall text start, SpellsChild [{ kind := .integer, text, start }]
      (.scalar { kind := .int, token := { kind := .integer, text, start } }) :=
    fun _ _ => .value (.literal (.int rfl))
  have none : forall token, token ∈ ([] : List Token) -> token.kind = .comma := nofun
  have one : forall token, token ∈ [listComma] -> token.kind = .comma := by decide
  have item := BehindItem.behind .nil (integer "1" 17)
    (.trail one (.cons (integer "2" 20) none .nil))
  have child := @BehindChild.child { kind := .openBrace, text := "\x7b", start := 15 }
    { kind := .closeBrace, text := "\x7d", start := 22 } _ _ _ _ _ _ _ rfl item rfl .itself
  have field := @InField.field { kind := .word, text := "C", start := 9 }
    { kind := .word, text := "c", start := 11 } { kind := .equals, text := "=", start := 13 } _ _ _ _ _
    rfl rfl .absent rfl child nofun
  have gap := @Grammar.Gap.child { kind := .word, text := "type" }
    { kind := .word, text := "B", start := 5 } { kind := .openBrace, text := "\x7b", start := 7 }
    { kind := .closeBrace, text := "\x7d", start := 24 } _ _ _ _ _ _ _ _ _ rfl rfl rfl .absent rfl .nil
    field (.trail none .nil) rfl
  refine ⟨_, .inside .nil gap ?_ .nil⟩
  constructor
  case foreign => exact nofun
  case distinct => simp
  case telling =>
    intro field member
    rcases List.mem_singleton.mp member with rfl
    exact Parser.isBlankName_eq_false_iff.mp (by decide)
  case uniform =>
    intro field member value isDefault
    rcases List.mem_singleton.mp member with rfl
    rcases Option.some.inj isDefault with rfl
    refine .compound ?_ ?_
    · intro left leftMember right rightMember
      simp at leftMember rightMember
      rcases leftMember with rfl | rfl <;> rcases rightMember with rfl | rfl <;> rfl
    · intro child childMember
      simp at childMember
      rcases childMember with rfl | rfl <;> exact .scalar _

/-- With two more commas behind the first child, and with none at all, the list
is the same. -/
theorem ofTokens_commas_list :
    Exists fun schema => (ofTokens (listFront ++ listBack)).outcome = .ok schema ∧
      (ofTokens (withoutCommas (listFront ++ listBack))).outcome = .ok schema ∧
      (ofTokens (listFront ++ ([listComma, listComma] ++ listBack))).outcome = .ok schema := by
  rcases exists_gap_list with ⟨definition, gap⟩
  have success : (ofTokens (listFront ++ listBack)).outcome =
      .ok { definitions := [definition] } :=
    ofTokens_eq_ok_iff.mpr ⟨@Gap.pad _ _ [] _ gap nofun, by simp [names]⟩
  rcases ofTokens_commas success with ⟨without, padded⟩
  exact ⟨_, success, without, padded _ (.more .none gap (by decide))⟩

end Schema
end TypeSchema
