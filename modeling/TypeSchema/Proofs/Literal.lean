import Mathlib.Data.List.Induction
import Mathlib.Data.Nat.Digits.Defs
import TypeSchema.Proofs.Flattening

namespace TypeSchema

/-!
# Literals and their readings

The scanner decides which texts are literals, the parser gives each of them its
kind, and the accessors read the text when they are asked.  The three agree.  A
literal of a schema is read by the accessors of its kind and by no others, with
two exceptions that the scanner lets pass: an integer may need more than 64
bits, and a point without digits is a float that denotes no number.
-/

namespace Numeral

open Lexeme (Digits IsSign Spelling)

/-! ## Integers -/

/-- The number that decimal digits denote, the most significant one first. -/
def positional (digits : List Char) : Nat :=
  Nat.ofDigits 10 (digits.reverse.map fun digit => digit.toNat - '0'.toNat)

/-- The text is an optional sign and at least one digit, and it denotes this
integer. -/
inductive Denotes : List Char -> Int -> Prop where
  | unsigned {digits : List Char} : digits ≠ [] -> Digits digits ->
      Denotes digits (positional digits)
  | plus {digits : List Char} : digits ≠ [] -> Digits digits ->
      Denotes ('+' :: digits) (positional digits)
  | minus {digits : List Char} : digits ≠ [] -> Digits digits ->
      Denotes ('-' :: digits) (-(positional digits))

/-- Reading digits from the left gives each of them the weight of its place. -/
theorem natural_eq_positional (digits : List Char) : natural digits = positional digits := by
  induction digits using List.reverseRecOn with
  | nil => rfl
  | append_singleton digits digit ih =>
      have left : natural (digits ++ [digit]) = natural digits * 10 + (digit.toNat - '0'.toNat) := by
        rw [natural, List.foldl_append, natural, List.foldl_cons, List.foldl_nil]
      have right : positional (digits ++ [digit]) =
          digit.toNat - '0'.toNat + 10 * positional digits := by
        rw [positional, List.reverse_append, List.reverse_singleton, List.singleton_append,
          List.map_cons, Nat.ofDigits_cons, positional]
      rw [left, right, ih]
      omega

theorem natural?_of_digits {digits : List Char} (present : digits ≠ []) (areDigits : Digits digits) :
    natural? digits = some (positional digits) := by
  rw [natural?, if_pos ⟨present, List.all_eq_true.mpr areDigits⟩, natural_eq_positional]

/-- Nothing is taken away from a text that begins with no sign. -/
theorem unsign_eq_self {chars : List Char} (unsigned : forall c, c ∈ chars.head? -> ¬ IsSign c) :
    unsign chars = (false, chars) := by
  unfold unsign
  split
  · exact absurd (Or.inr rfl) (unsigned '-' rfl)
  · exact absurd (Or.inl rfl) (unsigned '+' rfl)
  · rfl

theorem unsign_sign {sign : Char} (isSign : IsSign sign) (chars : List Char) :
    (unsign (sign :: chars)).2 = chars := by
  rcases isSign with rfl | rfl
  · rfl
  · rfl

theorem not_isSign_of_isDigit {c : Char} (digit : c.isDigit = true) : ¬ IsSign c := by
  rintro (rfl | rfl)
  · exact absurd digit (by decide)
  · exact absurd digit (by decide)

theorem not_isSign_point : ¬ IsSign '.' := by
  unfold IsSign
  decide

theorem unsign_digits {digits : List Char} (areDigits : Digits digits) :
    unsign digits = (false, digits) := by
  apply unsign_eq_self
  intro c ahead
  exact not_isSign_of_isDigit (areDigits c (List.mem_of_mem_head? ahead))

theorem unsign_point {whole : List Char} (wholeDigits : Digits whole) (fraction : List Char) :
    unsign (whole ++ '.' :: fraction) = (false, whole ++ '.' :: fraction) := by
  apply unsign_eq_self
  intro c ahead
  cases whole with
  | nil =>
      rw [← Option.mem_some_iff.mp ahead]
      exact not_isSign_point
  | cons digit whole =>
      rw [← Option.mem_some_iff.mp ahead]
      exact not_isSign_of_isDigit (wholeDigits digit (List.mem_cons_self ..))

theorem denoted?_of_denotes {chars : List Char} {value : Int} (denotes : Denotes chars value) :
    denoted? chars = some value := by
  cases denotes with
  | unsigned present areDigits =>
      simp only [denoted?, unsign_digits areDigits, natural?_of_digits present areDigits]
      rfl
  | plus present areDigits =>
      simp only [denoted?, unsign, natural?_of_digits present areDigits]
      rfl
  | minus present areDigits =>
      simp only [denoted?, unsign, natural?_of_digits present areDigits]
      rfl

/-- The denoted integer is read if it has 64 bits. -/
theorem integer?_of_denotes {text : String} {value : Int} (denotes : Denotes text.toList value) :
    integer? text = if -2 ^ 63 ≤ value ∧ value ≤ 2 ^ 63 - 1 then some value else none := by
  rw [integer?, denoted?_of_denotes denotes, Option.filter_some]
  simp only [isInt64, decide_eq_true_eq]
  rfl

/-- A text that the scanner takes for an integer denotes one. -/
theorem exists_denotes {chars : List Char} (spelled : Spelling .integer chars) :
    Exists fun value => Denotes chars value := by
  cases spelled with
  | integer present areDigits => exact ⟨_, .unsigned present areDigits⟩
  | signedInteger isSign present areDigits =>
      rcases isSign with rfl | rfl
      · exact ⟨_, .plus present areDigits⟩
      · exact ⟨_, .minus present areDigits⟩

/-! ## Doubles -/

theorem isSome_magnitude? {chars : List Char} {decimal : Decimal}
    (found : decimal? chars = some decimal) : (magnitude? chars).isSome = true := by
  simp only [magnitude?, found]
  split
  · rfl
  · split
    · rfl
    · rfl

theorem decimal?_digits {digits : List Char} (present : digits ≠ []) (areDigits : Digits digits) :
    decimal? digits = some { digits := positional digits, exponent := 0 } := by
  have run := Lexeme.digits_run areDigits (Lexeme.ends_nil .float)
  rw [List.append_nil] at run
  simp only [decimal?, run.1, run.2, List.append_nil, if_neg present, exponent?,
    natural_eq_positional]
  rfl

theorem decimal?_point {whole fraction : List Char} (wholeDigits : Digits whole)
    (fractionDigits : Digits fraction) (present : whole ++ fraction ≠ []) :
    decimal? (whole ++ '.' :: fraction) =
      some { digits := positional (whole ++ fraction), exponent := -fraction.length } := by
  have pointEnds : Lexeme.Ends .float ('.' :: fraction) := by
    intro c ahead
    rw [← Option.mem_some_iff.mp ahead]
    rfl
  have run := Lexeme.digits_run wholeDigits pointEnds
  have behind := Lexeme.digits_run fractionDigits (Lexeme.ends_nil .float)
  rw [List.append_nil] at behind
  simp only [decimal?, run.1, run.2, behind.1, behind.2, if_neg present, exponent?,
    natural_eq_positional, Option.map_some, Int.zero_sub]

theorem isSome_magnitude?_of_integer {chars : List Char} (spelled : Spelling .integer chars) :
    (magnitude? (unsign chars).2).isSome = true := by
  cases spelled with
  | integer present areDigits =>
      rw [unsign_digits areDigits]
      exact isSome_magnitude? (decimal?_digits present areDigits)
  | signedInteger isSign present areDigits =>
      rw [unsign_sign isSign]
      exact isSome_magnitude? (decimal?_digits present areDigits)

/-- A point denotes a number if there is a digit beside it. -/
theorem magnitude?_point_eq_none_iff {whole fraction : List Char} (wholeDigits : Digits whole)
    (fractionDigits : Digits fraction) :
    magnitude? (whole ++ '.' :: fraction) = none <-> whole ++ fraction = [] := by
  constructor
  · intro refused
    apply Classical.not_not.mp
    intro present
    have read := isSome_magnitude? (decimal?_point wholeDigits fractionDigits present)
    rw [refused] at read
    cases read
  · intro lone
    rcases List.append_eq_nil_iff.mp lone with ⟨rfl, rfl⟩
    decide +kernel

/-- The scanner asks for a digit beside the point only behind a sign. -/
theorem magnitude?_eq_none_iff_of_float {chars : List Char} (spelled : Spelling .float chars) :
    magnitude? (unsign chars).2 = none <-> chars = ['.'] := by
  cases spelled with
  | @float whole fraction wholeDigits fractionDigits =>
      rw [unsign_point wholeDigits, magnitude?_point_eq_none_iff wholeDigits fractionDigits]
      constructor
      · intro lone
        rcases List.append_eq_nil_iff.mp lone with ⟨rfl, rfl⟩
        rfl
      · intro point
        have length := congrArg List.length point
        rw [List.length_append, List.length_cons, List.length_singleton] at length
        rw [← List.length_eq_zero_iff, List.length_append]
        omega
  | @signedFloat sign whole fraction isSign wholeDigits fractionDigits present =>
      rw [unsign_sign isSign, magnitude?_point_eq_none_iff wholeDigits fractionDigits]
      constructor
      · intro lone
        rcases List.append_eq_nil_iff.mp lone with ⟨noWhole, noFraction⟩
        rcases present with whole | fraction
        · exact absurd noWhole whole
        · exact absurd noFraction fraction
      · intro point
        rw [(List.cons.inj point).1] at isSign
        exact absurd isSign not_isSign_point

end Numeral

namespace Scalar

open Grammar (IsLiteral IsTruthValue)

/-! ## Strings -/

/-- The contents of a string are what stands between its quotes. -/
theorem unquote?_of_spelling {text : String} (spelled : Lexeme.Spelling .string text.toList) :
    Exists fun contents => unquote? text = some contents ∧ text = "\"" ++ contents ++ "\"" ∧
      forall c, c ∈ contents.toList -> c ≠ '"' ∧ c ≠ '\r' ∧ c ≠ '\n' := by
  generalize whole : text.toList = chars at spelled
  cases spelled with
  | @string body inside =>
      refine ⟨String.ofList body, ?_, ?_, ?_⟩
      · rw [unquote?, whole]
        simp
      · apply String.toList_inj.mp
        simp [whole]
      · intro c member
        have plain := inside c (by simpa using member)
        simpa [Lexeme.isStringEnd, and_assoc] using plain

/-! ## Literals -/

/-- A literal is read by the accessors of its kind: a truth value by its
spelling, an integer as far as it has 64 bits, a float unless it is the point
alone, and a string by what stands between its quotes.  An integer is a double
as well.  The other accessors give nothing. -/
def IsReadable (literal : Scalar) : Prop :=
  match literal.kind with
  | .bool =>
      IsTruthValue literal.token.text ∧ literal.bool? = some (decide (literal.token.text = "true")) ∧
        literal.integer? = none ∧ literal.float? = none ∧ literal.string? = none
  | .int =>
      (Exists fun value => Numeral.Denotes literal.token.text.toList value ∧
        literal.integer? = if -2 ^ 63 ≤ value ∧ value ≤ 2 ^ 63 - 1 then some value else none) ∧
        literal.float?.isSome = true ∧ literal.bool? = none ∧ literal.string? = none
  | .float =>
      (literal.float? = none <-> literal.token.text = ".") ∧
        literal.bool? = none ∧ literal.integer? = none ∧ literal.string? = none
  | .string =>
      (Exists fun contents => literal.string? = some contents ∧
        literal.token.text = "\"" ++ contents ++ "\"" ∧
        forall c, c ∈ contents.toList -> c ≠ '"' ∧ c ≠ '\r' ∧ c ≠ '\n') ∧
        literal.bool? = none ∧ literal.integer? = none ∧ literal.float? = none

/-- The scanner spells a literal as the accessors of its kind expect it. -/
theorem isReadable_of_spelled {token : Token} {kind : Kind} (literal : IsLiteral token kind)
    (spelled : token.Spelled) : IsReadable { kind, token } := by
  cases literal with
  | bool word truth => exact ⟨truth, rfl, rfl, rfl, rfl⟩
  | int integer =>
      rw [Token.Spelled, integer] at spelled
      rcases Numeral.exists_denotes spelled with ⟨value, denotes⟩
      have double : (Numeral.float? token.text).isSome = true := by
        rw [Numeral.float?, Option.isSome_map]
        exact Numeral.isSome_magnitude?_of_integer spelled
      exact ⟨⟨value, denotes, Numeral.integer?_of_denotes denotes⟩, double, rfl, rfl⟩
  | float float =>
      rw [Token.Spelled, float] at spelled
      have double : Numeral.float? token.text = none <-> token.text = "." := by
        rw [Numeral.float?, Option.map_eq_none_iff, Numeral.magnitude?_eq_none_iff_of_float spelled,
          ← String.toList_inj]
        rfl
      exact ⟨double, rfl, rfl, rfl⟩
  | string string =>
      rw [Token.Spelled, string] at spelled
      exact ⟨unquote?_of_spelling spelled, rfl, rfl, rfl⟩

end Scalar

/-! ## The literals of a schema -/

namespace Value

mutual

/-- The literals of a value, from left to right. -/
def literals : Value -> List Scalar
  | scalar literal => [literal]
  | reference _ _ => []
  | assignment _ value => value.literals
  | compound _ _ _ children => allLiterals children

/-- The literals of values one behind the other. -/
def allLiterals : List Value -> List Scalar
  | [] => []
  | value :: values => value.literals ++ allLiterals values

end

theorem mem_allLiterals_iff {values : List Value} {literal : Scalar} :
    literal ∈ allLiterals values <->
      Exists fun value => value ∈ values ∧ literal ∈ value.literals := by
  induction values with
  | nil => simp [allLiterals]
  | cons value values ih => simp [allLiterals, ih]

mutual

theorem holds_of_mem_literals {literal : Scalar} (value : Value)
    (member : literal ∈ value.literals) : value.Holds (.scalar literal) := by
  cases value with
  | scalar own =>
      rw [literals, List.mem_singleton] at member
      exact member ▸ .itself
  | reference enumName name =>
      rw [literals] at member
      cases member
  | assignment name value =>
      rw [literals] at member
      exact .assigned (holds_of_mem_literals value member)
  | compound opening closing shape children =>
      rw [literals] at member
      rcases exists_holds_of_mem_allLiterals children member with ⟨child, inside, held⟩
      exact .listed inside held

theorem exists_holds_of_mem_allLiterals {literal : Scalar} (values : List Value)
    (member : literal ∈ allLiterals values) :
    Exists fun value => value ∈ values ∧ value.Holds (.scalar literal) := by
  cases values with
  | nil =>
      rw [allLiterals] at member
      cases member
  | cons value values =>
      rw [allLiterals] at member
      rcases List.mem_append.mp member with first | later
      · exact ⟨value, List.mem_cons_self .., holds_of_mem_literals value first⟩
      · rcases exists_holds_of_mem_allLiterals values later with ⟨other, inside, held⟩
        exact ⟨other, List.mem_cons_of_mem _ inside, held⟩

end

/-- The literals of a value are those that stand in it at any depth. -/
theorem mem_literals_iff {value : Value} {literal : Scalar} :
    literal ∈ value.literals <-> value.Holds (.scalar literal) := by
  constructor
  · exact holds_of_mem_literals value
  · intro holds
    generalize whole : Value.scalar literal = inner at holds
    induction holds with
    | itself =>
        rw [← whole, literals]
        exact List.mem_singleton_self literal
    | assigned _ ih =>
        rw [literals]
        exact ih whole
    | listed member _ ih =>
        rw [literals]
        exact mem_allLiterals_iff.mpr ⟨_, member, ih whole⟩

end Value

/-- The literals in the default values of a definition. -/
def Definition.literals : Definition -> List Scalar
  | enum _ => []
  | type definition =>
      definition.fields.flatMap fun field => field.defaultValue.toList.flatMap Value.literals

theorem Definition.mem_literals_iff {definition : Definition} {literal : Scalar} :
    literal ∈ definition.literals <-> definition.Holds (.scalar literal) := by
  cases definition with
  | enum definition => simp [literals, Holds]
  | type definition => simp [literals, Holds, Value.mem_literals_iff]

namespace Schema

open Grammar

/-- The literals in the default values of a schema. -/
def literals (schema : Schema) : List Scalar :=
  schema.definitions.flatMap Definition.literals

/-- The literals of a schema that was read from a text are tokens as the scanner
finds them. -/
theorem isLiteral_of_mem_literals {source : String} {schema : Schema}
    (parsed : parse source = .ok schema) {literal : Scalar} (member : literal ∈ schema.literals) :
    IsLiteral literal.token literal.kind ∧ literal.token.Spelled := by
  rcases parse_eq_ok_iff.mp parsed with ⟨tokens, scanned, success⟩
  rcases List.mem_flatMap.mp member with ⟨definition, entered, inside⟩
  rcases List.append_of_mem entered with ⟨before, after, split⟩
  have declares := (ofTokens_eq_ok_iff.mp success).1
  rw [split] at declares
  rcases declares.exists_split with ⟨earlier, taken, later, rfl, _, spelled, _⟩
  have holds := Definition.mem_literals_iff.mp inside
  rcases spells_held_definition spelled holds with ⟨own, infixed, ownSpelled⟩
  cases ownSpelled with
  | value ownSpelled =>
      cases ownSpelled with
      | @literal token kind isLiteral =>
          have inTaken : token ∈ taken := infixed.subset (List.mem_singleton_self token)
          have found : token ∈ earlier ++ (taken ++ later) :=
            List.mem_append_right _ (List.mem_append_left _ inTaken)
          exact ⟨isLiteral, Scan.spelled_of_tokens scanned token found⟩

/-- Every literal of a schema is readable, however deep it stands in a default
value. -/
theorem literals_readable {source : String} {schema : Schema} (parsed : parse source = .ok schema) :
    forall literal, literal ∈ schema.literals -> literal.IsReadable := by
  intro literal member
  rcases isLiteral_of_mem_literals parsed member with ⟨isLiteral, spelled⟩
  exact Scalar.isReadable_of_spelled isLiteral spelled

/-- The greatest integer of 64 bits and one that is too small, floats with and
without digits, a string that looks like a comment, and a truth value inside two
lists. -/
def limitText : String :=
  "type T \x7b int i[] = \x7b +9223372036854775807, -9223372036854775809 \x7d" ++
    "F f[] = \x7b . -.5 \x7d O o = \x7b a = \x7b false \x7d, b = \"//\" \x7d \x7d"

/-- Its literals, with their places. -/
def limitLiterals : List Scalar :=
  [{ kind := .int, token := { kind := .integer, text := "+9223372036854775807", start := 21 } },
    { kind := .int, token := { kind := .integer, text := "-9223372036854775809", start := 43 } },
    { kind := .float, token := { kind := .float, text := ".", start := 75 } },
    { kind := .float, token := { kind := .float, text := "-.5", start := 77 } },
    { kind := .bool, token := { kind := .word, text := "false", start := 97 } },
    { kind := .string, token := { kind := .string, text := "\"//\"", start := 110 } }]

theorem literals_readable_limitText :
    Exists fun schema => parse limitText = .ok schema ∧ schema.literals = limitLiterals ∧
      (forall literal, literal ∈ limitLiterals -> literal.IsReadable) ∧
      limitLiterals.filterMap Scalar.integer? = [9223372036854775807] ∧
      limitLiterals.filterMap Scalar.bool? = [false] ∧
      limitLiterals.filterMap Scalar.string? = ["//"] ∧
      limitLiterals[2].float? = none := by
  have computed : (parse limitText).toOption.map literals = some limitLiterals := by
    decide +kernel
  cases parsed : parse limitText with
  | error diagnostic =>
      rw [parsed] at computed
      cases computed
  | ok schema =>
      rw [parsed] at computed
      have same : schema.literals = limitLiterals := Option.some.inj computed
      have readable := literals_readable parsed
      rw [same] at readable
      have point := readable limitLiterals[2] (List.getElem_mem _)
      exact ⟨schema, rfl, same, readable, by decide +kernel, by decide +kernel, by decide +kernel,
        point.1.mpr rfl⟩

end Schema
end TypeSchema
