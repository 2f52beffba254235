import TypeSchema.Lexeme
import TypeSchema.Proofs.Layout

namespace TypeSchema
namespace Lexeme

/-!
# Tokens as languages

Each kind of token is a set of texts, and no text belongs to two kinds.  What
stands at the front of a text is the longest of all its beginnings that belong
to some kind.  The proof that reading finds it goes through the characters
that continue a token: a spelled text can be extended until what follows it
does not continue it, and there reading stops.
-/

def Digits (chars : List Char) : Prop :=
  forall c, c ∈ chars -> c.isDigit = true

/-- A sign of a number. -/
def IsSign (c : Char) : Prop :=
  c = '+' ∨ c = '-'

/-- The text is a token of this kind. -/
inductive Spelling : Token.Kind -> List Char -> Prop where
  | word {first : Char} {others : List Char} : isWordStart first = true ->
      (forall c, c ∈ others -> isWordPart c = true) -> Spelling .word (first :: others)
  | integer {digits : List Char} : digits ≠ [] -> Digits digits -> Spelling .integer digits
  | signedInteger {sign : Char} {digits : List Char} : IsSign sign -> digits ≠ [] ->
      Digits digits -> Spelling .integer (sign :: digits)
  | float {whole fraction : List Char} : Digits whole -> Digits fraction ->
      Spelling .float (whole ++ '.' :: fraction)
  | signedFloat {sign : Char} {whole fraction : List Char} : IsSign sign ->
      Digits whole -> Digits fraction -> whole ≠ [] ∨ fraction ≠ [] ->
      Spelling .float (sign :: (whole ++ '.' :: fraction))
  | string {body : List Char} : (forall c, c ∈ body -> isStringEnd c = false) ->
      Spelling .string ('"' :: (body ++ ['"']))
  | openBrace : Spelling .openBrace ['\x7b']
  | closeBrace : Spelling .closeBrace ['\x7d']
  | openBracket : Spelling .openBracket ['[']
  | closeBracket : Spelling .closeBracket [']']
  | equals : Spelling .equals ['=']
  | comma : Spelling .comma [',']
  | colon : Spelling .colon [':']
  | scope : Spelling .scope [':', ':']

theorem Spelling.ne_nil {kind : Token.Kind} {taken : List Char} (spelled : Spelling kind taken) :
    taken ≠ [] := by
  cases spelled <;> simp_all

/-- Whether a character behind a token of this kind would have belonged to it. -/
def continues : Token.Kind -> Char -> Bool
  | .word, c => isWordPart c
  | .integer, c => c.isDigit || c == '.'
  | .float, c => c.isDigit
  | .colon, c => c == ':'
  | _, _ => false

/-- What stands behind a token of this kind does not continue it. -/
def Ends (kind : Token.Kind) (rest : List Char) : Prop :=
  forall c, c ∈ rest.head? -> continues kind c = false

theorem ends_nil (kind : Token.Kind) : Ends kind [] := by
  intro c impossible
  cases impossible

/-! ## Extending a spelled text -/

theorem Digits.append {left right : List Char} (first : Digits left) (second : Digits right) :
    Digits (left ++ right) := by
  intro c member
  rcases List.mem_append.mp member with before | after
  · exact first c before
  · exact second c after

/-- The longest run of digits at the front of a text. -/
theorem exists_digits (text : List Char) :
    Exists fun run => Exists fun behind =>
      text = run ++ behind ∧ Digits run ∧ Ends .float behind := by
  refine ⟨text.takeWhile Char.isDigit, text.dropWhile Char.isDigit,
    List.takeWhile_append_dropWhile.symm, ?_, ?_⟩
  · intro c member
    exact List.all_eq_true.mp List.all_takeWhile c member
  · intro c ahead
    exact Layout.head?_dropWhile ahead

/-- What goes on behind the first digits of a number: more digits alone, or
digits around a point. -/
theorem exists_number_tail (text : List Char) :
    Exists fun more => Exists fun behind => text = more ++ behind ∧
      ((Digits more ∧ Ends .integer behind) ∨
        Exists fun run => Exists fun fraction =>
          more = run ++ '.' :: fraction ∧ Digits run ∧ Digits fraction ∧ Ends .float behind) := by
  rcases exists_digits text with ⟨run, behind, rfl, digits, ends⟩
  by_cases point : behind.head? = some '.'
  · rcases List.head?_eq_some_iff.mp point with ⟨others, rfl⟩
    rcases exists_digits others with ⟨fraction, rest, rfl, fractionDigits, fractionEnds⟩
    exact ⟨run ++ '.' :: fraction, rest, by simp,
      Or.inr ⟨run, fraction, rfl, digits, fractionDigits, fractionEnds⟩⟩
  · refine ⟨run, behind, rfl, Or.inl ⟨digits, ?_⟩⟩
    intro c ahead
    have noPoint : c ≠ '.' := by
      intro same
      exact point (same ▸ ahead)
    simpa [continues, noPoint] using ends c ahead

/-- A spelled text that is continued extends to one that is not. -/
theorem Spelling.exists_extension {kind : Token.Kind} {taken : List Char}
    (spelled : Spelling kind taken) (rest : List Char) :
    Exists fun wider => Exists fun more => Exists fun behind =>
      rest = more ++ behind ∧ Spelling wider (taken ++ more) ∧ Ends wider behind := by
  have complete : (forall c, continues kind c = false) ->
      Exists fun wider => Exists fun more => Exists fun behind =>
        rest = more ++ behind ∧ Spelling wider (taken ++ more) ∧ Ends wider behind := by
    intro never
    exact ⟨kind, [], rest, rfl, by rwa [List.append_nil], fun c _ => never c⟩
  cases spelled with
  | @word first others starts parts =>
      refine ⟨.word, rest.takeWhile isWordPart, rest.dropWhile isWordPart,
        List.takeWhile_append_dropWhile.symm, .word starts ?_, ?_⟩
      · intro c member
        rcases List.mem_append.mp member with before | after
        · exact parts c before
        · exact List.all_eq_true.mp List.all_takeWhile c after
      · intro c ahead
        exact Layout.head?_dropWhile ahead
  | @integer digits present areDigits =>
      rcases exists_number_tail rest with
        ⟨more, behind, rfl, ⟨moreDigits, ends⟩ | ⟨run, fraction, rfl, runDigits, fractionDigits, ends⟩⟩
      · exact ⟨.integer, more, behind, rfl, .integer (by simp [present]) (areDigits.append moreDigits),
          ends⟩
      · refine ⟨.float, run ++ '.' :: fraction, behind, rfl, ?_, ends⟩
        have float := Spelling.float (areDigits.append runDigits) fractionDigits
        rwa [List.append_assoc] at float
  | @signedInteger sign digits isSign present areDigits =>
      rcases exists_number_tail rest with
        ⟨more, behind, rfl, ⟨moreDigits, ends⟩ | ⟨run, fraction, rfl, runDigits, fractionDigits, ends⟩⟩
      · exact ⟨.integer, more, behind, rfl,
          .signedInteger isSign (by simp [present]) (areDigits.append moreDigits), ends⟩
      · refine ⟨.float, run ++ '.' :: fraction, behind, rfl, ?_, ends⟩
        have float := Spelling.signedFloat isSign (areDigits.append runDigits) fractionDigits
          (Or.inl (by simp [present]))
        rwa [List.append_assoc] at float
  | @float whole fraction wholeDigits fractionDigits =>
      rcases exists_digits rest with ⟨more, behind, rfl, moreDigits, ends⟩
      refine ⟨.float, more, behind, rfl, ?_, ends⟩
      have float := Spelling.float wholeDigits (fractionDigits.append moreDigits)
      simpa only [List.cons_append, List.append_assoc] using float
  | @signedFloat sign whole fraction isSign wholeDigits fractionDigits present =>
      rcases exists_digits rest with ⟨more, behind, rfl, moreDigits, ends⟩
      refine ⟨.float, more, behind, rfl, ?_, ends⟩
      have float := Spelling.signedFloat isSign wholeDigits (fractionDigits.append moreDigits)
        (present.imp id (by simp +contextual))
      simpa only [List.cons_append, List.append_assoc] using float
  | colon =>
      by_cases again : rest.head? = some ':'
      · rcases List.head?_eq_some_iff.mp again with ⟨behind, rfl⟩
        exact ⟨.scope, [':'], behind, rfl, .scope, fun _ _ => rfl⟩
      · refine ⟨.colon, [], rest, rfl, .colon, ?_⟩
        intro c ahead
        exact beq_eq_false_iff_ne.mpr fun same => again (same ▸ ahead)
  | string inside => exact complete fun _ => rfl
  | openBrace => exact complete fun _ => rfl
  | closeBrace => exact complete fun _ => rfl
  | openBracket => exact complete fun _ => rfl
  | closeBracket => exact complete fun _ => rfl
  | equals => exact complete fun _ => rfl
  | comma => exact complete fun _ => rfl
  | scope => exact complete fun _ => rfl

/-! ## Reading a spelled text -/

theorem read_sign {c : Char} (isSign : IsSign c) (chars : List Char) :
    read c chars = if startsNumber chars then number [c] chars else unexpected c chars := by
  rcases isSign with rfl | rfl <;> rfl

theorem read_numberStart {c : Char} (starts : c.isDigit = true ∨ c = '.') (chars : List Char) :
    read c chars = number [] (c :: chars) := by
  have noSign : ¬ (c = '+' ∨ c = '-') := by
    intro isSign
    rcases isSign with rfl | rfl <;> exact absurd starts (by decide)
  unfold read
  split
  all_goals try exact absurd starts (by decide)
  rw [if_neg noSign, if_pos starts]

theorem isWordStart_not_numberStart {c : Char} (starts : isWordStart c = true) :
    ¬ (c.isDigit = true ∨ c = '.') := by
  intro given
  rcases given with digit | rfl
  · have atMost : c.val ≤ '9'.val := of_decide_eq_true (Bool.and_eq_true_iff.mp digit).2
    rcases Bool.or_eq_true_iff.mp starts with letter | underscore
    · rcases Bool.or_eq_true_iff.mp letter with upper | lower
      · have atLeast : 'A'.val ≤ c.val := (of_decide_eq_true upper).1
        exact absurd (Nat.le_trans atLeast atMost) (by decide)
      · have atLeast : 'a'.val ≤ c.val := of_decide_eq_true (Bool.and_eq_true_iff.mp lower).1
        exact absurd (Nat.le_trans atLeast atMost) (by decide)
    · rw [beq_iff_eq.mp underscore] at digit
      exact absurd digit (by decide)
  · exact absurd starts (by decide)

theorem read_wordStart {c : Char} (starts : isWordStart c = true) (chars : List Char) :
    read c chars = word c chars := by
  have noSign : ¬ (c = '+' ∨ c = '-') := by
    intro isSign
    rcases isSign with rfl | rfl <;> exact absurd starts (by decide)
  unfold read
  split
  all_goals try exact absurd starts (by decide)
  rw [if_neg noSign, if_neg (isWordStart_not_numberStart starts), if_pos starts]

theorem digits_run {digits rest : List Char} (areDigits : Digits digits)
    (ends : Ends .float rest) :
    (digits ++ rest).takeWhile Char.isDigit = digits ∧
      (digits ++ rest).dropWhile Char.isDigit = rest :=
  Layout.takeWhile_dropWhile_append areDigits ends

theorem number_integer (sign : List Char) {digits rest : List Char} (areDigits : Digits digits)
    (ends : Ends .integer rest) :
    number sign (digits ++ rest) = { verdict := .ok .integer, text := sign ++ digits, rest } := by
  have noPoint : forall behind, rest ≠ '.' :: behind := by
    rintro behind rfl
    exact absurd (ends '.' rfl) (by decide)
  have digitsEnd : Ends .float rest := by
    intro c ahead
    have other := ends c ahead
    simp only [continues, Bool.or_eq_false_iff] at other
    exact other.1
  have run := digits_run areDigits digitsEnd
  rw [number, run.1, run.2]
  split
  · next behind => exact absurd rfl (noPoint behind)
  · rfl

theorem number_float (sign : List Char) {whole fraction rest : List Char}
    (wholeDigits : Digits whole) (fractionDigits : Digits fraction) (ends : Ends .float rest) :
    number sign (whole ++ '.' :: (fraction ++ rest)) =
      { verdict := .ok .float, text := sign ++ (whole ++ '.' :: fraction), rest } := by
  have pointEnds : Ends .float ('.' :: (fraction ++ rest)) := by
    intro c ahead
    rw [← Option.mem_some_iff.mp ahead]
    rfl
  have run := digits_run wholeDigits pointEnds
  have behind := digits_run fractionDigits ends
  simp only [number, run.1, run.2, behind.1, behind.2]

/-- The lexeme at the front of a text, unless the text is empty. -/
def front? : List Char -> Option Lexeme
  | [] => none
  | c :: chars => some (read c chars)

theorem startsNumber_digit {c : Char} (digit : c.isDigit = true) (chars : List Char) :
    startsNumber (c :: chars) = true := by
  unfold startsNumber
  split
  · next same =>
      rw [(List.cons.inj same).1] at digit
      exact absurd digit (by decide)
  · next same => exact (List.cons.inj same).1 ▸ digit
  · next impossible => cases impossible

/-- A sign before digits, with or without a point, is read with them. -/
theorem read_signed {sign : Char} (isSign : IsSign sign) {whole behind : List Char}
    (present : whole ≠ []) (wholeDigits : Digits whole) :
    read sign (whole ++ behind) = number [sign] (whole ++ behind) := by
  rw [read_sign isSign]
  cases whole with
  | nil => exact absurd rfl present
  | cons c others =>
      exact if_pos (startsNumber_digit (wholeDigits c (List.mem_cons_self ..)) (others ++ behind))

theorem read_signedPoint {sign : Char} (isSign : IsSign sign) {fraction rest : List Char}
    (present : fraction ≠ []) (fractionDigits : Digits fraction) :
    read sign ('.' :: (fraction ++ rest)) = number [sign] ('.' :: (fraction ++ rest)) := by
  rw [read_sign isSign]
  cases fraction with
  | nil => exact absurd rfl present
  | cons c others => exact if_pos (fractionDigits c (List.mem_cons_self ..))

theorem string_closed {body rest : List Char} (inside : forall c, c ∈ body -> isStringEnd c = false) :
    string (body ++ '"' :: rest) =
      { verdict := .ok .string, text := '"' :: (body ++ ['"']), rest } := by
  have parts : (body ++ '"' :: rest).takeWhile (fun c => !isStringEnd c) = body ∧
      (body ++ '"' :: rest).dropWhile (fun c => !isStringEnd c) = '"' :: rest := by
    apply Layout.takeWhile_dropWhile_append
    · intro c member
      rw [inside c member]
      rfl
    · intro c ahead
      rw [← Option.mem_some_iff.mp ahead]
      rfl
  simp only [string, parts.1, parts.2]

/-- A spelled text is read as it is spelled if nothing continues it. -/
theorem front?_of_spelling {kind : Token.Kind} {taken rest : List Char}
    (spelled : Spelling kind taken) (ends : Ends kind rest) :
    front? (taken ++ rest) = some { verdict := .ok kind, text := taken, rest } := by
  cases spelled with
  | @word first others starts parts =>
      have run := Layout.takeWhile_dropWhile_append parts ends
      rw [List.cons_append, front?, read_wordStart starts, word, run.1, run.2]
  | integer present areDigits =>
      cases taken with
      | nil => exact absurd rfl present
      | cons c others =>
          have digit := areDigits c (List.mem_cons_self ..)
          rw [List.cons_append, front?, read_numberStart (Or.inl digit), ← List.cons_append,
            number_integer [] areDigits ends, List.nil_append]
  | signedInteger isSign present areDigits =>
      rw [List.cons_append, front?, read_signed isSign present areDigits,
        number_integer _ areDigits ends, List.singleton_append]
  | @float whole fraction wholeDigits fractionDigits =>
      have read := number_float [] wholeDigits fractionDigits ends
      rw [List.nil_append] at read
      cases whole with
      | nil =>
          rw [List.nil_append, List.cons_append, front?, read_numberStart (Or.inr rfl)]
          exact congrArg some read
      | cons c others =>
          have digit := wholeDigits c (List.mem_cons_self ..)
          simp only [List.cons_append, List.append_assoc] at read ⊢
          rw [front?, read_numberStart (Or.inl digit), read]
  | @signedFloat sign whole fraction isSign wholeDigits fractionDigits present =>
      have numbered := number_float [sign] wholeDigits fractionDigits ends
      simp only [List.cons_append, List.append_assoc, List.nil_append] at numbered ⊢
      rw [front?, ← numbered]
      cases whole with
      | nil =>
          have digits : fraction ≠ [] := present.resolve_left (by simp)
          exact congrArg some (read_signedPoint isSign digits fractionDigits)
      | cons c others => exact congrArg some (read_signed isSign (by simp) wholeDigits)
  | string inside =>
      rw [List.cons_append, List.append_assoc, List.singleton_append]
      exact congrArg some (string_closed inside)
  | colon =>
      cases rest with
      | nil => rfl
      | cons c others =>
          have other : c ≠ ':' := beq_eq_false_iff_ne.mp (ends c rfl)
          simp only [List.singleton_append, front?, read]
          split
          · next same => exact absurd (List.cons.inj same).1 other
          · rfl
  | openBrace => rfl
  | closeBrace => rfl
  | openBracket => rfl
  | closeBracket => rfl
  | equals => rfl
  | comma => rfl
  | scope => rfl

/-- No text is a token of two kinds. -/
theorem Spelling.unique {kind other : Token.Kind} {taken : List Char}
    (spelled : Spelling kind taken) (otherSpelled : Spelling other taken) : kind = other := by
  have read := front?_of_spelling spelled (ends_nil kind)
  have otherRead := front?_of_spelling otherSpelled (ends_nil other)
  have verdicts := congrArg Lexeme.verdict (Option.some.inj (read.symm.trans otherRead))
  exact Except.ok.inj verdicts

/-! ## The verdict of reading -/

/-- Of the beginnings of a text that are tokens, this one is the longest. -/
structure Longest (text : List Char) (kind : Token.Kind) (taken : List Char) : Prop where
  begins : taken <+: text
  spelled : Spelling kind taken
  longest : forall otherKind other, other <+: text -> Spelling otherKind other ->
    other.length ≤ taken.length

/-- What stands behind the longest token does not continue it. -/
theorem Longest.ends {kind : Token.Kind} {taken rest : List Char}
    (longest : Longest (taken ++ rest) kind taken) : Ends kind rest := by
  rcases longest.spelled.exists_extension rest with ⟨wider, more, behind, rfl, extended, ends⟩
  have bounded := longest.longest wider (taken ++ more) ⟨behind, List.append_assoc ..⟩ extended
  have nothing : more = [] := by
    rw [List.length_append] at bounded
    exact List.length_eq_zero_iff.mp (by omega)
  subst nothing
  rw [List.append_nil] at extended
  rw [longest.spelled.unique extended]
  exact ends

/-- What is taken away from a text that begins with no token. -/
inductive Fails : List Char -> Fault -> List Char -> Prop where
  | comment {behind : List Char} : ¬ Layout.closingMark <:+: behind ->
      Fails ('/' :: '*' :: behind) .unterminatedComment ('/' :: '*' :: behind)
  | string {body behind : List Char} : '\r' ∉ body -> '\n' ∉ body ->
      behind = [] ∨ behind.head? = some '\r' ∨ behind.head? = some '\n' ->
      Fails ('"' :: (body ++ behind)) .unterminatedString ('"' :: body)
  | character {c : Char} {behind : List Char} : c ≠ '"' -> ¬ ['/', '*'] <+: c :: behind ->
      Fails (c :: behind) .unexpectedCharacter [c]

/-- Whatever token a text begins with, reading takes at least that. -/
theorem read_covers {c : Char} {chars other : List Char} {kind : Token.Kind}
    (begins : other <+: c :: chars) (spelled : Spelling kind other) :
    Exists fun wider => (read c chars).verdict = .ok wider ∧ Spelling wider (read c chars).text ∧
      other.length ≤ (read c chars).text.length := by
  rcases begins with ⟨rest, whole⟩
  rcases spelled.exists_extension rest with ⟨wider, more, behind, rfl, extended, ends⟩
  have found := front?_of_spelling extended ends
  rw [List.append_assoc, whole, front?] at found
  rw [Option.some.inj found]
  exact ⟨wider, rfl, extended, by simp⟩

/-- The text begins with some token. -/
def BeginsToken (text : List Char) : Prop :=
  Exists fun kind => Exists fun taken => taken <+: text ∧ Spelling kind taken

theorem beginsToken_numberStart {c : Char} (starts : c.isDigit = true ∨ c = '.')
    (chars : List Char) : BeginsToken (c :: chars) := by
  rcases starts with digit | rfl
  · refine ⟨.integer, [c], ⟨chars, rfl⟩, .integer (by simp) ?_⟩
    intro other member
    exact List.mem_singleton.mp member ▸ digit
  · have noDigits : Digits [] := fun _ impossible => absurd impossible List.not_mem_nil
    exact ⟨.float, ['.'], ⟨chars, rfl⟩, .float noDigits noDigits⟩

theorem beginsToken_signed {sign : Char} (isSign : IsSign sign) {chars : List Char}
    (starts : startsNumber chars = true) : BeginsToken (sign :: chars) := by
  have single : forall {c : Char}, c.isDigit = true -> Digits [c] := by
    intro c digit other member
    exact List.mem_singleton.mp member ▸ digit
  unfold startsNumber at starts
  split at starts
  · next c behind =>
      refine ⟨.float, [sign, '.', c], ⟨behind, rfl⟩, ?_⟩
      exact Spelling.signedFloat isSign (fun _ impossible => absurd impossible List.not_mem_nil)
        (single starts) (Or.inr (by simp))
  · next c behind _ =>
      exact ⟨.integer, [sign, c], ⟨behind, rfl⟩, .signedInteger isSign (by simp) (single starts)⟩
  · cases starts

theorem string_outcome (chars : List Char) :
    BeginsToken ('"' :: chars) ∨
      ((string chars).verdict = .error .unterminatedString ∧
        Fails ('"' :: chars) .unterminatedString (string chars).text) := by
  have whole : chars.takeWhile (fun c => !isStringEnd c) ++
      chars.dropWhile (fun c => !isStringEnd c) = chars := List.takeWhile_append_dropWhile
  have inside : forall c, c ∈ chars.takeWhile (fun c => !isStringEnd c) -> isStringEnd c = false := by
    intro c member
    simpa using List.all_eq_true.mp List.all_takeWhile c member
  by_cases closed : (chars.dropWhile fun c => !isStringEnd c).head? = some '"'
  · rcases List.head?_eq_some_iff.mp closed with ⟨rest, found⟩
    rw [found] at whole
    refine Or.inl ⟨.string, _, ⟨rest, ?_⟩, .string inside⟩
    rw [List.cons_append, List.append_assoc, List.singleton_append, whole]
  · right
    have ends : chars.dropWhile (fun c => !isStringEnd c) = [] ∨
        (chars.dropWhile fun c => !isStringEnd c).head? = some '\r' ∨
        (chars.dropWhile fun c => !isStringEnd c).head? = some '\n' := by
      cases ahead : (chars.dropWhile fun c => !isStringEnd c).head? with
      | none => exact Or.inl (List.head?_eq_none_iff.mp ahead)
      | some c =>
          have isEnd : isStringEnd c = true := by simpa using Layout.head?_dropWhile ahead
          rw [ahead] at closed
          simp_all [isStringEnd]
    have absent : forall c, isStringEnd c = true ->
        c ∉ chars.takeWhile (fun c => !isStringEnd c) := by
      intro c isEnd member
      rw [inside c member] at isEnd
      cases isEnd
    have fails := Fails.string (absent '\r' rfl) (absent '\n' rfl) ends
    rw [whole] at fails
    unfold string
    split
    · next rest found => exact absurd (by rw [found]; rfl) closed
    · exact ⟨rfl, fails⟩

theorem unexpected_outcome {c : Char} {chars : List Char} (noQuote : c ≠ '"')
    (noComment : ¬ ['/', '*'] <+: c :: chars) :
    (unexpected c chars).verdict = .error .unexpectedCharacter ∧
      Fails (c :: chars) .unexpectedCharacter (unexpected c chars).text :=
  ⟨rfl, .character noQuote noComment⟩

/-- A text without layout in front begins with a token, or reading fails as
it should. -/
theorem read_outcome {c : Char} {chars : List Char} (solid : Layout.piece? (c :: chars) = none) :
    BeginsToken (c :: chars) ∨ Exists fun fault =>
      (read c chars).verdict = .error fault ∧ Fails (c :: chars) fault (read c chars).text := by
  have marked : forall {kind}, Spelling kind [c] -> BeginsToken (c :: chars) := by
    intro kind spelled
    exact ⟨kind, [c], ⟨chars, rfl⟩, spelled⟩
  unfold read
  split
  · exact (string_outcome chars).imp id fun fails => ⟨_, fails⟩
  · exact Or.inl (marked .openBrace)
  · exact Or.inl (marked .closeBrace)
  · exact Or.inl (marked .openBracket)
  · exact Or.inl (marked .closeBracket)
  · exact Or.inl (marked .equals)
  · exact Or.inl (marked .comma)
  · exact Or.inl (marked .colon)
  · right
    split
    · next behind =>
        have unclosed : Layout.untilClosed? behind = none := by
          simpa [Layout.piece?] using solid
        exact ⟨_, rfl, .comment (Layout.untilClosed?_eq_none_iff.mp unclosed)⟩
    · next notComment =>
        refine ⟨_, unexpected_outcome (by decide) ?_⟩
        intro given
        rcases given with ⟨behind, same⟩
        exact notComment behind (List.cons.inj same).2.symm
  · next noQuote _ _ _ _ _ _ _ noSlash =>
      have failing : Exists fun fault =>
          (unexpected c chars).verdict = .error fault ∧ Fails (c :: chars) fault (unexpected c chars).text := by
        refine ⟨_, unexpected_outcome noQuote ?_⟩
        intro given
        rcases given with ⟨behind, same⟩
        exact noSlash (List.cons.inj same).1.symm
      split
      · next isSign =>
          split
          · next starts => exact Or.inl (beginsToken_signed isSign starts)
          · exact Or.inr failing
      · split
        · next starts => exact Or.inl (beginsToken_numberStart starts chars)
        · split
          · next starts =>
              exact Or.inl (marked (.word starts fun _ impossible => absurd impossible List.not_mem_nil))
          · exact Or.inr failing

/-- Reading takes the longest token a text begins with. -/
theorem read_longest {c : Char} {chars : List Char} (begins : BeginsToken (c :: chars)) :
    Exists fun kind => (read c chars).verdict = .ok kind ∧
      Longest (c :: chars) kind (read c chars).text := by
  rcases begins with ⟨other, taken, isPrefix, spelled⟩
  rcases read_covers isPrefix spelled with ⟨kind, success, readSpelled, _⟩
  refine ⟨kind, success, ⟨⟨_, read_whole c chars⟩, readSpelled, ?_⟩⟩
  intro otherKind other isPrefix spelled
  rcases read_covers isPrefix spelled with ⟨_, _, _, covered⟩
  exact covered

end Lexeme
end TypeSchema
