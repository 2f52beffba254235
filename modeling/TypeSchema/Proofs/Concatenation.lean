import TypeSchema.Proofs.Declarations
import TypeSchema.Proofs.Displacement
import TypeSchema.Proofs.Lossless
import TypeSchema.Proofs.Placement
import TypeSchema.Proofs.Progress

namespace TypeSchema

/-!
# One text after another

Two texts can be joined by a line feed.  If the first one is a schema, the
joined text is read as that schema and then the second text, as if the second
one had been read on its own: nothing that is begun in the first text goes on
behind the line feed, and no definition looks at what follows it.  The only
thing that ties the two together is that a name is given once.

The line feed is needed.  It ends a word, and it ends a line comment that
would have run up to the end of the first text.
-/

namespace Layout

/-- Layout in front of a text is the same when the text goes on behind a line
feed. -/
theorem IsPiece.beforeFeed {text rest : List Char} {piece : Piece} (isPiece : IsPiece text piece rest)
    (more : List Char) : IsPiece (text ++ '\n' :: more) piece (rest ++ '\n' :: more) := by
  cases isPiece with
  | blank isBlank => exact .blank isBlank
  | @lineComment body rest inside ends =>
      have endsAgain : rest ++ '\n' :: more = [] ∨ (rest ++ '\n' :: more).head? = some '\n' := by
        rcases ends with rfl | feed
        · exact Or.inr rfl
        · rw [List.head?_append, feed]
          exact Or.inr rfl
      simpa only [List.cons_append, List.append_assoc] using IsPiece.lineComment inside endsAgain
  | blockComment inside =>
      simpa only [List.cons_append, List.append_assoc] using IsPiece.blockComment inside

theorem Passes.beforeFeed {text rest : List Char} {pieces : List Piece}
    (passes : Passes text pieces rest) (more : List Char) :
    Passes (text ++ '\n' :: more) pieces (rest ++ '\n' :: more) := by
  induction passes with
  | nil text => exact .nil _
  | cons isPiece passes ih => exact .cons (isPiece.beforeFeed more) ih

end Layout

namespace Lexeme

/-- A line feed continues no token. -/
theorem Ends.beforeFeed {kind : Token.Kind} {rest : List Char} (ends : Ends kind rest)
    (more : List Char) : Ends kind (rest ++ '\n' :: more) := by
  intro c ahead
  cases rest with
  | nil =>
      rw [← Option.mem_some_iff.mp ahead]
      cases kind <;> rfl
  | cons first others => exact ends c ahead

/-- A token is read in the same way when the text goes on behind a line feed. -/
theorem read_beforeFeed {c : Char} {chars : List Char} {kind : Token.Kind}
    (solid : Layout.piece? (c :: chars) = none) (success : (read c chars).verdict = .ok kind)
    (more : List Char) :
    read c (chars ++ '\n' :: more) =
        { read c chars with rest := (read c chars).rest ++ '\n' :: more } ∧
      Layout.piece? (c :: (chars ++ '\n' :: more)) = none := by
  have begins : BeginsToken (c :: chars) := by
    rcases read_outcome solid with begins | ⟨fault, failure, _⟩
    · exact begins
    · rw [success] at failure
      cases failure
  rcases read_longest begins with ⟨found, verdict, longest⟩
  have whole := read_whole c chars
  rw [← whole] at longest
  have front := front?_of_spelling longest.spelled (longest.ends.beforeFeed more)
  have solidAgain := longest.spelled.solid ((read c chars).rest ++ '\n' :: more)
  rw [← List.append_assoc, whole, List.cons_append] at front solidAgain
  refine ⟨?_, solidAgain⟩
  rw [Option.some.inj front, ← verdict]

end Lexeme

namespace Scan

open Layout (Passes Piece)

/-- The scan of a text that goes on behind a line feed. -/
def beforeFeed (scan : Scan) (more : List Char) : Scan :=
  { scan with rest := scan.rest ++ '\n' :: more }

/-- A scan that has come to the end of its text goes on behind a line feed. -/
def feed (scan : Scan) (more : List Char) : Scan :=
  { scan with rest := more, offset := scan.offset + 1 }

/-! ## Up to the end of the first text -/

theorem skipLayout_beforeFeed {scan : Scan} {more : List Char}
    (solid : Layout.piece? ((Layout.split scan.rest).2 ++ '\n' :: more) = none) :
    (scan.beforeFeed more).skipLayout = scan.skipLayout.beforeFeed more := by
  have split := Layout.split_eq_of_passes ((Layout.passes_split scan.rest).beforeFeed more) solid
  simp only [beforeFeed, skipLayout, split]

theorem verdict_of_itemOf {lexeme : Lexeme} {offset : Nat} {token : Token}
    (item : itemOf lexeme offset = .ok token) :
    Exists fun kind => lexeme.verdict = .ok kind := by
  unfold itemOf at item
  split at item
  · next kind verdict => exact ⟨kind, verdict⟩
  · cases item

/-- A step that finds a token does not look behind a line feed. -/
theorem next_beforeFeed {scan after : Scan} {token : Token}
    (found : scan.next = (some (.ok token), after)) (more : List Char) :
    (scan.beforeFeed more).next = (some (.ok token), after.beforeFeed more) := by
  rcases read_of_next found with ⟨c, chars, ahead, solid, item, rfl⟩
  rcases verdict_of_itemOf item with ⟨kind, verdict⟩
  have again := Lexeme.read_beforeFeed solid verdict more
  have skipped : (scan.beforeFeed more).skipLayout = scan.skipLayout.beforeFeed more := by
    apply skipLayout_beforeFeed
    rw [ahead]
    exact again.2
  have rest : (scan.beforeFeed more).skipLayout.rest = c :: (chars ++ '\n' :: more) := by
    rw [skipped, beforeFeed]
    exact congrArg (· ++ '\n' :: more) ahead
  rw [next_of_cons rest, skipped, again.1, ← item]
  rfl

/-! ## Over the line feed -/

/-- The line feed is layout behind the layout at the end of the first text. -/
theorem skipLayout_feed {scan : Scan} (ended : (Layout.split scan.rest).2 = []) (more : List Char) :
    (scan.beforeFeed more).skipLayout = (scan.skipLayout.feed more).skipLayout := by
  have passes := (Layout.passes_split scan.rest).beforeFeed more
  rw [ended, List.nil_append] at passes
  have blank : Passes ('\n' :: more) [.blank '\n'] more := .cons (.blank rfl) (.nil more)
  have split := Layout.split_of_passes (passes.append blank)
  have size : '\n'.utf8Size = 1 := rfl
  simp [beforeFeed, feed, skipLayout, split, Layout.chars, Piece.chars, Piece.isLineComment,
    Piece.isBlockComment, size, Nat.add_assoc]

theorem next_beforeFeed_of_none {scan last : Scan} (found : scan.next = (none, last))
    (more : List Char) : (scan.beforeFeed more).next = (last.feed more).next := by
  rcases ended_of_next found with ⟨ahead, rfl⟩
  rw [next, next, skipLayout_feed ahead]

theorem run_congr {scan other : Scan} (same : scan.next = other.next) : scan.run = other.run := by
  cases found : scan.next with
  | mk item after =>
      have otherFound := same.symm.trans found
      cases item with
      | none => rw [run_of_next_none found, run_of_next_none otherFound]
      | some item =>
          cases item with
          | error error => rw [run_of_next_error found, run_of_next_error otherFound]
          | ok token => rw [run_of_next_ok found, run_of_next_ok otherFound]

/-- A run goes on behind the line feed with the scan that it would have ended
with. -/
theorem run_beforeFeed {scan : Scan} (noError : scan.run.error = none) (more : List Char) :
    (scan.beforeFeed more).run.tokens = scan.run.tokens ++ (scan.run.last.feed more).run.tokens ∧
      (scan.beforeFeed more).run.error = (scan.run.last.feed more).run.error := by
  induction scan using Scan.run.induct with
  | case1 scan last found =>
      rw [run_of_next_none found, run_congr (next_beforeFeed_of_none found more)]
      exact ⟨rfl, rfl⟩
  | case2 scan error last found =>
      rw [run_of_next_error found] at noError
      cases noError
  | case3 scan token after found shorter ih =>
      rw [run_of_next_ok found] at noError
      have later := ih noError
      rw [run_of_next_ok found, run_of_next_ok (next_beforeFeed found more)]
      exact ⟨congrArg (token :: ·) later.1, later.2⟩

/-! ## The tokens of both texts -/

theorem remaining_of_next {scan after : Scan} {item : Item} (found : scan.next = (some item, after)) :
    after.offset + after.remaining = scan.offset + scan.remaining := by
  have taken := takesSegment_of_next found
  have whole := congrArg Text.size taken.passes.whole
  rw [Text.size_append, Text.size_append] at whole
  rw [taken.offset, remaining, remaining, whole, Segment.chars, Text.size_append]
  simp only [Nat.add_assoc]

theorem remaining_of_next_none {scan last : Scan} (found : scan.next = (none, last)) :
    last.offset = scan.offset + scan.remaining := by
  rcases ended_of_next found with ⟨ahead, rfl⟩
  have whole := Layout.chars_split scan.rest
  rw [ahead, List.append_nil] at whole
  simp only [skipLayout, remaining, whole]

/-- A run without an error ends where the text ends. -/
theorem offset_run_last {scan : Scan} (noError : scan.run.error = none) :
    scan.run.last.offset = scan.offset + scan.remaining := by
  induction scan using Scan.run.induct with
  | case1 scan last found =>
      rw [run_of_next_none found]
      exact remaining_of_next_none found
  | case2 scan error last found =>
      rw [run_of_next_error found] at noError
      cases noError
  | case3 scan token after found shorter ih =>
      rw [run_of_next_ok found] at noError ⊢
      exact (ih noError).trans (remaining_of_next found)

/-- Behind the tokens of a text and a line feed stand the tokens of the other
text, or the error in it. -/
theorem tokens_append {first : String} {tokens : List Token} (scanned : Scan.tokens first = .ok tokens)
    (second : String) :
    Scan.tokens (first ++ "\n" ++ second) =
      match Scan.tokens second with
      | .error error => .error (error.shift (first ++ "\n").utf8ByteSize)
      | .ok others => .ok (tokens ++ others.map (Token.shift (first ++ "\n").utf8ByteSize)) := by
  have run := run_of_tokens scanned none
  have joined : start (first ++ "\n" ++ second) = (start first).beforeFeed second.toList := by
    simp [start, beforeFeed]
  have isShifted : Shifted (first ++ "\n").utf8ByteSize (start second)
      ((start first).run.last.feed second.toList) := by
    refine ⟨rfl, ?_⟩
    have feedSize : "\n".utf8ByteSize = 1 := rfl
    rw [feed, offset_run_last run.2, remaining, String.utf8ByteSize_append, feedSize]
    simp [start, Text.size_toList]
  have joinedRun := run_beforeFeed run.2 second.toList
  rw [Scan.tokens, Run.result, joined, joinedRun.1, joinedRun.2, isShifted.run.1, isShifted.run.2,
    run.1, Scan.tokens, Run.result]
  cases (start second).run.error <;> rfl

end Scan

namespace Schema

open Grammar
open TypeSchema.Parser (AdmitsAll Novel)

/-! ## Behind the definitions of a schema -/

theorem Declares.nameWord {tokens : List Token} {definitions : List Definition}
    (declares : Declares tokens definitions) :
    forall definition, definition ∈ definitions -> definition.name.kind = .word := by
  induction declares with
  | nil => exact fun _ impossible => absurd impossible List.not_mem_nil
  | cons spelled _ _ ih =>
      intro other member
      rcases List.mem_cons.mp member with rfl | later
      · exact nameWord_of_spelled spelled
      · exact ih other later

/-- The first of several definitions with a name that is given already is
refused. -/
theorem extend_of_clash {schema other : Schema} {tokens : List Token} {definition : Definition}
    (declared : (ofTokens tokens).outcome = .ok other)
    (first : other.definitions.find? (fun definition => definition.name.text ∈ schema.names) =
      some definition) :
    (schema.extend tokens).outcome = .error { cause := .duplicateDefinition definition.name } := by
  rcases ofTokens_eq_ok_iff.mp declared with ⟨declares, nodup⟩
  rcases List.find?_eq_some_iff_append.mp first with ⟨known, before, after, whole, unknown⟩
  rw [names, whole] at nodup
  rw [whole] at declares
  rcases declares.exists_split with ⟨earlier, taken, later, rfl, declaredBefore, spelled, admissible⟩
  have admitted : AdmitsAll (Novel nameText) schema.definitions before := by
    refine admitsAll_nameText_iff.mpr ⟨?_, ?_⟩
    · rw [List.map_append] at nodup
      exact (List.nodup_append.mp nodup).1
    · intro definition member
      exact novel_iff.mpr (by simpa using unknown definition member)
  rw [extend_append declaredBefore admitted, extend_of_known spelled admissible]
  rw [names, List.map_append]
  exact List.mem_append_left _ (of_decide_eq_true known)

/-- Definitions with names that are not given yet are added. -/
theorem extend_of_disjoint {schema other : Schema} {tokens : List Token}
    (declared : (ofTokens tokens).outcome = .ok other)
    (disjoint : forall name, name ∈ schema.names -> name ∉ other.names) :
    (schema.extend tokens).outcome = .ok { definitions := schema.definitions ++ other.definitions } := by
  rcases ofTokens_eq_ok_iff.mp declared with ⟨declares, nodup⟩
  apply extend_of_declares declares
  refine admitsAll_nameText_iff.mpr ⟨nodup, ?_⟩
  intro definition member
  refine novel_iff.mpr fun known => ?_
  exact disjoint definition.name.text known (List.mem_map_of_mem member)

/-! ## Behind the text of a schema -/

section Shift

variable (distance : Nat)

theorem ofTokens_shift {tokens : List Token} {schema : Schema}
    (declared : (ofTokens tokens).outcome = .ok schema) :
    (ofTokens (tokens.map (Token.shift distance))).outcome =
      .ok (schema.mapTokens (Token.shift distance)) := by
  have renames : Token.IsRenaming (Token.shift distance) :=
    Token.isRenaming_of_texts (fun _ => rfl) (Token.text_shift distance)
  have shifted := extend_map renames namedByWords_empty tokens
  have outcomes := congrArg Extension.outcome shifted
  rw [ofTokens] at declared
  simp only [Extension.mapTokens, declared] at outcomes
  exact outcomes

theorem find?_shift (schema : Schema) (given : List String) :
    (schema.mapTokens (Token.shift distance)).definitions.find?
        (fun definition => definition.name.text ∈ given) =
      (schema.definitions.find? fun definition => definition.name.text ∈ given).map
        (Definition.mapTokens (Token.shift distance)) := by
  simp only [mapTokens, List.find?_map, Function.comp_def, Definition.name_mapTokens,
    Token.text_shift]

end Shift

/-- Tokens behind those of a schema extend this schema. -/
theorem ofTokens_append {tokens : List Token} {schema : Schema}
    (declared : (ofTokens tokens).outcome = .ok schema) (later : List Token) :
    ofTokens (tokens ++ later) = schema.extend later := by
  rcases declares_of_extend declared with ⟨definitions, declares, admitted, all⟩
  rw [ofTokens, extend_append declares admitted]
  exact congrArg (Schema.extend · later) (ext_definitions all.symm)

theorem namedByWords_of_parse {text : String} {schema : Schema} (parsed : parse text = .ok schema) :
    schema.NamedByWords := by
  rcases parse_eq_ok_iff.mp parsed with ⟨tokens, _, declared⟩
  exact (ofTokens_eq_ok_iff.mp declared).1.nameWord

/-- Behind the text of a schema and a line feed, another text is read into this
schema, with its tokens further on. -/
theorem parse_append_eq {first : String} {schema : Schema} (parsed : parse first = .ok schema)
    (second : String) :
    parse (first ++ "\n" ++ second) =
      match Scan.tokens second with
      | .error error => .error { cause := .lexical (error.shift (first ++ "\n").utf8ByteSize) }
      | .ok tokens =>
          (schema.extend (tokens.map (Token.shift (first ++ "\n").utf8ByteSize))).outcome := by
  rcases parse_eq_ok_iff.mp parsed with ⟨tokens, scanned, declared⟩
  rw [parse, Scan.tokens_append scanned second]
  cases Scan.tokens second with
  | error error => rfl
  | ok others => simp only [ofTokens_append declared]

theorem exists_first_known {schema other : Schema} {name : String} (known : name ∈ schema.names)
    (shared : name ∈ other.names) :
    Exists fun definition =>
      other.definitions.find? (fun definition => definition.name.text ∈ schema.names) =
        some definition := by
  rcases List.mem_map.mp shared with ⟨definition, member, rfl⟩
  refine Option.isSome_iff_exists.mp (List.find?_isSome.mpr ⟨definition, member, ?_⟩)
  exact decide_eq_true known

/-- What a text that stands behind another one is read as, if the other one is
this schema.  The text begins at the given distance. -/
structure Continues (joined : Except Diagnostic Schema) (schema : Schema) (text : String)
    (distance : Nat) : Prop where
  /-- A lexical error in the text is the same one, found at its place. -/
  lexical : forall error, Scan.tokens text = .error error ->
    joined = .error { cause := .lexical (error.shift distance) } ∧ ComesTo joined (parse text)
  /-- Otherwise the schema is extended step by step with the tokens of the text,
  and it does not matter to the steps where these stand. -/
  steps : forall tokens, Scan.tokens text = .ok tokens ->
    EndsIn schema (tokens.map (Token.shift distance)) joined ∧
      Exists fun outcome => EndsIn schema tokens outcome ∧ ComesTo joined outcome
  /-- If the text is a schema with other names, the definitions of both are
  there. -/
  disjoint : forall other, parse text = .ok other ->
    (forall name, name ∈ schema.names -> name ∉ other.names) ->
    joined = .ok { definitions :=
      schema.definitions ++ (other.mapTokens (Token.shift distance)).definitions }
  /-- If some names are given already, the first definition that has one is to
  blame. -/
  clash : forall other name, parse text = .ok other -> name ∈ schema.names -> name ∈ other.names ->
    Exists fun definition => Exists fun diagnostic =>
      other.definitions.find? (fun definition => definition.name.text ∈ schema.names) =
        some definition ∧
      joined = .error diagnostic ∧ diagnostic.category = .semantic ∧
      diagnostic.cause = .duplicateDefinition (definition.name.shift distance) ∧
      diagnostic.token? = some (definition.name.shift distance)

/-- The text of a schema, a line feed, and any other text: the definitions of
the schema are there, and the other text is read behind them. -/
theorem parse_append {first : String} {schema : Schema} (parsed : parse first = .ok schema)
    (second : String) :
    Continues (parse (first ++ "\n" ++ second)) schema second (first ++ "\n").utf8ByteSize := by
  have joined := parse_append_eq parsed second
  have words := namedByWords_of_parse parsed
  generalize (first ++ "\n").utf8ByteSize = distance at joined ⊢
  have isSchema : forall other, parse second = .ok other -> Exists fun tokens =>
      parse (first ++ "\n" ++ second) = (schema.extend tokens).outcome ∧
        (ofTokens tokens).outcome = .ok (other.mapTokens (Token.shift distance)) := by
    intro other success
    rcases parse_eq_ok_iff.mp success with ⟨tokens, scanned, declared⟩
    exact ⟨_, by rw [joined, scanned], ofTokens_shift distance declared⟩
  constructor
  case lexical =>
    intro error failed
    rw [joined, parse, failed]
    exact ⟨rfl, comesTo_of_mapTokens rfl⟩
  case steps =>
    intro tokens scanned
    rw [joined, scanned]
    refine ⟨endsIn_extend .., _, endsIn_extend .., ?_⟩
    refine extend_comesTo (Alike.refl schema) words words ?_
    rw [List.map_map]
    rfl
  case disjoint =>
    intro other success disjoint
    rcases isSchema other success with ⟨tokens, result, declared⟩
    rw [result]
    exact extend_of_disjoint declared (by rwa [names_mapTokens (Token.text_shift distance)])
  case clash =>
    intro other name success known shared
    rcases isSchema other success with ⟨tokens, result, declared⟩
    rcases exists_first_known known shared with ⟨definition, isFirst⟩
    have shifted := find?_shift distance other schema.names
    rw [isFirst] at shifted
    have refused := extend_of_clash declared shifted
    rw [Definition.name_mapTokens] at refused
    exact ⟨definition, _, isFirst, result.trans refused, rfl, rfl, rfl⟩

/-- A schema whose text ends in the middle of a line comment. -/
def enumText : String := "enum A\x7bX\x7d//"

/-- A schema with a name that is new behind the first one and a name that is
not. -/
def clashText : String := "type B\x7bA a\x7denum A\x7bY\x7d"

theorem exists_of_names {text : String} {nameTokens : List Token}
    (found : (parse text).toOption.map (fun schema => schema.definitions.map Definition.name) =
      some nameTokens) :
    Exists fun schema => parse text = .ok schema ∧
      schema.definitions.map Definition.name = nameTokens ∧
      schema.names = nameTokens.map Token.text := by
  cases parsed : parse text with
  | error diagnostic =>
      rw [parsed] at found
      cases found
  | ok schema =>
      rw [parsed] at found
      have named := Option.some.inj found
      exact ⟨schema, rfl, named, by rw [← named, names, List.map_map]; rfl⟩

theorem parse_append_enumText :
    Exists fun schema => parse enumText = .ok schema ∧ schema.names = ["A"] ∧
      parse (enumText ++ "\n" ++ "\"//") = .error
        { cause := .lexical
            { fault := .unterminatedString
              token := { kind := .string, text := "\"//", start := 12 } } } ∧
      (Exists fun joined => parse (enumText ++ "\n" ++ "type B\x7b\x7d") = .ok joined ∧
        joined.names = ["A", "B"]) ∧
      Exists fun diagnostic => parse (enumText ++ "\n" ++ clashText) = .error diagnostic ∧
        diagnostic.category = .semantic ∧
        diagnostic.token? = some { kind := .word, text := "A", start := 28 } := by
  have own : (parse enumText).toOption.map (fun schema => schema.definitions.map Definition.name) =
      some [{ kind := .word, text := "A", start := 5 }] := by decide +kernel
  have other : (parse "type B\x7b\x7d").toOption.map
      (fun schema => schema.definitions.map Definition.name) =
      some [{ kind := .word, text := "B", start := 5 }] := by decide +kernel
  have clashing : (parse clashText).toOption.map
      (fun schema => schema.definitions.map Definition.name) =
      some [{ kind := .word, text := "B", start := 5 }, { kind := .word, text := "A", start := 16 }] :=
    by decide +kernel
  have failed : (Scan.start "\"//").run.error = some
      { fault := .unterminatedString, token := { kind := .string, text := "\"//" } } := by
    decide +kernel
  have size : (enumText ++ "\n").utf8ByteSize = 12 := by decide +kernel
  rcases exists_of_names own with ⟨schema, parsed, _, named⟩
  rcases exists_of_names other with ⟨others, parsedOthers, _, namedOthers⟩
  rcases exists_of_names clashing with ⟨clash, parsedClash, clashTokens, namedClash⟩
  have unclosed := ((parse_append parsed "\"//").lexical _
    (by rw [Scan.tokens, Scan.Run.result, failed])).1
  have both := (parse_append parsed "type B\x7b\x7d").disjoint others parsedOthers
    (by rw [named, namedOthers]; decide)
  rcases (parse_append parsed clashText).clash clash "A" parsedClash (by rw [named]; decide)
    (by rw [namedClash]; decide) with ⟨definition, diagnostic, isFirst, refused, semantic, _, blamed⟩
  rw [size] at unclosed both blamed
  refine ⟨schema, parsed, named, unclosed, ⟨_, both, ?_⟩, diagnostic, refused, semantic, ?_⟩
  · have shifted := names_mapTokens (Token.text_shift 12) others
    rw [names] at named shifted ⊢
    rw [List.map_append, named, shifted, namedOthers]
    rfl
  · have isGiven := List.find?_some isFirst
    have member := List.mem_map_of_mem (f := Definition.name) (List.mem_of_find?_eq_some isFirst)
    rw [clashTokens] at member
    rw [named] at isGiven
    rw [blamed]
    simp only [List.mem_cons, List.not_mem_nil, or_false] at member
    rcases member with isB | isA
    · rw [isB] at isGiven
      exact absurd isGiven (by decide)
    · rw [isA]
      rfl

end Schema
end TypeSchema
