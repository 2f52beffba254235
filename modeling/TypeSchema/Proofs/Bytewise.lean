import TypeSchema.Proofs.Lossless
import TypeSchema.Proofs.Measure

namespace TypeSchema

/-!
# Scans of memory

A scan can work on the bytes of a text alone: it passes over blanks, measures what
stands behind them, and has memory divided there.  A division that would cut a
character, or that lies behind the end, is refused, and then the call has no answer.
On valid memory no division is ever refused.  Call for call the scan finds what a
scan of the characters finds, and all that it leaves or hands out is valid again.
-/

open Encoding

/-- A division that is asked for: of the bytes ahead, at an offset. -/
structure Cut where
  ahead : List UInt8
  offset : Nat

/-- The offset lies inside, between two characters, and both parts are valid. -/
structure Cut.IsSound (cut : Cut) : Prop where
  inside : cut.offset ≤ cut.ahead.length
  between : isBoundary cut.ahead cut.offset = true
  before : IsValid (cut.ahead.take cut.offset)
  behind : IsValid (cut.ahead.drop cut.offset)

namespace Measure

/-- The divisions that a measure of the bytes ahead asks for. -/
def cuts (measure : Measure) (ahead : List UInt8) : List Cut :=
  (measure.searchFrom.toList ++ [measure.length]).map (Cut.mk ahead)

/-- Divide the bytes ahead behind the measured length, after the division from
which the search for the end began. -/
def take? (measure : Measure) (ahead : List UInt8) : Option (List UInt8 × List UInt8) :=
  match measure.searchFrom with
  | none => divide? measure.length ahead
  | some start => (divide? start ahead).bind fun _ => divide? measure.length ahead

theorem rest_of_take? {measure : Measure} {ahead text rest : List UInt8}
    (taken : measure.take? ahead = some (text, rest)) : rest = ahead.drop measure.length := by
  have divided : divide? measure.length ahead = some (text, rest) := by
    rw [take?] at taken
    split at taken
    · exact taken
    · exact (Option.bind_eq_some_iff.mp taken).choose_spec.2
  rw [divide?] at divided
  split at divided
  · exact (Prod.mk.inj (Option.some.inj divided)).2.symm
  · cases divided

end Measure

namespace Bytewise

open TypeSchema.Measure (comment? comment?_block comment?_line comment?_none lexeme? lexeme?_bytes)

/-- What a call does: the divisions it asks for, the verdict on the text that it
finds behind the layout, if there is any, with the bytes of this text, and the
bytes that it leaves. -/
structure Call where
  cuts : List Cut
  found : Option (Except Fault Token.Kind × List UInt8)
  rest : List UInt8

/-- The call that takes a measured text and returns it. -/
def report? (measure : Measure) (ahead : List UInt8) : Option Call :=
  (measure.take? ahead).map fun (text, rest) =>
    { cuts := measure.cuts ahead, found := some (measure.verdict, text), rest }

theorem length_lt_of_blank {ahead : List UInt8} (blank : 0 < runLength Layout.isBlank ahead) :
    (ahead.drop (runLength Layout.isBlank ahead)).length < ahead.length := by
  cases ahead with
  | nil =>
      rw [runLength_nil] at blank
      exact absurd blank (Nat.lt_irrefl 0)
  | cons byte behind =>
      rw [List.length_drop]
      exact Nat.sub_lt (Nat.succ_pos _) blank

theorem length_lt_of_comment? {ahead text rest : List UInt8} {measure : Measure}
    (commented : comment? ahead = some measure) (taken : measure.take? ahead = some (text, rest)) :
    rest.length < ahead.length := by
  rcases Measure.bounds_of_comment? commented with ⟨begins, positive⟩
  rw [Measure.rest_of_take? taken, List.length_drop]
  exact Nat.sub_lt begins positive

/-- One call: pass over blanks and comments, then return what stands behind them.
There is no answer if a division is refused. -/
def next? (ahead : List UInt8) : Option Call :=
  if blank : 0 < runLength Layout.isBlank ahead then
    have := length_lt_of_blank blank
    next? (ahead.drop (runLength Layout.isBlank ahead))
  else
    match commented : comment? ahead with
    | some measure =>
        match measure.verdict with
        | .error _ => report? measure ahead
        | .ok _ =>
            match taken : measure.take? ahead with
            | none => none
            | some (_, rest) =>
                have := length_lt_of_comment? commented taken
                (next? rest).map fun call => { call with cuts := measure.cuts ahead ++ call.cuts }
    | none =>
        match lexeme? ahead with
        | some measure => report? measure ahead
        | none => some { cuts := [], found := none, rest := ahead }
termination_by ahead.length

/-- A number of calls made one after another, and the bytes behind them. -/
def calls? : (count : Nat) -> List UInt8 -> Option (List Call × List UInt8)
  | 0, ahead => some ([], ahead)
  | count + 1, ahead =>
      (next? ahead).bind fun call =>
        (calls? count call.rest).map fun (calls, last) => (call :: calls, last)

/-! ## Divisions of a text -/

/-- The offset is the size of the characters in front of some place in the text. -/
def IsPlace (chars : List Char) (offset : Nat) : Prop :=
  Exists fun before => Exists fun after => chars = before ++ after ∧ offset = Text.size before

theorem IsPlace.divide? {chars : List Char} {offset : Nat} (isPlace : IsPlace chars offset) :
    Exists fun before => Exists fun after =>
      divide? offset (Text.bytes chars) = some (Text.bytes before, Text.bytes after) := by
  rcases isPlace with ⟨before, after, rfl, rfl⟩
  exact ⟨before, after, divide?_bytes_append before after⟩

theorem IsPlace.isSound {chars : List Char} {offset : Nat} (isPlace : IsPlace chars offset) :
    (Cut.mk (Text.bytes chars) offset).IsSound := by
  rcases isPlace with ⟨before, after, rfl, rfl⟩
  have divided := divide?_bytes_append before after
  rw [Encoding.divide?] at divided
  split at divided
  · next between =>
      rcases Prod.mk.inj (Option.some.inj divided) with ⟨isBefore, isBehind⟩
      constructor
      case inside =>
        rw [Text.length_bytes, Text.size_append]
        exact Nat.le_add_right ..
      case between => exact between
      case before =>
        rw [isBefore]
        exact isValid_bytes before
      case behind =>
        rw [isBehind]
        exact isValid_bytes after
  · cases divided

/-- The measure reaches to the end of the text in front, and the search for this
end began between two characters. -/
structure Fits (measure : Measure) (text behind : List Char) : Prop where
  length : measure.length = Text.size text
  searchFrom : forall start, start ∈ measure.searchFrom -> IsPlace (text ++ behind) start

theorem Fits.cuts {measure : Measure} {text behind : List Char} (fits : Fits measure text behind)
    {cut : Cut} (asked : cut ∈ measure.cuts (Text.bytes (text ++ behind))) : cut.IsSound := by
  rcases List.mem_map.mp asked with ⟨offset, member, rfl⟩
  apply IsPlace.isSound
  rcases List.mem_append.mp member with search | last
  · exact fits.searchFrom offset (Option.mem_toList.mp search)
  · exact ⟨text, behind, rfl, (List.mem_singleton.mp last).trans fits.length⟩

theorem Fits.take? {measure : Measure} {text behind : List Char} (fits : Fits measure text behind) :
    measure.take? (Text.bytes (text ++ behind)) = some (Text.bytes text, Text.bytes behind) := by
  rw [Measure.take?]
  split
  · rw [fits.length, divide?_bytes_append]
  · next start search =>
      rcases (fits.searchFrom start search).divide? with ⟨before, after, divided⟩
      rw [divided, Option.bind_some, fits.length, divide?_bytes_append]

/-! ## The cases of a call -/

section Cases

variable {ahead : List UInt8}

theorem next?_of_blank (blank : 0 < runLength Layout.isBlank ahead) :
    next? ahead = next? (ahead.drop (runLength Layout.isBlank ahead)) := by
  rw [next?, dif_pos blank]

variable (solid : runLength Layout.isBlank ahead = 0)

include solid

theorem next?_of_passed {measure : Measure} {kind : Token.Kind} {text rest : List UInt8}
    (commented : comment? ahead = some measure) (passed : measure.verdict = .ok kind)
    (taken : measure.take? ahead = some (text, rest)) :
    next? ahead =
      (next? rest).map fun call => { call with cuts := measure.cuts ahead ++ call.cuts } := by
  rw [next?, dif_neg (Nat.not_lt.mpr (Nat.le_of_eq solid))]
  split
  · next other same =>
      rw [commented] at same
      cases same
      rw [passed]
      dsimp only
      split
      · next refused =>
          rw [taken] at refused
          cases refused
      · next again =>
          rw [taken] at again
          cases again
          rfl
  · next plain =>
      rw [commented] at plain
      cases plain

theorem next?_of_fault {measure : Measure} {fault : Fault} (commented : comment? ahead = some measure)
    (failed : measure.verdict = .error fault) : next? ahead = report? measure ahead := by
  rw [next?, dif_neg (Nat.not_lt.mpr (Nat.le_of_eq solid))]
  split
  · next other same =>
      rw [commented] at same
      cases same
      rw [failed]
  · next plain =>
      rw [commented] at plain
      cases plain

theorem next?_of_plain (plain : comment? ahead = none) :
    next? ahead =
      match lexeme? ahead with
      | some measure => report? measure ahead
      | none => some { cuts := [], found := none, rest := ahead } := by
  rw [next?, dif_neg (Nat.not_lt.mpr (Nat.le_of_eq solid))]
  split
  · next commented =>
      rw [plain] at commented
      cases commented
  · rfl

end Cases

/-! ## One call -/

/-- The call asks for sound divisions alone; it returns the lexeme behind the layout
at the front of the text, and leaves what stands behind that. -/
structure Call.Reads (call : Call) (chars : List Char) : Prop where
  cuts : forall cut, cut ∈ call.cuts -> cut.IsSound
  found : call.found = (Lexeme.front? (Layout.split chars).2).map fun lexeme =>
    (lexeme.verdict, Text.bytes lexeme.text)
  rest : call.rest = Text.bytes ((Lexeme.front? (Layout.split chars).2).elim [] Lexeme.rest)

/-- Blanks in front do not change what is left behind the layout. -/
theorem split_dropWhile_isBlank (chars : List Char) :
    (Layout.split chars).2 = (Layout.split (chars.dropWhile Layout.isBlank)).2 := by
  induction chars with
  | nil => rfl
  | cons c rest ih =>
      cases isBlank : Layout.isBlank c with
      | true =>
          have isPiece : Layout.IsPiece (c :: rest) (.blank c) rest := .blank isBlank
          rw [Layout.split_some (Layout.piece?_of_isPiece isPiece), List.dropWhile_cons_of_pos isBlank, ih]
      | false => rw [List.dropWhile_cons_of_neg (Bool.eq_false_iff.mp isBlank)]

/-- A call on the bytes of the text has an answer, and reads the text. -/
def Answers (chars : List Char) : Prop :=
  Exists fun call => next? (Text.bytes chars) = some call ∧ call.Reads chars

/-- A lexeme that is measured is returned. -/
theorem reads_of_report {c : Char} {chars : List Char} (noPiece : Layout.piece? (c :: chars) = none)
    {searchFrom : Option Nat}
    (searched : forall start, start ∈ searchFrom -> IsPlace (c :: chars) start) :
    Exists fun call =>
      report? (Measure.ofLexeme (Lexeme.read c chars) searchFrom) (Text.bytes (c :: chars)) = some call ∧
        call.Reads (c :: chars) := by
  have whole := Lexeme.read_whole c chars
  have fits : Fits (Measure.ofLexeme (Lexeme.read c chars) searchFrom) (Lexeme.read c chars).text
      (Lexeme.read c chars).rest := by
    constructor
    case length => rfl
    case searchFrom =>
      rw [whole]
      exact searched
  have taken := fits.take?
  rw [whole] at taken
  refine ⟨_, by rw [report?, taken, Option.map_some], ?_⟩
  constructor
  case cuts =>
    intro cut asked
    rw [← whole] at asked
    exact fits.cuts asked
  case found =>
    rw [Layout.split_none noPiece]
    rfl
  case rest =>
    rw [Layout.split_none noPiece]
    rfl

/-- A comment is passed over, and what stands behind it is read. -/
theorem answers_of_passed {piece : Layout.Piece} {chars behind : List Char} {measure : Measure}
    {kind : Token.Kind} (found : Layout.piece? chars = some (piece, behind))
    (solid : runLength Layout.isBlank (Text.bytes chars) = 0)
    (commented : comment? (Text.bytes chars) = some measure) (passed : measure.verdict = .ok kind)
    (fits : Fits measure piece.chars behind) (later : Answers behind) : Answers chars := by
  have taken := fits.take?
  rw [← Layout.piece?_eq_some found] at taken
  rcases later with ⟨call, answered, reads⟩
  refine ⟨_, by rw [next?_of_passed solid commented passed taken, answered, Option.map_some], ?_⟩
  constructor
  case cuts =>
    intro cut asked
    rcases List.mem_append.mp asked with own | behind
    · rw [Layout.piece?_eq_some found] at own
      exact fits.cuts own
    · exact reads.cuts cut behind
  case found =>
    rw [Layout.split_some found]
    exact reads.found
  case rest =>
    rw [Layout.split_some found]
    exact reads.rest

theorem answers_lineComment {rest : List Char} (later : Answers (rest.dropWhile (· != '\n'))) :
    Answers ('/' :: '/' :: rest) := by
  have found : Layout.piece? ('/' :: '/' :: rest) = _ := rfl
  refine answers_of_passed found (runLength_of_fails rfl _) (comment?_line rest) rfl ⟨rfl, ?_⟩ later
  intro start search
  cases search

/-- The opening mark of a block comment stands in front of the search for its end. -/
theorem searched_block {rest : List Char} {start : Nat} (search : start ∈ some 2) :
    IsPlace ('/' :: '*' :: rest) start := by
  cases search
  exact ⟨['/', '*'], rest, rfl, rfl⟩

theorem piece?_block {rest : List Char} {parts : List Char × List Char}
    (closed : Layout.untilClosed? rest = some parts) :
    Layout.piece? ('/' :: '*' :: rest) = some (.blockComment parts.1, parts.2) := by
  rw [Layout.piece?, closed]
  rfl

theorem answers_blockComment {rest : List Char} {parts : List Char × List Char}
    (closed : Layout.untilClosed? rest = some parts) (later : Answers parts.2) :
    Answers ('/' :: '*' :: rest) := by
  have found := piece?_block closed
  have commented := comment?_block rest
  rw [closed] at commented
  refine answers_of_passed found (runLength_of_fails rfl _) commented rfl ⟨rfl, ?_⟩ later
  intro start search
  rw [← Layout.piece?_eq_some found]
  exact searched_block search

theorem answers_unclosed {rest : List Char} (unclosed : Layout.untilClosed? rest = none) :
    Answers ('/' :: '*' :: rest) := by
  have noPiece : Layout.piece? ('/' :: '*' :: rest) = none := by
    rw [Layout.piece?, unclosed]
    rfl
  have commented := comment?_block rest
  rw [unclosed] at commented
  rw [Answers, next?_of_fault (runLength_of_fails rfl _) commented rfl]
  exact reads_of_report noPiece fun _ => searched_block

/-- All blanks in front are passed over at once. -/
theorem answers_blank {c : Char} {rest : List Char} (isBlank : Layout.isBlank c = true)
    (later : Answers (rest.dropWhile Layout.isBlank)) : Answers (c :: rest) := by
  have present : 0 < runLength Layout.isBlank (Text.bytes (c :: rest)) :=
    runLength_pos (front?_encoded c (Text.bytes rest)) isBlank
  have left : (c :: rest).dropWhile Layout.isBlank = rest.dropWhile Layout.isBlank :=
    List.dropWhile_cons_of_pos isBlank
  have same := split_dropWhile_isBlank (c :: rest)
  rw [left] at same
  rcases later with ⟨call, answered, reads⟩
  refine ⟨call, by rw [next?_of_blank present, drop_runLength, left, answered], ?_⟩
  exact ⟨reads.cuts, same ▸ reads.found, same ▸ reads.rest⟩

theorem answers_lexeme {c : Char} {rest : List Char} (isSolid : ¬ Layout.isBlank c = true)
    (notLine : forall behind, c :: rest ≠ '/' :: '/' :: behind)
    (notBlock : forall behind, c :: rest ≠ '/' :: '*' :: behind) : Answers (c :: rest) := by
  have noPiece : Layout.piece? (c :: rest) = none := by
    rw [Layout.piece?, if_neg isSolid]
    · rintro behind rfl rfl
      exact notLine behind rfl
    · rintro behind rfl rfl
      exact notBlock behind rfl
  have solid := runLength_of_fails (Bool.eq_false_iff.mpr isSolid) rest
  rw [Answers, next?_of_plain solid (comment?_none notLine notBlock), lexeme?_bytes notBlock]
  refine reads_of_report noPiece ?_
  intro start search
  split at search
  · next quote =>
      cases search
      rw [quote]
      exact ⟨['"'], rest, rfl, rfl⟩
  · cases search

theorem answers_nil : Answers [] := by
  have nothing : Layout.split [] = ([], []) := Layout.split_none rfl
  refine ⟨_, next?_of_plain (runLength_nil _) rfl, ?_⟩
  constructor
  case cuts =>
    intro cut impossible
    cases impossible
  case found =>
    rw [nothing]
    rfl
  case rest =>
    rw [nothing]
    rfl

/-- On the bytes of a text every call has an answer. -/
theorem answers_bytes (chars : List Char) : Answers chars := by
  -- A call goes on behind a comment or a run of blanks, where less text is left.
  fun_cases Layout.piece? chars with
  | case1 rest =>
      have found : Layout.piece? ('/' :: '/' :: rest) = _ := rfl
      have shorter := Layout.length_lt_of_piece? found
      exact answers_lineComment (answers_bytes _)
  | case2 rest =>
      cases closed : Layout.untilClosed? rest with
      | some parts =>
          have shorter := Layout.length_lt_of_piece? (piece?_block closed)
          exact answers_blockComment closed (answers_bytes parts.2)
      | none => exact answers_unclosed closed
  | case3 c rest _ _ isBlank =>
      have shorter : (rest.dropWhile Layout.isBlank).length < (c :: rest).length :=
        Nat.lt_succ_of_le (List.dropWhile_sublist _).length_le
      exact answers_blank isBlank (answers_bytes _)
  | case4 c rest notLine notBlock isSolid =>
      apply answers_lexeme isSolid
      · rintro behind ⟨⟩
        exact notLine behind rfl rfl
      · rintro behind ⟨⟩
        exact notBlock behind rfl rfl
  | case5 => exact answers_nil
termination_by chars.length

/-- A word ends where a byte follows that begins no character, and cannot be taken
off there. -/
example : (next? ['a'.toUInt8, 0x80]).isNone = true := by
  decide +kernel

/-! ## Calls of a scan -/

/-- What a scan says about the text that it has met: the verdict, and the bytes. -/
def view : Scan.Item -> Except Fault Token.Kind × List UInt8
  | .ok token => (.ok token.kind, Text.bytes token.text.toList)
  | .error error => (.error error.fault, Text.bytes error.token.text.toList)

theorem view_itemOf (lexeme : Lexeme) (offset : Nat) :
    view (Scan.itemOf lexeme offset) = (lexeme.verdict, Text.bytes lexeme.text) := by
  cases verdict : lexeme.verdict with
  | ok kind => simp [Scan.itemOf, verdict, view, Scan.tokenOf, Lexeme.kind]
  | error fault => simp [Scan.itemOf, verdict, view, Scan.tokenOf]

/-- A call on the bytes ahead of a scan is a step of the scan. -/
theorem Call.Reads.next {call : Call} {scan : Scan} (reads : call.Reads scan.rest) :
    call.found = scan.next.1.map view ∧ call.rest = Text.bytes scan.next.2.rest := by
  rw [reads.found, reads.rest]
  cases ahead : (Layout.split scan.rest).2 with
  | nil =>
      rw [Scan.next_of_nil ahead]
      exact ⟨rfl, congrArg Text.bytes ahead.symm⟩
  | cons c chars =>
      rw [Scan.next_of_cons ahead, Option.map_some, view_itemOf]
      exact ⟨rfl, rfl⟩

/-- The call asks for sound divisions alone, and all that it hands out or leaves is
valid. -/
structure Call.IsSound (call : Call) : Prop where
  cuts : forall cut, cut ∈ call.cuts -> cut.IsSound
  found : forall verdict text, call.found = some (verdict, text) -> IsValid text
  rest : IsValid call.rest

theorem Call.Reads.isSound {call : Call} {chars : List Char} (reads : call.Reads chars) :
    call.IsSound := by
  constructor
  case cuts => exact reads.cuts
  case found =>
    intro verdict text found
    rw [reads.found] at found
    rcases Option.map_eq_some_iff.mp found with ⟨lexeme, _, same⟩
    rw [← (Prod.mk.inj same).2]
    exact isValid_bytes lexeme.text
  case rest =>
    rw [reads.rest]
    exact isValid_bytes _

/-- However many calls are made, they have an answer, and each is a step of the scan. -/
theorem calls?_bytes (count : Nat) (scan : Scan) :
    Exists fun calls => calls? count (Text.bytes scan.rest) =
        some (calls, Text.bytes (Scan.answers count scan).2.rest) ∧
      (forall call, call ∈ calls -> call.IsSound) ∧
      calls.map Call.found = (Scan.answers count scan).1.map (Option.map view) := by
  induction count generalizing scan with
  | zero => exact ⟨[], rfl, fun _ impossible => absurd impossible List.not_mem_nil, rfl⟩
  | succ count ih =>
      rcases answers_bytes scan.rest with ⟨call, answered, reads⟩
      rcases reads.next with ⟨found, rest⟩
      rcases ih scan.next.2 with ⟨calls, later, sound, same⟩
      refine ⟨call :: calls, ?_, ?_, ?_⟩
      · rw [calls?, answered, Option.bind_some, rest, later]
        rfl
      · intro other member
        rcases List.mem_cons.mp member with rfl | behind
        · exact reads.isSound
        · exact sound other behind
      · rw [List.map_cons, found, same]
        rfl

/-- On valid memory, whatever characters it holds, any number of calls have their
answers: each division that they ask for lies inside and between two characters.
The texts they return and the bytes they leave are valid, and they are those of a
scan of the characters. -/
theorem calls_uncut {memory : List UInt8} (valid : IsValid memory) (count : Nat) :
    Exists fun calls => Exists fun ahead => calls? count memory = some (calls, ahead) ∧
      (forall call, call ∈ calls -> call.IsSound) ∧ IsValid ahead ∧
      Exists fun source : String => memory = Text.bytes source.toList ∧
        forall limit : Option Nat,
          calls.map Call.found =
              (Scan.answers count (Scan.start source limit)).1.map (Option.map view) ∧
            ahead = Text.bytes (Scan.answers count (Scan.start source limit)).2.rest := by
  rcases isValid_iff.mp valid with ⟨chars, rfl⟩
  have start : forall limit, (Scan.start (String.ofList chars) limit).rest = chars :=
    fun _ => String.toList_ofList
  rcases calls?_bytes count (Scan.start (String.ofList chars)) with ⟨calls, answered, sound, _⟩
  rw [start] at answered
  refine ⟨calls, _, answered, sound, isValid_bytes _, String.ofList chars,
    by rw [String.toList_ofList], ?_⟩
  intro limit
  rcases calls?_bytes count (Scan.start (String.ofList chars) limit) with ⟨others, again, _, found⟩
  rw [start, answered] at again
  rcases Prod.mk.inj (Option.some.inj again) with ⟨rfl, rest⟩
  exact ⟨found, rest⟩

/-- Wide characters next to a word, a number and a sign, in comments and in strings,
also where these are never closed. -/
def wideMemory : List UInt8 :=
  Text.bytes "aé/*€*/ \"x😀\"// ü\n+1.5é-é\"ö\n/*ü".toList

theorem calls_uncut_wideMemory :
    IsValid wideMemory ∧
      (calls? 10 wideMemory).map (fun (calls, ahead) =>
          (calls.map fun call => call.cuts.map Cut.offset, ahead)) =
        some ([[1], [2], [2, 7, 1, 7], [5, 4], [2], [1], [2], [1, 3], [2, 4], []], []) ∧
      Exists fun calls => Exists fun ahead => calls? 10 wideMemory = some (calls, ahead) ∧
        (forall call, call ∈ calls -> call.IsSound) ∧ IsValid ahead ∧
        Exists fun source : String => wideMemory = Text.bytes source.toList ∧
          forall limit : Option Nat,
            calls.map Call.found =
                (Scan.answers 10 (Scan.start source limit)).1.map (Option.map view) ∧
              ahead = Text.bytes (Scan.answers 10 (Scan.start source limit)).2.rest := by
  have valid : IsValid wideMemory := isValid_bytes _
  exact ⟨valid, by decide +kernel, calls_uncut valid 10⟩

end Bytewise
end TypeSchema
