import TypeSchema.Proofs.Placement

namespace TypeSchema
namespace Spacing

open Layout (Passes Piece closingMark)
open Lexeme (Ends)
open Scan (Arranges)

/-!
# Layout does not matter

Take the tokens of a text and write them down again with other layout between
them.  Any blanks and comments will do, as long as there is something between
two tokens and every comment is closed before the next token begins.  The new
text has the same tokens and exactly the comments that were put there, and it
describes the same schema or has the same fault.

The layout is made here from parts that carry the proof that they end where
they seem to.  A line comment contains the line feed that ends it; only behind
the last token may the end of the text stand in for it.
-/

/-- A blank, or a comment that ends where it seems to, whatever follows. -/
inductive Filler where
  | blank (c : Char) (isBlank : Layout.isBlank c = true)
  | lineComment (body : List Char) (inside : '\n' ∉ body)
  | blockComment (body : List Char) (inside : ¬ closingMark <:+: body)

namespace Filler

def chars : Filler -> List Char
  | blank c _ => [c]
  | lineComment body _ => '/' :: '/' :: (body ++ ['\n'])
  | blockComment body _ => '/' :: '*' :: (body ++ ['*', '/'])

def isLineComment : Filler -> Bool
  | lineComment _ _ => true
  | _ => false

def isBlockComment : Filler -> Bool
  | blockComment _ _ => true
  | _ => false

/-- What a scan makes of the filler: to it, a line feed is a blank. -/
def pieces : Filler -> List Piece
  | blank c _ => [.blank c]
  | lineComment body _ => [.lineComment body, .blank '\n']
  | blockComment body _ => [.blockComment body]

end Filler

/-- The layout in front of a token. -/
abbrev Gap := List Filler

namespace Gap

def chars (gap : Gap) : List Char :=
  gap.flatMap Filler.chars

def pieces (gap : Gap) : List Piece :=
  gap.flatMap Filler.pieces

end Gap

/-- The layout behind the last token.  It may end in a line comment that the
end of the text ends. -/
structure Ending where
  gap : Gap := []
  comment : Option { body : List Char // '\n' ∉ body } := none

namespace Ending

def chars (ending : Ending) : List Char :=
  ending.gap.chars ++
    match ending.comment with
    | some comment => '/' :: '/' :: comment.val
    | none => []

def pieces (ending : Ending) : List Piece :=
  ending.gap.pieces ++
    match ending.comment with
    | some comment => [.lineComment comment.val]
    | none => []

end Ending

/-- Tokens, each with the layout in front of it, and the layout at the end. -/
structure Spaced where
  tokens : List (Gap × Token)
  ending : Ending := {}

namespace Spaced

/-- The text that is made of the tokens and the layout. -/
def text (spaced : Spaced) : String :=
  String.ofList
    ((spaced.tokens.flatMap fun (gap, token) => gap.chars ++ token.text.toList) ++ spaced.ending.chars)

/-- Between any two tokens there is some layout. -/
def Apart (spaced : Spaced) : Prop :=
  forall gap token, (gap, token) ∈ spaced.tokens.tail -> gap ≠ []

def fillers (spaced : Spaced) : List Filler :=
  spaced.tokens.flatMap Prod.fst ++ spaced.ending.gap

def lineComments (spaced : Spaced) : Nat :=
  spaced.fillers.countP Filler.isLineComment + spaced.ending.comment.toList.length

def blockComments (spaced : Spaced) : Nat :=
  spaced.fillers.countP Filler.isBlockComment

end Spaced

/-! ## Layout is passed over -/

theorem Filler.passes (filler : Filler) (rest : List Char) :
    Passes (filler.chars ++ rest) filler.pieces rest := by
  cases filler with
  | blank c isBlank => exact .cons (.blank isBlank) (.nil rest)
  | lineComment body inside =>
      have comment : Layout.IsPiece ('/' :: '/' :: (body ++ '\n' :: rest)) (.lineComment body)
          ('\n' :: rest) := .lineComment inside (Or.inr rfl)
      have feed : Passes ('\n' :: rest) [.blank '\n'] rest := .cons (.blank rfl) (.nil rest)
      simpa [chars, pieces] using Passes.cons comment feed
  | blockComment body inside =>
      have comment : Layout.IsPiece ('/' :: '*' :: (body ++ '*' :: '/' :: rest)) (.blockComment body)
          rest := .blockComment inside
      simpa [chars, pieces] using Passes.cons comment (.nil rest)

theorem Gap.passes (gap : Gap) (rest : List Char) : Passes (gap.chars ++ rest) gap.pieces rest := by
  induction gap with
  | nil => exact .nil rest
  | cons filler gap ih =>
      have first := filler.passes (Gap.chars gap ++ rest)
      rw [← List.append_assoc] at first
      exact first.append ih

theorem Ending.passes (ending : Ending) : Passes ending.chars ending.pieces [] := by
  rw [chars, pieces]
  refine (ending.gap.passes _).append ?_
  cases ending.comment with
  | none => exact .nil []
  | some comment =>
      have isComment : Layout.IsPiece ('/' :: '/' :: (comment.val ++ [])) (.lineComment comment.val) [] :=
        .lineComment comment.property (Or.inl rfl)
      rw [List.append_nil] at isComment
      exact .cons isComment (.nil [])

/-! ## Layout continues no token -/

/-- The text begins as layout does, if it does not end here. -/
def BeginsLayout (text : List Char) : Prop :=
  forall c, c ∈ text.head? -> Layout.isBlank c = true ∨ c = '/'

theorem BeginsLayout.ends {text : List Char} (begins : BeginsLayout text) (kind : Token.Kind) :
    Ends kind text := by
  intro c ahead
  rcases begins c ahead with blank | rfl
  · simp only [Layout.isBlank, decide_eq_true_eq] at blank
    rcases blank with rfl | rfl | rfl | rfl <;> cases kind <;> rfl
  · cases kind <;> rfl

theorem Filler.beginsLayout (filler : Filler) (rest : List Char) :
    BeginsLayout (filler.chars ++ rest) := by
  intro c ahead
  cases filler with
  | blank other isBlank =>
      rw [← Option.mem_some_iff.mp ahead]
      exact Or.inl isBlank
  | lineComment body inside => exact Or.inr (Option.mem_some_iff.mp ahead).symm
  | blockComment body inside => exact Or.inr (Option.mem_some_iff.mp ahead).symm

theorem Gap.beginsLayout {gap : Gap} (present : gap ≠ []) (rest : List Char) :
    BeginsLayout (gap.chars ++ rest) := by
  cases gap with
  | nil => exact absurd rfl present
  | cons filler gap =>
      rw [chars, List.flatMap_cons, List.append_assoc]
      exact filler.beginsLayout _

theorem Ending.beginsLayout (ending : Ending) : BeginsLayout ending.chars := by
  rcases ending with ⟨gap, comment⟩
  cases gap with
  | cons filler gap => exact Gap.beginsLayout (List.cons_ne_nil filler gap) _
  | nil =>
      intro c ahead
      cases comment with
      | none => cases ahead
      | some comment => exact Or.inr (Option.mem_some_iff.mp ahead).symm

/-! ## Spaced tokens are an arrangement -/

namespace Spaced

def pieces (spaced : Spaced) : List Piece :=
  (spaced.tokens.flatMap fun (gap, _) => gap.pieces) ++ spaced.ending.pieces

theorem arranges (spaced : Spaced) (apart : spaced.Apart)
    (spelled : forall token, token ∈ spaced.tokens.map Prod.snd -> token.Spelled) :
    Arranges spaced.text.toList spaced.pieces (spaced.tokens.map Prod.snd) := by
  rcases spaced with ⟨tokens, ending⟩
  rw [text, String.toList_ofList, pieces]
  simp only [Apart] at apart spelled ⊢
  induction tokens with
  | nil => exact .nil ending.passes
  | cons pair later ih =>
      rcases pair with ⟨gap, token⟩
      simp only [List.flatMap_cons, List.append_assoc, List.map_cons]
      have arranged := ih
        (fun gap token member => apart gap token (List.mem_of_mem_tail member))
        (fun token member => spelled token (List.mem_cons_of_mem _ member))
      refine .cons (gap.passes _) (spelled token (List.mem_cons_self ..)) ?_ arranged
      cases later with
      | nil => exact ending.beginsLayout.ends token.kind
      | cons next later =>
          rcases next with ⟨nextGap, nextToken⟩
          have present : nextGap ≠ [] := apart nextGap nextToken (List.mem_cons_self ..)
          simp only [List.flatMap_cons, List.append_assoc]
          exact (Gap.beginsLayout present _).ends token.kind

theorem countP_pieces {counted : Piece -> Bool} {filled : Filler -> Bool}
    (one : forall filler : Filler, filler.pieces.countP counted = if filled filler then 1 else 0)
    (fillers : List Filler) :
    (fillers.flatMap Filler.pieces).countP counted = fillers.countP filled := by
  induction fillers with
  | nil => rfl
  | cons filler fillers ih =>
      rw [List.flatMap_cons, List.countP_append, ih, one, List.countP_cons, Nat.add_comm]

theorem pieces_eq (spaced : Spaced) :
    spaced.pieces = spaced.fillers.flatMap Filler.pieces ++
      spaced.ending.comment.toList.map fun comment => .lineComment comment.val := by
  rw [pieces, fillers, Ending.pieces, List.flatMap_append, List.flatMap_assoc, List.append_assoc]
  cases spaced.ending.comment <;> rfl

theorem countP_lineComment (spaced : Spaced) :
    spaced.pieces.countP Piece.isLineComment = spaced.lineComments := by
  have one : forall filler : Filler, filler.pieces.countP Piece.isLineComment =
      if filler.isLineComment then 1 else 0 := by
    intro filler
    cases filler <;> rfl
  rw [pieces_eq, List.countP_append, countP_pieces one, lineComments]
  cases spaced.ending.comment <;> rfl

theorem countP_blockComment (spaced : Spaced) :
    spaced.pieces.countP Piece.isBlockComment = spaced.blockComments := by
  have one : forall filler : Filler, filler.pieces.countP Piece.isBlockComment =
      if filler.isBlockComment then 1 else 0 := by
    intro filler
    cases filler <;> rfl
  rw [pieces_eq, List.countP_append, countP_pieces one, blockComments]
  cases spaced.ending.comment <;> rfl

end Spaced

/-- The tokens of a text, written down with other layout between them, are the
tokens of the new text.  Its comments are those of the layout, and reading it
as a schema comes to the same. -/
theorem parse_spaced {source : String} {tokens : List Token}
    (scanned : Scan.tokens source = .ok tokens) {spaced : Spaced}
    (same : spaced.tokens.map Prod.snd = tokens) (apart : spaced.Apart) :
    (Exists fun found => Scan.tokens spaced.text = .ok found ∧
      found.map Token.unplaced = tokens.map Token.unplaced) ∧
      (forall limit, (Scan.start spaced.text limit).run.last.lineComments = spaced.lineComments ∧
        (Scan.start spaced.text limit).run.last.blockComments = spaced.blockComments) ∧
      Schema.ComesTo (Schema.parse spaced.text) (Schema.parse source) := by
  have arranged := spaced.arranges apart (same ▸ Scan.spelled_of_tokens scanned)
  rw [same] at arranged
  rcases Scan.tokens_of_arranges arranged with ⟨found, scannedAgain, alike⟩
  refine ⟨⟨found, scannedAgain, alike⟩, ?_, ?_⟩
  · intro limit
    have ahead : (Scan.start spaced.text limit).rest = spaced.text.toList := rfl
    have run := Scan.run_of_arranges arranged ahead
    rw [run.2.2.1, run.2.2.2, spaced.countP_lineComment, spaced.countP_blockComment]
    exact ⟨Nat.zero_add _, Nat.zero_add _⟩
  · simp only [Schema.parse, scanned, scannedAgain]
    exact Schema.extend_comesTo (Schema.Alike.refl Schema.empty) Schema.namedByWords_empty
      Schema.namedByWords_empty alike

/-- A text whose tokens stand as close together as they can. -/
def denseText : String := "type T\x7bI i=+1. S s=\"/*\"\x7d"

def denseTokens : List Token :=
  [ { kind := .word, text := "type" }, { kind := .word, text := "T", start := 5 },
    { kind := .openBrace, text := "\x7b", start := 6 },
    { kind := .word, text := "I", start := 7 }, { kind := .word, text := "i", start := 9 },
    { kind := .equals, text := "=", start := 10 },
    { kind := .float, text := "+1.", start := 11 },
    { kind := .word, text := "S", start := 15 }, { kind := .word, text := "s", start := 17 },
    { kind := .equals, text := "=", start := 18 },
    { kind := .string, text := "\"/*\"", start := 19 },
    { kind := .closeBrace, text := "\x7d", start := 23 } ]

def space : Filler := .blank ' ' rfl

/-- Layout in which comments hold the marks of strings and of other comments. -/
def sparse : Spaced where
  tokens := List.zip
    [ [.lineComment ['*', '/', '"'] (by decide)], [.blank '\t' rfl], [.blockComment [] (by decide)],
      [.blockComment ['*'] (by decide), space], [.blank '\r' rfl, .blank '\n' rfl],
      [.blockComment ['/', '*', '"', '\n'] (by decide)], [.lineComment [] (by decide)],
      [space], [space], [space], [space], [space] ]
    denseTokens
  ending := { gap := [space], comment := some ⟨['*', '/'], by decide⟩ }

theorem parse_spaced_sparse :
    sparse.text = "//*/\"\ntype\tT/**/\x7b/***/ I\r\ni/*/*\"\n*/=//\n+1. S s = \"/*\" \x7d //*/" ∧
      (Exists fun found => Scan.tokens sparse.text = .ok found ∧
        found.map Token.unplaced = denseTokens.map Token.unplaced) ∧
      (forall limit, (Scan.start sparse.text limit).run.last.lineComments = 3 ∧
        (Scan.start sparse.text limit).run.last.blockComments = 3) ∧
      Schema.ComesTo (Schema.parse sparse.text) (Schema.parse denseText) := by
  have scanned : Scan.tokens denseText = .ok denseTokens := by
    have noError : (Scan.start denseText).run.error = none := by decide +kernel
    have found : (Scan.start denseText).run.tokens = denseTokens := by decide +kernel
    rw [Scan.tokens, Scan.Run.result, noError, found]
  have apart : forall pair, pair ∈ sparse.tokens.tail -> pair.1 ≠ [] := by decide +kernel
  refine ⟨by decide +kernel, ?_⟩
  exact parse_spaced scanned rfl fun gap token member => apart (gap, token) member

end Spacing
end TypeSchema
