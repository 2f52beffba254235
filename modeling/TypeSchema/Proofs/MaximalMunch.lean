import TypeSchema.Proofs.Lexeme
import TypeSchema.Scan

namespace TypeSchema
namespace Scan

open Layout (Passes)
open Lexeme (BeginsToken Fails Longest Spelling)

/-!
# Maximal munch

One step of a scan passes over the longest run of layout and then takes the
longest token.  Where no token begins, it takes away the faulty text instead,
and the three faults divide these places among them.
-/

/-- What stands at the front of a text that has no layout in front: nothing, a
token, or a fault.  The item starts at the given offset, and the rest stands
behind it. -/
inductive Finds : (text : List Char) -> (start : Nat) -> Option Item -> (rest : List Char) -> Prop where
  | nothing {start : Nat} : Finds [] start none []
  | token {kind : Token.Kind} {taken rest : List Char} {start : Nat} :
      Longest (taken ++ rest) kind taken ->
      (forall other, Spelling other taken -> other = kind) ->
      Finds (taken ++ rest) start (some (.ok { kind, text := String.ofList taken, start })) rest
  | fault {fault : Fault} {taken rest : List Char} {start : Nat} :
      ¬ BeginsToken (taken ++ rest) -> Fails (taken ++ rest) fault taken ->
      Finds (taken ++ rest) start
        (some (.error { fault, token := { kind := fault.kind, text := String.ofList taken, start } }))
        rest

theorem finds_read {c : Char} {chars : List Char} (solid : Layout.piece? (c :: chars) = none)
    (start : Nat) :
    Finds (c :: chars) start (some (itemOf (Lexeme.read c chars) start))
      (Lexeme.read c chars).rest := by
  have whole := Lexeme.read_whole c chars
  by_cases begins : BeginsToken (c :: chars)
  · rcases Lexeme.read_longest begins with ⟨kind, success, longest⟩
    rw [← whole] at longest ⊢
    have found : Finds _ start _ (Lexeme.read c chars).rest :=
      .token longest fun other spelled => spelled.unique longest.spelled
    simpa only [itemOf, tokenOf, Lexeme.kind, success] using found
  · rcases (Lexeme.read_outcome solid).resolve_left begins with ⟨fault, failure, fails⟩
    rw [← whole] at begins fails ⊢
    have found : Finds _ start _ (Lexeme.read c chars).rest := .fault begins fails
    simpa only [itemOf, tokenOf, Lexeme.kind, failure] using found

/-- A step ends the scan if only layout is ahead. -/
theorem next_of_nil {scan : Scan} (ahead : (Layout.split scan.rest).2 = []) :
    scan.next = (none, scan.skipLayout) := by
  have rest : scan.skipLayout.rest = [] := ahead
  simp only [next, rest]

/-- Otherwise it reads the lexeme behind the layout. -/
theorem next_of_cons {scan : Scan} {c : Char} {chars : List Char}
    (ahead : (Layout.split scan.rest).2 = c :: chars) :
    scan.next = (some (itemOf (Lexeme.read c chars) scan.skipLayout.offset),
      scan.skipLayout.pass (Lexeme.read c chars)) := by
  have rest : scan.skipLayout.rest = c :: chars := ahead
  simp only [next, rest]

/-- A step that finds nothing has passed over layout up to the end of the text. -/
theorem ended_of_next {scan last : Scan} (found : scan.next = (none, last)) :
    (Layout.split scan.rest).2 = [] ∧ scan.skipLayout = last := by
  cases ahead : (Layout.split scan.rest).2 with
  | nil =>
      rw [next_of_nil ahead] at found
      exact ⟨rfl, (Prod.mk.inj found).2⟩
  | cons c chars =>
      rw [next_of_cons ahead] at found
      cases found

/-- A step that finds an item has read it behind the layout ahead. -/
theorem read_of_next {scan after : Scan} {item : Item} (found : scan.next = (some item, after)) :
    Exists fun c => Exists fun chars => (Layout.split scan.rest).2 = c :: chars ∧
      Layout.piece? (c :: chars) = none ∧
      itemOf (Lexeme.read c chars) scan.skipLayout.offset = item ∧
      scan.skipLayout.pass (Lexeme.read c chars) = after := by
  have solid := Layout.piece?_split_rest scan.rest
  cases ahead : (Layout.split scan.rest).2 with
  | nil =>
      rw [next_of_nil ahead] at found
      cases found
  | cons c chars =>
      rw [ahead] at solid
      rw [next_of_cons ahead] at found
      rcases Prod.mk.inj found with ⟨isItem, isAfter⟩
      exact ⟨c, chars, rfl, solid, Option.some.inj isItem, isAfter⟩

/-- One step passes over the longest run of layout and takes the longest token
behind it, or what is faulty where no token begins. -/
theorem next_exact (scan : Scan) :
    Exists fun gap => Exists fun text =>
      Passes scan.rest gap text ∧
        (forall otherGap otherText, Passes scan.rest otherGap otherText -> text <:+ otherText) ∧
        Finds text (scan.offset + Text.size (Layout.chars gap)) scan.next.1 scan.next.2.rest := by
  refine ⟨(Layout.split scan.rest).1, (Layout.split scan.rest).2, Layout.passes_split scan.rest,
    fun _ _ passes => Layout.split_suffix_of_passes passes, ?_⟩
  have solid := Layout.piece?_split_rest scan.rest
  cases ahead : (Layout.split scan.rest).2 with
  | nil =>
      have rest : scan.next.2.rest = [] := by
        rw [next_of_nil ahead]
        exact ahead
      rw [rest, next_of_nil ahead]
      exact .nothing
  | cons c chars =>
      rw [ahead] at solid
      rw [next_of_cons ahead]
      exact finds_read solid _

end Scan
end TypeSchema
