import TypeSchema.Proofs.MaximalMunch

namespace TypeSchema
namespace Scan

open Layout (Passes Piece)

/-!
# Lossless scans

However many steps are made from the start of a text, and whatever they find,
the text is cut into segments without a gap and without an overlap: each item
stands behind the layout that was passed over on the way to it, and the rest
stands behind the last item.  The invariant of a run ties together the place in
the text, the offsets that are reported and the two counters of comments.
-/

/-- The answers of a number of steps, and the scan behind them. -/
def answers : (count : Nat) -> Scan -> List (Option Item) × Scan
  | 0, scan => ([], scan)
  | count + 1, scan => (scan.next.1 :: (answers count scan.next.2).1, (answers count scan.next.2).2)

/-- The token of an item, be it sound or faulty. -/
def Item.token : Item -> Token
  | .ok token => token
  | .error error => error.token

/-- An item and the layout in front of it. -/
structure Segment where
  gap : List Piece
  item : Item

def Segment.chars (segment : Segment) : List Char :=
  Layout.chars segment.gap ++ (Item.token segment.item).text.toList

/-! ## One step -/

theorem itemOf_token (lexeme : Lexeme) (offset : Nat) :
    Item.token (itemOf lexeme offset) = tokenOf lexeme offset := by
  unfold itemOf
  split <;> rfl

/-- A step takes a segment off the text ahead. -/
structure TakesSegment (scan : Scan) (segment : Segment) (after : Scan) : Prop where
  passes : Passes scan.rest segment.gap ((Item.token segment.item).text.toList ++ after.rest)
  nonempty : (Item.token segment.item).text ≠ ""
  start : (Item.token segment.item).start = scan.offset + Text.size (Layout.chars segment.gap)
  offset : after.offset = scan.offset + Text.size segment.chars
  lineComments : after.lineComments =
    scan.lineComments + segment.gap.countP Piece.isLineComment
  blockComments : after.blockComments =
    scan.blockComments + segment.gap.countP Piece.isBlockComment

theorem takesSegment_of_next {scan after : Scan} {item : Item} (found : scan.next = (some item, after)) :
    TakesSegment scan { gap := (Layout.split scan.rest).1, item } after := by
  rcases read_of_next found with ⟨c, chars, ahead, _, rfl, rfl⟩
  have whole := Lexeme.read_whole c chars
  have passes := Layout.passes_split scan.rest
  rw [ahead, ← whole] at passes
  refine ⟨?_, ?_, ?_, ?_, rfl, rfl⟩
  · simpa only [itemOf_token, tokenOf, String.toList_ofList, pass] using passes
  · simpa only [itemOf_token, tokenOf, ne_eq, String.ofList_eq_empty_iff] using
      Lexeme.read_text_ne_nil c chars
  · rw [itemOf_token]
    rfl
  · simp only [Segment.chars, itemOf_token, tokenOf, String.toList_ofList, Text.size_append,
      ← Nat.add_assoc]
    rfl

/-- A step that finds nothing has passed over all that was ahead, and no
further step changes anything. -/
theorem next_none {scan last : Scan} (found : scan.next = (none, last)) :
    Passes scan.rest (Layout.split scan.rest).1 [] ∧ last.rest = [] ∧
      last.lineComments =
        scan.lineComments + (Layout.split scan.rest).1.countP Piece.isLineComment ∧
      last.blockComments =
        scan.blockComments + (Layout.split scan.rest).1.countP Piece.isBlockComment := by
  rcases ended_of_next found with ⟨ahead, rfl⟩
  have passes := Layout.passes_split scan.rest
  rw [ahead] at passes
  exact ⟨passes, ahead, rfl, rfl⟩

theorem next_of_rest_nil {scan : Scan} (done : scan.rest = []) : scan.next = (none, scan) := by
  have split : Layout.split scan.rest = ([], []) := by
    rw [done]
    exact Layout.split_none rfl
  rw [next_of_nil (by rw [split])]
  cases scan
  simp only at done split
  subst done
  simp [skipLayout, split, Layout.chars]

/-! ## Runs -/

/-- A number of steps take these segments off the text ahead. -/
inductive Takes : Scan -> List Segment -> Scan -> Prop where
  | nil (scan : Scan) : Takes scan [] scan
  | cons {scan middle last : Scan} {segment : Segment} {segments : List Segment} :
      TakesSegment scan segment middle -> Takes middle segments last ->
      Takes scan (segment :: segments) last

theorem Takes.whole {scan last : Scan} {segments : List Segment} (takes : Takes scan segments last) :
    scan.rest = segments.flatMap Segment.chars ++ last.rest := by
  induction takes with
  | nil scan => rfl
  | cons first later ih =>
      rw [first.passes.whole, ih, List.flatMap_cons, Segment.chars]
      simp only [List.append_assoc]

theorem Takes.offset {scan last : Scan} {segments : List Segment} (takes : Takes scan segments last) :
    last.offset = scan.offset + Text.size (segments.flatMap Segment.chars) := by
  induction takes with
  | nil scan => rfl
  | cons first later ih =>
      rw [ih, first.offset, List.flatMap_cons, Text.size_append, Nat.add_assoc]

/-- The comments that are counted are those in the gaps. -/
theorem Takes.comments {scan last : Scan} {segments : List Segment}
    (takes : Takes scan segments last) :
    last.lineComments =
        scan.lineComments + (segments.flatMap Segment.gap).countP Piece.isLineComment ∧
      last.blockComments =
        scan.blockComments + (segments.flatMap Segment.gap).countP Piece.isBlockComment := by
  induction takes with
  | nil scan => exact ⟨rfl, rfl⟩
  | cons first later ih =>
      rw [ih.1, ih.2, first.lineComments, first.blockComments, List.flatMap_cons,
        List.countP_append, List.countP_append]
      exact ⟨Nat.add_assoc .., Nat.add_assoc ..⟩

theorem Takes.split {scan last : Scan} {before after : List Segment} {segment : Segment}
    (takes : Takes scan (before ++ segment :: after) last) :
    Exists fun first => Exists fun second =>
      Takes scan before first ∧ TakesSegment first segment second ∧ Takes second after last := by
  induction before generalizing scan with
  | nil =>
      cases takes with
      | cons first later => exact ⟨scan, _, .nil scan, first, later⟩
  | cons earlier before ih =>
      cases takes with
      | cons first later =>
          rcases ih later with ⟨middle, second, toMiddle, taken, rest⟩
          exact ⟨middle, second, .cons first toMiddle, taken, rest⟩

theorem answers_of_rest_nil {scan : Scan} (done : scan.rest = []) (count : Nat) :
    answers count scan = (List.replicate count none, scan) := by
  induction count with
  | zero => rfl
  | succ count ih => rw [answers, next_of_rest_nil done, ih, List.replicate_succ]

/-- The answers of a run: the items of the segments it takes, and nothing for
every step made at the end of the text. -/
theorem answers_takes (count : Nat) (scan : Scan) :
    Exists fun segments => Exists fun middle =>
      Takes scan segments middle ∧
        ((segments.length = count ∧
            answers count scan = (segments.map fun segment => some segment.item, middle)) ∨
          (segments.length < count ∧ middle.next.1 = none ∧
            answers count scan =
              ((segments.map fun segment => some segment.item) ++
                List.replicate (count - segments.length) none, middle.next.2))) := by
  induction count generalizing scan with
  | zero => exact ⟨[], scan, .nil scan, Or.inl ⟨rfl, rfl⟩⟩
  | succ count ih =>
      cases found : scan.next with
      | mk item after =>
          cases item with
          | none =>
              refine ⟨[], scan, .nil scan, Or.inr ⟨Nat.succ_pos count, by rw [found], ?_⟩⟩
              have done := (next_none found).2.1
              rw [answers, found, answers_of_rest_nil done]
              rfl
          | some item =>
              have first := takesSegment_of_next found
              rcases ih after with ⟨segments, middle, takes, ⟨all, same⟩ | ⟨fewer, ended, same⟩⟩
              · refine ⟨_ :: segments, middle, .cons first takes, Or.inl ⟨by simp [all], ?_⟩⟩
                rw [answers, found, same]
                rfl
              · refine ⟨_ :: segments, middle, .cons first takes,
                  Or.inr ⟨by simpa using fewer, ended, ?_⟩⟩
                rw [answers, found, same, List.length_cons, Nat.add_sub_add_right]
                rfl

theorem Takes.length_le {scan last : Scan} {segments : List Segment}
    (takes : Takes scan segments last) : segments.length ≤ scan.rest.length := by
  induction takes with
  | nil scan => exact Nat.zero_le _
  | @cons scan middle last segment segments first later ih =>
      have whole := congrArg List.length first.passes.whole
      have taken : (Item.token segment.item).text.toList ≠ [] := by
        rw [ne_eq, String.toList_eq_nil_iff]
        exact first.nonempty
      have positive := List.length_pos_iff.mpr taken
      rw [List.length_append, List.length_append] at whole
      rw [List.length_cons]
      omega

/-- A full account of `count` steps from the start of a text: the segments they
took, the layout they passed over behind the last of these, and the rest. -/
structure Account (text : List Char) (count : Nat) (answers : List (Option Item)) (last : Scan)
    (segments : List Segment) (trailing : List Piece) : Prop where
  /-- The answers are the items in order, and nothing once the text has ended. -/
  answered : segments.length ≤ count ∧
    answers = (segments.map fun segment => some segment.item) ++
      List.replicate (count - segments.length) none
  whole : text = segments.flatMap Segment.chars ++ (Layout.chars trailing ++ last.rest)
  /-- Each token is at its offset, and behind layout as the text continues. -/
  placed : forall before segment after, segments = before ++ segment :: after ->
    (Item.token segment.item).text ≠ "" ∧
      (Item.token segment.item).start =
        Text.size (before.flatMap Segment.chars) + Text.size (Layout.chars segment.gap) ∧
      Passes ((segment :: after).flatMap Segment.chars ++ (Layout.chars trailing ++ last.rest))
        segment.gap
        ((Item.token segment.item).text.toList ++
          (after.flatMap Segment.chars ++ (Layout.chars trailing ++ last.rest)))
  trailed : Passes (Layout.chars trailing ++ last.rest) trailing last.rest
  /-- Only a step that finds nothing leaves the layout it has passed over. -/
  unfinished : none ∉ answers -> trailing = []
  finished : none ∈ answers -> last.rest = [] ∧ last.next = (none, last)
  lineComments :
    last.lineComments = (segments.flatMap Segment.gap ++ trailing).countP Piece.isLineComment
  blockComments :
    last.blockComments = (segments.flatMap Segment.gap ++ trailing).countP Piece.isBlockComment

theorem Takes.placed {source : String} {limit : Option Nat} {last : Scan}
    {segments before after : List Segment} {segment : Segment}
    (takes : Takes (start source limit) segments last) (same : segments = before ++ segment :: after) :
    (Item.token segment.item).text ≠ "" ∧
      (Item.token segment.item).start =
        Text.size (before.flatMap Segment.chars) + Text.size (Layout.chars segment.gap) ∧
      Passes ((segment :: after).flatMap Segment.chars ++ last.rest) segment.gap
        ((Item.token segment.item).text.toList ++ (after.flatMap Segment.chars ++ last.rest)) := by
  subst same
  rcases takes.split with ⟨first, second, toFirst, taken, rest⟩
  refine ⟨taken.nonempty, ?_, ?_⟩
  · rw [taken.start, toFirst.offset]
    exact congrArg (· + _) (Nat.zero_add _)
  · have passes := taken.passes
    rwa [rest.whole, (Takes.cons taken rest).whole] at passes

/-- The segments that a run took account for it. -/
theorem account_of_takes {source : String} {limit : Option Nat} {segments : List Segment}
    {middle : Scan} (takes : Takes (start source limit) segments middle) :
    Account source.toList segments.length (segments.map fun segment => some segment.item) middle
      segments [] where
  answered := ⟨Nat.le_refl _, by simp⟩
  whole := takes.whole
  placed _ _ _ same := takes.placed same
  trailed := .nil _
  unfinished _ := rfl
  finished ended := by simp at ended
  lineComments := by
    rw [takes.comments.1, List.append_nil]
    exact Nat.zero_add _
  blockComments := by
    rw [takes.comments.2, List.append_nil]
    exact Nat.zero_add _

/-- So they do, with the layout behind them, once the text has ended. -/
theorem account_of_ended {source : String} {limit : Option Nat} {segments : List Segment}
    {middle : Scan} {count : Nat} (takes : Takes (start source limit) segments middle)
    (fewer : segments.length < count) (ended : middle.next.1 = none) :
    Account source.toList count
      ((segments.map fun segment => some segment.item) ++
        List.replicate (count - segments.length) none)
      middle.next.2 segments (Layout.split middle.rest).1 := by
  have found : middle.next = (none, middle.next.2) := Prod.ext ended rfl
  rcases next_none found with ⟨passes, done, lines, blocks⟩
  have rest : Layout.chars (Layout.split middle.rest).1 ++ middle.next.2.rest = middle.rest := by
    rw [done, ← passes.whole]
  exact
    { answered := ⟨Nat.le_of_lt fewer, rfl⟩
      whole := by rw [rest]; exact takes.whole
      placed := by
        intro before segment after same
        rw [rest]
        exact takes.placed same
      trailed := by
        rw [rest, done]
        exact passes
      unfinished := by
        intro absent
        have steps : count - segments.length ≠ 0 := Nat.sub_ne_zero_of_lt fewer
        simp [steps] at absent
      finished := fun _ => ⟨done, next_of_rest_nil done⟩
      lineComments := by
        rw [lines, takes.comments.1, List.countP_append]
        exact congrArg (· + _) (Nat.zero_add _)
      blockComments := by
        rw [blocks, takes.comments.2, List.countP_append]
        exact congrArg (· + _) (Nat.zero_add _) }

/-- Any number of steps from the start of any text, under any limit, have a
full account.  A step that returns an item leaves less text ahead, so the end
of the text is reached after as many steps as it has characters. -/
theorem answers_lossless (source : String) (limit : Option Nat) (count : Nat) :
    (Exists fun segments => Exists fun trailing =>
      Account source.toList count (answers count (start source limit)).1
        (answers count (start source limit)).2 segments trailing) ∧
      (forall item after, (answers count (start source limit)).2.next = (some item, after) ->
        after.rest.length < (answers count (start source limit)).2.rest.length) ∧
      (source.length < count -> none ∈ (answers count (start source limit)).1) := by
  rcases answers_takes count (start source limit) with
    ⟨segments, middle, takes, ⟨all, same⟩ | ⟨fewer, ended, same⟩⟩
  · subst all
    rw [same]
    refine ⟨⟨segments, [], account_of_takes takes⟩, fun _ _ found => length_lt_of_next found, ?_⟩
    intro long
    have bounded : segments.length ≤ source.length := takes.length_le
    omega
  · rw [same]
    refine ⟨⟨segments, _, account_of_ended takes fewer ended⟩,
      fun _ _ found => length_lt_of_next found, ?_⟩
    intro _
    have steps : count - segments.length ≠ 0 := Nat.sub_ne_zero_of_lt fewer
    simp [steps]

end Scan
end TypeSchema
