import Mathlib.Algebra.BigOperators.Group.List.Basic
import Mathlib.Algebra.GroupWithZero.Nat
import Mathlib.Data.List.TakeWhile
import TypeSchema.Proofs.Displacement
import TypeSchema.Proofs.Occurrence

namespace TypeSchema

/-!
# Lines and columns

The line of a place is found by counting the line feeds before it, and its
column by looking for the last of them.  Both numbers describe one and the same
place in the text as it is divided into lines: so many bytes into that line,
behind all lines before it and the line feeds that end them.  A location can
therefore be turned back into an offset, and to compare locations, lines first,
is to compare offsets.
-/

/-- Locations are ordered by their lines, and in one line by their columns. -/
def Location.Before (left right : Location) : Prop :=
  left.line < right.line ∨ (left.line = right.line ∧ left.column < right.column)

/-- The number of bytes in front of a line, which is counted from zero.  Every
line before it is followed by a line feed. -/
def lineStart (lines : List (List UInt8)) (line : Nat) : Nat :=
  ((lines.take line).map fun line => line.length + 1).sum

/-- The location is a place in one of the lines, or the place where the line
ends, and its offset is the offset of this place. -/
structure Location.IsPlaceIn (location : Location) (lines : List (List UInt8)) : Prop where
  line_pos : 1 ≤ location.line
  line_le : location.line ≤ lines.length
  column_pos : 1 ≤ location.column
  column_le : forall line, lines[location.line - 1]? = some line -> location.column ≤ line.length + 1
  offset : location.offset = lineStart lines (location.line - 1) + location.column - 1

/-! ## Where lines start -/

theorem lineStart_zero (lines : List (List UInt8)) : lineStart lines 0 = 0 :=
  rfl

theorem lineStart_cons (line : List UInt8) (lines : List (List UInt8)) (count : Nat) :
    lineStart (line :: lines) (count + 1) = line.length + 1 + lineStart lines count := by
  rw [lineStart, List.take_succ_cons, List.map_cons, List.sum_cons, lineStart]

/-- Each line starts behind the line before it and a line feed. -/
theorem lineStart_succ {lines : List (List UInt8)} {line : List UInt8} {count : Nat}
    (found : lines[count]? = some line) :
    lineStart lines (count + 1) = lineStart lines count + line.length + 1 := by
  rw [lineStart, List.take_add_one, found, List.map_append, List.sum_append, lineStart]
  simp [Nat.add_assoc]

theorem lineStart_le (lines : List (List UInt8)) {first second : Nat} (ordered : first ≤ second) :
    lineStart lines first ≤ lineStart lines second := by
  induction second with
  | zero => exact Nat.le_of_eq (congrArg (lineStart lines) (Nat.le_zero.mp ordered))
  | succ second ih =>
      rcases Nat.le_succ_iff.mp ordered with before | rfl
      · have step : lineStart lines second ≤ lineStart lines (second + 1) := by
          rw [lineStart, lineStart, List.take_add_one, List.map_append, List.sum_append]
          exact Nat.le_add_right ..
        exact Nat.le_trans (ih before) step
      · exact Nat.le_refl _

/-! ## Places in lines -/

namespace Location

variable {lines : List (List UInt8)} {left right : Location}

theorem IsPlaceIn.exists_line (placed : left.IsPlaceIn lines) :
    Exists fun line => lines[left.line - 1]? = some line ∧
      lineStart lines left.line = lineStart lines (left.line - 1) + line.length + 1 := by
  have inside : left.line - 1 < lines.length := Nat.lt_of_lt_of_le
    (Nat.sub_lt placed.line_pos Nat.one_pos) placed.line_le
  have found := List.getElem?_eq_getElem inside
  have start := lineStart_succ found
  rw [Nat.sub_add_cancel placed.line_pos] at start
  exact ⟨_, found, start⟩

/-- A later location has a greater offset: what is left of the line of the
earlier one ends before the line of the later one starts. -/
theorem IsPlaceIn.offset_lt (placed : left.IsPlaceIn lines) (other : right.IsPlaceIn lines)
    (before : left.Before right) : left.offset < right.offset := by
  have columnPos := placed.column_pos
  have otherColumnPos := other.column_pos
  rw [placed.offset, other.offset]
  rcases before with earlierLine | ⟨sameLine, earlierColumn⟩
  · rcases placed.exists_line with ⟨line, found, next⟩
    have columnLe := placed.column_le line found
    have ordered := lineStart_le lines (Nat.le_sub_one_of_lt earlierLine)
    omega
  · rw [sameLine]
    omega

/-- Of two locations one is before the other, unless line and column agree. -/
theorem before_trichotomy (left right : Location) :
    left.Before right ∨ (left.line = right.line ∧ left.column = right.column) ∨ right.Before left := by
  unfold Before
  omega

/-- The order of locations is the order of offsets. -/
theorem IsPlaceIn.before_iff (placed : left.IsPlaceIn lines) (other : right.IsPlaceIn lines) :
    left.Before right <-> left.offset < right.offset := by
  constructor
  · exact placed.offset_lt other
  · intro less
    rcases before_trichotomy left right with before | ⟨sameLine, sameColumn⟩ | after
    · exact before
    · rw [placed.offset, other.offset, sameLine, sameColumn] at less
      exact absurd less (Nat.lt_irrefl _)
    · exact absurd (other.offset_lt placed after) (Nat.lt_asymm less)

/-- Line and column together say as much as the offset. -/
theorem IsPlaceIn.same_iff (placed : left.IsPlaceIn lines) (other : right.IsPlaceIn lines) :
    (left.line = right.line ∧ left.column = right.column) <-> left.offset = right.offset := by
  constructor
  · rintro ⟨sameLine, sameColumn⟩
    rw [placed.offset, other.offset, sameLine, sameColumn]
  · intro same
    rcases before_trichotomy left right with before | agree | after
    · exact absurd same (Nat.ne_of_lt (placed.offset_lt other before))
    · exact agree
    · exact absurd same.symm (Nat.ne_of_lt (other.offset_lt placed after))

end Location

namespace Buffer

/-- The lines of a buffer, without the line feeds between them. -/
def lines (buffer : Buffer) : List (List UInt8) :=
  buffer.bytes.splitOn lineFeed

/-! ## The line of an offset -/

/-- The number of bytes behind the last line feed. -/
def tailLength (bytes : List UInt8) : Nat :=
  (bytes.reverse.takeWhile (· != lineFeed)).length

/-- One more byte in front belongs to the last line only if there is no line
feed behind it and it is none itself. -/
theorem tailLength_cons (byte : UInt8) (bytes : List UInt8) :
    tailLength (byte :: bytes) =
      if lineFeed ∈ byte :: bytes then tailLength bytes else tailLength bytes + 1 := by
  rw [tailLength, tailLength, List.reverse_cons]
  by_cases behind : lineFeed ∈ bytes
  · have stops : (bytes.reverse.takeWhile (· != lineFeed)).length ≠ bytes.reverse.length := by
      intro whole
      have all := (List.takeWhile_sublist _).eq_of_length whole
      have inside : lineFeed ∈ bytes.reverse.takeWhile (· != lineFeed) := by
        rw [all]
        exact List.mem_reverse.mpr behind
      have other := List.all_eq_true.mp List.all_takeWhile lineFeed inside
      exact absurd other (by decide)
    rw [List.takeWhile_append, if_neg stops, if_pos (List.mem_cons_of_mem byte behind)]
  · have passes : forall other, other ∈ bytes.reverse -> (other != lineFeed) = true := by
      intro other member
      have different : other ≠ lineFeed := fun same => behind (same ▸ List.mem_reverse.mp member)
      simpa using different
    have whole : bytes.reverse.takeWhile (· != lineFeed) = bytes.reverse :=
      List.takeWhile_eq_self_iff.mpr passes
    rw [List.takeWhile_append_of_pos passes, whole]
    by_cases feed : byte = lineFeed
    · simp [feed]
    · simp [feed, Ne.symm feed, behind]

/-- So many line feeds lead to a line, and so many bytes into that line is the
offset. -/
def Leads (lines : List (List UInt8)) (feeds behind offset : Nat) : Prop :=
  Exists fun line => lines[feeds]? = some line ∧ behind ≤ line.length ∧
    offset = lineStart lines feeds + behind

section Leads

variable {first : List UInt8} {lines : List (List UInt8)} {feeds behind offset : Nat}

/-- A line feed in front adds an empty line in front of all others. -/
theorem Leads.behindFeed (leads : Leads lines feeds behind offset) :
    Leads ([] :: lines) (feeds + 1) behind (offset + 1) := by
  rcases leads with ⟨line, found, within, split⟩
  refine ⟨line, found, within, ?_⟩
  rw [lineStart_cons, List.length_nil]
  omega

/-- Any other byte in front makes the first line longer. -/
theorem Leads.inFirst (byte : UInt8) (leads : Leads (first :: lines) 0 behind offset) :
    Leads ((byte :: first) :: lines) 0 (behind + 1) (offset + 1) := by
  rcases leads with ⟨line, found, within, split⟩
  have same : first = line := Option.some.inj found
  rw [lineStart_zero] at split
  refine ⟨byte :: first, rfl, ?_, ?_⟩
  · rw [List.length_cons, same]
    exact Nat.succ_le_succ within
  · rw [lineStart_zero]
    omega

/-- The first line is not the line of the offset if a line feed comes in between. -/
theorem Leads.behindFirst (byte : UInt8) (leads : Leads (first :: lines) (feeds + 1) behind offset) :
    Leads ((byte :: first) :: lines) (feeds + 1) behind (offset + 1) := by
  rcases leads with ⟨line, found, within, split⟩
  rw [lineStart_cons] at split
  refine ⟨line, found, within, ?_⟩
  rw [lineStart_cons, List.length_cons]
  omega

end Leads

/-- The line feeds before an offset lead to a line of the text, and the bytes
behind the last of them to a place in it. -/
theorem leads_of_le (bytes : List UInt8) {offset : Nat} (inside : offset ≤ bytes.length) :
    Leads (bytes.splitOn lineFeed) ((bytes.take offset).count lineFeed)
      (tailLength (bytes.take offset)) offset := by
  induction bytes generalizing offset with
  | nil =>
      rw [List.length_nil, Nat.le_zero] at inside
      subst inside
      exact ⟨[], rfl, Nat.le_refl _, rfl⟩
  | cons byte bytes ih =>
      cases offset with
      | zero =>
          have present := List.length_pos_iff.mpr (List.splitOn_ne_nil lineFeed (byte :: bytes))
          exact ⟨_, List.getElem?_eq_getElem present, Nat.zero_le _, rfl⟩
      | succ offset =>
          have leads := ih (Nat.le_of_succ_le_succ inside)
          rw [List.take_succ_cons, tailLength_cons, List.splitOn_cons_eq_if_modifyHead]
          by_cases feed : byte = lineFeed
          · have starts : lineFeed ∈ byte :: bytes.take offset := List.mem_cons.mpr (Or.inl feed.symm)
            rw [if_pos starts, if_pos (beq_iff_eq.mpr feed), feed, List.count_cons_self]
            exact leads.behindFeed
          · rw [if_neg (by simpa using feed), List.count_cons_of_ne feed]
            cases lines : bytes.splitOn lineFeed with
            | nil => exact absurd lines (List.splitOn_ne_nil lineFeed bytes)
            | cons first others =>
                rw [lines] at leads
                rw [List.modifyHead_cons]
                cases count : (bytes.take offset).count lineFeed with
                | zero =>
                    have feedless : lineFeed ∉ byte :: bytes.take offset := by
                      simp [List.count_eq_zero.mp count, Ne.symm feed]
                    rw [count] at leads
                    rw [if_neg feedless]
                    exact leads.inFirst byte
                | succ feeds =>
                    have between : lineFeed ∈ bytes.take offset :=
                      List.count_pos_iff.mp (by rw [count]; exact Nat.succ_pos feeds)
                    rw [count] at leads
                    rw [if_pos (List.mem_cons_of_mem byte between)]
                    exact leads.behindFirst byte

/-! ## Located tokens -/

variable (buffer : Buffer)

theorem isPlaceIn_locationAt {offset : Nat} (inside : offset ≤ buffer.size) :
    (buffer.locationAt offset).IsPlaceIn buffer.lines := by
  rw [size_eq_length_bytes] at inside
  rcases leads_of_le buffer.bytes inside with ⟨line, found, within, split⟩
  constructor
  case line_pos => exact Nat.succ_pos _
  case line_le => exact Nat.succ_le_of_lt (List.getElem?_eq_some_iff.mp found).1
  case column_pos => exact Nat.succ_pos _
  case column_le =>
    intro other foundOther
    have same : line = other := Option.some.inj (found.symm.trans foundOther)
    exact Nat.succ_le_succ (same ▸ within)
  case offset => exact split

/-- A location says where the token lies in the buffer. -/
theorem isPlaceIn_of_locate? {token : Token} {location : Location}
    (located : buffer.locate? token = some location) :
    location.offset = token.start - buffer.base ∧ location.IsPlaceIn buffer.lines := by
  rcases Option.map_eq_some_iff.mp located with ⟨offset, found, rfl⟩
  rcases (buffer.offset?_eq_some_iff token offset).mp found with ⟨behind, ends, rfl⟩
  refine ⟨rfl, buffer.isPlaceIn_locationAt ?_⟩
  rw [Token.stop] at ends
  omega

/-- Only tokens inside the buffer have locations in it. -/
theorem exists_location_iff (token : Token) :
    (Exists fun location => buffer.locate? token = some location) <->
      buffer.base ≤ token.start ∧ token.stop ≤ buffer.base + buffer.size := by
  constructor
  · intro given
    rcases given with ⟨location, located⟩
    rcases Option.map_eq_some_iff.mp located with ⟨offset, found, _⟩
    rcases (buffer.offset?_eq_some_iff token offset).mp found with ⟨behind, ends, _⟩
    exact ⟨behind, ends⟩
  · intro inside
    have found := (buffer.offset?_eq_some_iff token _).mpr ⟨inside.1, inside.2, rfl⟩
    exact ⟨_, by rw [locate?, found, Option.map_some]⟩

/-- Where the memory of a buffer begins has no influence on the locations of
what lies in it. -/
theorem locate?_shift (token : Token) :
    buffer.locate? (token.shift buffer.base) = locate? { text := buffer.text } token := by
  have moved : buffer.offset? (token.shift buffer.base) = offset? { text := buffer.text } token := by
    have same : buffer.size = size { text := buffer.text } := rfl
    simp only [offset?, Token.stop, Token.shift, Token.size, same, Nat.le_add_left, true_and,
      Nat.zero_le, Nat.zero_add, Nat.add_sub_cancel, Nat.sub_zero, Nat.add_right_comm _ buffer.base,
      Nat.add_comm buffer.base, Nat.add_le_add_iff_right]
  rw [locate?, locate?, moved]
  rfl

/-- The tokens of a text lie in every buffer that holds it, one behind the
other. -/
theorem exists_locations {tokens : List Token} (scanned : Scan.tokens buffer.text = .ok tokens) :
    Exists fun locations : List Location =>
      (tokens.map fun token => buffer.locate? (token.shift buffer.base)) = locations.map some ∧
        locations.Pairwise Location.Before := by
  have located : forall token, token ∈ tokens ->
      buffer.locate? (token.shift buffer.base) = some (buffer.locationAt token.start) := by
    intro token member
    rw [locate?_shift, locate?_of_standsIn (Scan.standsIn_of_tokens scanned token member)]
    rfl
  refine ⟨tokens.map fun token => buffer.locationAt token.start, ?_, ?_⟩
  · rw [List.map_map]
    exact List.map_congr_left located
  · rw [List.pairwise_map]
    apply (Scan.increasing_of_tokens scanned).imp_of_mem
    intro left right leftMember rightMember starts
    have placed := (buffer.isPlaceIn_of_locate? (located left leftMember)).2
    have other := (buffer.isPlaceIn_of_locate? (located right rightMember)).2
    exact (placed.before_iff other).mpr starts

/-- A buffer locates exactly the tokens that lie in it.  Line and column are a
place in its lines, from which the offset can be computed; so they determine the
offset, and they are ordered as offsets are.  The tokens of its text are located
in their order. -/
theorem locations_exact :
    (forall token, (Exists fun location => buffer.locate? token = some location) <->
      buffer.base ≤ token.start ∧ token.stop ≤ buffer.base + buffer.size) ∧
    (forall token location, buffer.locate? token = some location ->
      location.offset = token.start - buffer.base ∧ location.IsPlaceIn buffer.lines) ∧
    (forall token other left right, buffer.locate? token = some left ->
      buffer.locate? other = some right ->
        ((left.line = right.line ∧ left.column = right.column) <-> left.offset = right.offset) ∧
          (left.Before right <-> left.offset < right.offset)) ∧
    forall tokens, Scan.tokens buffer.text = .ok tokens -> Exists fun locations : List Location =>
      (tokens.map fun token => buffer.locate? (token.shift buffer.base)) = locations.map some ∧
        locations.Pairwise Location.Before := by
  refine ⟨buffer.exists_location_iff, fun _ _ => buffer.isPlaceIn_of_locate?, ?_,
    fun _ => buffer.exists_locations⟩
  intro token other left right located otherLocated
  have placed := (buffer.isPlaceIn_of_locate? located).2
  have otherPlaced := (buffer.isPlaceIn_of_locate? otherLocated).2
  exact ⟨placed.same_iff otherPlaced, placed.before_iff otherPlaced⟩

/-- A buffer in the middle of a memory.  Its second line is empty, and a string
of its third line has more bytes than characters. -/
def uneven : Buffer where
  text := "type A\n\n/**/\"\u00e9\",b\n"
  base := 40

/-- The comma behind the string. -/
def unevenComma : Token := { kind := .comma, text := ",", start := 56 }

theorem locations_exact_uneven :
    uneven.locate? unevenComma = some { offset := 16, line := 3, column := 9 } ∧
      uneven.lines.map List.length = [6, 0, 10, 0] ∧
      Location.IsPlaceIn { offset := 16, line := 3, column := 9 } uneven.lines ∧
      uneven.locate? (uneven.token .string) = some { offset := 0, line := 1, column := 1 } ∧
      Location.Before { offset := 0, line := 1, column := 1 } { offset := 16, line := 3, column := 9 } ∧
      uneven.locate? { unevenComma with start := 59 } = none ∧
      Exists fun tokens => Scan.tokens uneven.text = .ok tokens ∧ Exists fun locations : List Location =>
        (tokens.map fun token => uneven.locate? (token.shift uneven.base)) = locations.map some ∧
          locations.Pairwise Location.Before := by
  have comma : uneven.locate? unevenComma = some { offset := 16, line := 3, column := 9 } := by
    decide +kernel
  have whole : uneven.locate? (uneven.token .string) = some { offset := 0, line := 1, column := 1 } := by
    decide +kernel
  have scanned : Scan.tokens uneven.text = .ok (Scan.start uneven.text).run.tokens :=
    Scan.tokens_eq_ok_iff.mpr ⟨by decide +kernel, rfl⟩
  rcases uneven.locations_exact with ⟨_, pinned, ordered, inOrder⟩
  exact ⟨comma, by decide +kernel, (pinned _ _ comma).2, whole,
    (ordered _ _ _ _ whole comma).2.mpr (by decide), by decide +kernel, _, scanned,
    inOrder _ scanned⟩

end Buffer
end TypeSchema
