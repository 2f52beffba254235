import TypeSchema.Proofs.Failing
import TypeSchema.Proofs.Mixture

namespace TypeSchema
namespace Parser

open Grammar

/-!
# How values are refused

A list fails behind some complete items, with the end of the tokens or with the
item that comes next.  A value fails with its own tokens or with a value inside
it.  What holds of every failure at its source, and is passed on by the lists
and assignments around the source, therefore holds of all refused values; the
reader of values need not be taken apart again for it.
-/

variable {α : Type}

theorem readsValues (bound : Nat) : ReadsValues Parser.value bound := by
  intro first tokens value rest _
  exact reads_value_iff

/-- A list fails behind items that are read, because the tokens end there or
because the next item fails. -/
theorem loop_failure {list : BraceList} {item : List α -> Token -> Parser α}
    {spells : List Token -> α -> Prop} {admits : List α -> α -> Prop} {bound : Nat}
    (follows : Follows item spells admits bound) {earlier : List α} {tokens rest : List Token}
    {diagnostic : Diagnostic} (short : tokens.length ≤ bound)
    (failed : (loop list item earlier).Fails tokens diagnostic rest) :
    Exists fun body => Exists fun values => Exists fun ahead => tokens = body ++ ahead ∧
      Listing spells body values ∧
        ((ahead = [] ∧ diagnostic = { cause := .unclosedList list } ∧ rest = []) ∨
          Exists fun first => Exists fun behind => ahead = first :: behind ∧
            (item (earlier ++ values) first).Fails behind diagnostic rest) := by
  -- The loop goes on behind at least one token, the first one of an item.
  induction size : tokens.length using Nat.strongRecOn generalizing tokens earlier with
  | ind size ih =>
      rcases fails_loop_iff.mp failed with
        ⟨rfl, same, left⟩ | ⟨first, behind, rfl, _, itemFailed | ⟨value, left, itemRead, later⟩⟩
      · exact ⟨[], [], [], rfl, .nil, Or.inl ⟨rfl, same, left⟩⟩
      · refine ⟨[], [], first :: behind, rfl, .nil, Or.inr ⟨first, behind, rfl, ?_⟩⟩
        rw [List.append_nil]
        exact itemFailed
      · rw [List.length_cons] at size short
        rcases follows.sound (by omega) itemRead with ⟨taken, split, spelled, _⟩
        rcases exists_commas left with ⟨commas, leftSplit, areCommas⟩
        have taking := itemRead.length_le
        have passing := (afterCommas_suffix left).length_le
        rcases ih _ (by omega) (by omega) later rfl with
          ⟨body, values, ahead, whole, listing, outcome⟩
        refine ⟨first :: taken ++ (commas ++ body), value :: values, ahead, ?_,
          .cons spelled areCommas listing, ?_⟩
        · rw [split, leftSplit, whole]
          simp only [List.cons_append, List.append_assoc]
        · rw [List.append_assoc, List.singleton_append] at outcome
          exact outcome

theorem ne_closeBrace_of_begins {kind : Token.Kind} (begins : Begins kind) : kind ≠ .closeBrace := by
  rcases begins with rfl | rfl | rfl | rfl | rfl <;> decide

section Behind

variable {list : BraceList} {item : List α -> Token -> Parser α} {spells : List Token -> α -> Prop}
  {admits : List α -> α -> Prop} {front : List Token} {earlier : List α}

/-- A list fails as its loop does behind complete items. -/
theorem fails_braced_of_loop {ahead rest : List Token} {diagnostic : Diagnostic}
    (follows : Follows item spells admits (front ++ ahead).length)
    (listing : Listing spells front earlier) (admitted : AdmitsAll admits [] earlier)
    (apart : Apart ahead) (stops : Stops .comma ahead)
    (failed : (loop list item earlier).Fails ahead diagnostic rest) :
    (braced list item).Fails (front ++ ahead) diagnostic rest := by
  have passed := @run_loop_append α list item spells admits _ follows [] earlier front ahead listing
    (Nat.le_refl _) admitted apart stops
  exact ⟨passed.1.trans failed.1, passed.2.trans failed.2⟩

theorem fails_loop_nil : (loop list item earlier).Fails [] { cause := .unclosedList list } [] :=
  fails_loop_iff.mpr (Or.inl ⟨rfl, rfl, rfl⟩)

theorem unclosed_of_listing (follows : Follows item spells admits front.length)
    (listing : Listing spells front earlier) (admitted : AdmitsAll admits [] earlier) :
    (braced list item).Fails front { cause := .unclosedList list } [] := by
  rw [← List.append_nil front] at follows
  have failed := fails_braced_of_loop follows listing admitted ⟨nofun, nofun⟩ nofun
    (@fails_loop_nil α list item earlier)
  rw [List.append_nil] at failed
  exact failed

variable {first : Token} {tokens : List Token}
  (follows : Follows item spells admits (front ++ first :: tokens).length)
  (listing : Listing spells front earlier) (admitted : AdmitsAll admits [] earlier)
  (begins : Begins first.kind)
include follows listing admitted begins

theorem fails_braced_of_item {rest : List Token} {diagnostic : Diagnostic}
    (failed : (item earlier first).Fails tokens diagnostic rest) :
    (braced list item).Fails (front ++ first :: tokens) diagnostic rest := by
  exact fails_braced_of_loop follows listing admitted (apart_of_begins begins)
    (stops_comma_of_begins begins) (fails_loop_iff.mpr (Or.inr ⟨first, tokens, rfl,
      ne_closeBrace_of_begins begins, Or.inl failed⟩))

/-- If an item is read up to the end of the tokens, the list is not closed. -/
theorem unclosed_of_item {value : α} (read : (item earlier first).Reads tokens value []) :
    (braced list item).Fails (front ++ first :: tokens) { cause := .unclosedList list } [] := by
  exact fails_braced_of_loop follows listing admitted (apart_of_begins begins)
    (stops_comma_of_begins begins) (fails_loop_iff.mpr (Or.inr ⟨first, tokens, rfl,
      ne_closeBrace_of_begins begins, Or.inr ⟨value, [], read, fails_loop_nil⟩⟩))

end Behind

/-- A list of values fails in its loop, or it is closed and its children are
mixed. -/
theorem fails_compoundWith_iff {nested : Token -> Parser Value} {opening : Token}
    {tokens rest : List Token} {diagnostic : Diagnostic} :
    (compoundWith nested opening).Fails tokens diagnostic rest <->
      Exists fun inner => diagnostic = inner.within .compound ∧
        ((braced .compoundValues fun _ first => childWith nested first).Fails tokens inner rest ∨
          Exists fun children => Exists fun closing => Exists fun first => Exists fun other =>
            (braced .compoundValues fun _ first => childWith nested first).Reads tokens
                (children, closing) rest ∧
              Mixes children first other ∧
              inner = { cause := .mixedCompound first.kind other.kind other.token }) := by
  simp only [compoundWith, fails_within_iff, fails_bind_iff]
  constructor
  · intro given
    rcases given with ⟨inner, failed | ⟨⟨children, closing⟩, behind, read, later⟩, seen⟩
    · exact ⟨inner, seen, Or.inl failed⟩
    · simp only at later
      split at later
      · next expected other judged =>
          rcases mismatch?_eq_some_iff.mp judged with ⟨first, rfl, mixes⟩
          rcases fails_fail_iff.mp later with ⟨same, rfl⟩
          exact ⟨inner, seen, Or.inr ⟨children, closing, first, other, read, mixes, same⟩⟩
      · rcases fails_bind_iff.mp later with impossible | ⟨_, _, _, impossible⟩
        · exact (fails_emit_iff.mp impossible).elim
        · exact (fails_pure_iff.mp impossible).elim
  · intro given
    rcases given with ⟨inner, seen, failed | ⟨children, closing, first, other, read, mixes, same⟩⟩
    · exact ⟨inner, Or.inl failed, seen⟩
    · have judged := mismatch?_eq_some_iff.mpr ⟨first, rfl, mixes⟩
      refine ⟨inner, Or.inr ⟨(children, closing), rest, read, ?_⟩, seen⟩
      simp only [judged]
      exact fails_fail_iff.mpr ⟨same, rfl⟩

/-! ## From the source outwards -/

theorem childWith_of_openBrace {nested : Token -> Parser Value} {first : Token}
    (opens : first.kind = .openBrace) : childWith nested first = nested first := by
  rw [childWith, if_neg]
  rw [first.is_iff, opens]
  decide

theorem value_of_openBrace {first : Token} (opens : first.kind = .openBrace) :
    Parser.value first = compoundWith Parser.value first := by
  rw [value_eq, valueWith]
  simp only [opens]

/-- A name, an equals sign and the first token of a value lead to the value. -/
theorem fails_childWith_of_assigned {nested : Token -> Parser Value} {name equals first : Token}
    {tokens rest : List Token} {diagnostic : Diagnostic} (word : name.kind = .word)
    (isEquals : equals.kind = .equals) (failed : (nested first).Fails tokens diagnostic rest) :
    (childWith nested name).Fails (equals :: first :: tokens) diagnostic rest := by
  rw [childWith, if_pos ((name.is_iff .word).mpr word)]
  have ahead : (nextIf? .equals).Reads (equals :: first :: tokens) (some equals) (first :: tokens) :=
    reads_nextIf?_iff.mpr (Or.inl ⟨equals, rfl, isEquals, rfl⟩)
  have taken : next?.Reads (first :: tokens) (some first) tokens := reads_next?_iff.mpr ⟨rfl, rfl⟩
  refine fails_bind_iff.mpr (Or.inr ⟨_, _, ahead, ?_⟩)
  exact fails_bind_iff.mpr (Or.inr ⟨_, _, taken, fails_bind_iff.mpr (Or.inl failed)⟩)

/-- A child that fails behind children that are read fails the list. -/
theorem fails_of_child {opening first : Token} {front tokens left : List Token}
    {earlier : List Value} {diagnostic : Diagnostic} (opens : opening.kind = .openBrace)
    (listing : Listing SpellsChild front earlier)
    (uniform : forall value, value ∈ earlier -> value.Uniform) (begins : Begins first.kind)
    (failed : (childWith Parser.value first).Fails tokens diagnostic left) :
    (Parser.value opening).Fails (front ++ first :: tokens) (diagnostic.within .compound) left := by
  rw [value_of_openBrace opens]
  refine fails_compoundWith_iff.mpr ⟨diagnostic, rfl, Or.inl ?_⟩
  exact fails_braced_of_item (childWith_follows (readsValues _)) listing (admitsAll_iff.mpr uniform)
    begins failed

/-! ## To the source -/

/-- A property of the tokens of a value, a failure to read it and the tokens
that are left, which holds at the source of a failure and is passed on by the
constructions around it. -/
structure Inherited (property : List Token -> Diagnostic -> List Token -> Prop) : Prop where
  unexpected : forall {first rest}, property (first :: rest) { cause := .valueExpected first } rest
  member : forall {enumName scope behind diagnostic rest}, enumName.kind = .word ->
    scope.kind = .scope -> (name .referenceMember).Fails behind diagnostic rest ->
    property (enumName :: scope :: behind) diagnostic rest
  missing : forall {target equals}, target.kind = .word -> equals.kind = .equals ->
    property [target, equals] { cause := .assignmentMissing target } []
  assigned : forall {target equals tokens diagnostic rest}, target.kind = .word ->
    equals.kind = .equals -> property tokens diagnostic rest ->
    property (target :: equals :: tokens) diagnostic rest
  unclosed : forall {opening body children}, opening.kind = .openBrace ->
    Listing SpellsChild body children ->
    property (opening :: body) { context := [.compound], cause := .unclosedList .compoundValues } []
  child : forall {opening body children tokens diagnostic rest}, opening.kind = .openBrace ->
    Listing SpellsChild body children -> property tokens diagnostic rest ->
    property (opening :: (body ++ tokens)) (diagnostic.within .compound) rest
  mixed : forall {opening closing body children first other rest}, opening.kind = .openBrace ->
    Listing SpellsChild body children -> closing.kind = .closeBrace -> Mixes children first other ->
    property (opening :: (body ++ closing :: rest))
      { context := [.compound], cause := .mixedCompound first.kind other.kind other.token } rest

section Inherited

variable {property : List Token -> Diagnostic -> List Token -> Prop} {bound : Nat}
  (inherited : Inherited property)
  (deeper : forall {first tokens diagnostic rest}, tokens.length < bound ->
    (Parser.value first).Fails tokens diagnostic rest -> property (first :: tokens) diagnostic rest)
  {first : Token} {tokens rest : List Token} {diagnostic : Diagnostic}
include inherited deeper

theorem Inherited.refusedChild (short : tokens.length < bound)
    (failed : (childWith Parser.value first).Fails tokens diagnostic rest) :
    property (first :: tokens) diagnostic rest := by
  rw [childWith] at failed
  split at failed
  · next isWord =>
      have word := (first.is_iff .word).mp isWord
      rcases fails_bind_iff.mp failed with impossible | ⟨found, behind, ahead, later⟩
      · exact (fails_nextIf?_iff.mp impossible).elim
      · rcases reads_nextIf?_iff.mp ahead with ⟨equals, rfl, isEquals, rfl⟩ | ⟨rfl, rfl, _⟩
        · rcases fails_bind_iff.mp later with impossible | ⟨next, others, taken, last⟩
          · exact (fails_next?_iff.mp impossible).elim
          · rcases reads_next?_iff.mp taken with ⟨rfl, rfl⟩
            cases behind with
            | nil =>
                rcases fails_fail_iff.mp last with ⟨rfl, rfl⟩
                exact inherited.missing word isEquals
            | cons next others =>
                simp only [List.length_cons] at short
                rcases fails_bind_iff.mp last with valueFailed | ⟨_, _, _, impossible⟩
                · exact inherited.assigned word isEquals
                    (deeper (by omega) valueFailed)
                · exact (fails_pure_iff.mp impossible).elim
        · exact deeper short later
  · exact deeper short failed

theorem Inherited.refusedList (opens : first.kind = .openBrace) (short : tokens.length ≤ bound)
    (failed : (compoundWith Parser.value first).Fails tokens diagnostic rest) :
    property (first :: tokens) diagnostic rest := by
  have follows := childWith_follows (readsValues tokens.length)
  rcases fails_compoundWith_iff.mp failed with
    ⟨inner, rfl, listFailed | ⟨children, closing, reference, other, read, mixes, rfl⟩⟩
  · rw [braced_eq_loop] at listFailed
    rcases loop_failure follows (Nat.le_refl _) listFailed with
      ⟨body, children, ahead, rfl, listing, ⟨rfl, rfl, rfl⟩ | ⟨child, behind, rfl, childFailed⟩⟩
    · rw [List.append_nil]
      exact inherited.unclosed opens listing
    · simp only [List.length_append, List.length_cons] at short
      exact inherited.child opens listing
        (inherited.refusedChild deeper (by omega) childFailed)
  · rcases (reads_braced_iff follows (Nat.le_refl _)).mp read with ⟨body, rfl, closes, listing, _⟩
    exact inherited.mixed opens listing closes mixes

theorem Inherited.refusedValue (short : tokens.length ≤ bound)
    (failed : (valueWith Parser.value first).Fails tokens diagnostic rest) :
    property (first :: tokens) diagnostic rest := by
  have unexpected : (fail (.valueExpected first) : Parser Value).Fails tokens diagnostic rest ->
      property (first :: tokens) diagnostic rest := by
    intro refused
    rcases fails_fail_iff.mp refused with ⟨rfl, rfl⟩
    exact inherited.unexpected
  rw [valueWith] at failed
  split at failed
  · next opens => exact inherited.refusedList deeper opens short failed
  · exact (fails_pure_iff.mp failed).elim
  · exact (fails_pure_iff.mp failed).elim
  · exact (fails_pure_iff.mp failed).elim
  · next word =>
      split at failed
      · exact (fails_pure_iff.mp failed).elim
      · rcases fails_bind_iff.mp failed with impossible | ⟨found, behind, ahead, later⟩
        · exact (fails_nextIf?_iff.mp impossible).elim
        · rcases reads_nextIf?_iff.mp ahead with ⟨scope, rfl, isScope, rfl⟩ | ⟨rfl, rfl, _⟩
          · rcases fails_bind_iff.mp later with nameFailed | ⟨_, _, _, impossible⟩
            · exact inherited.member word isScope nameFailed
            · exact (fails_pure_iff.mp impossible).elim
          · exact unexpected later
  · exact unexpected failed

end Inherited

/-- What is inherited holds of every value that is refused. -/
theorem Inherited.refused {property : List Token -> Diagnostic -> List Token -> Prop}
    (inherited : Inherited property) {first : Token} {tokens rest : List Token}
    {diagnostic : Diagnostic} (failed : (Parser.value first).Fails tokens diagnostic rest) :
    property (first :: tokens) diagnostic rest := by
  induction size : tokens.length using Nat.strongRecOn
    generalizing first tokens diagnostic rest with
  | ind size ih =>
      have nested : forall {first others diagnostic rest}, others.length < tokens.length ->
          (Parser.value first).Fails others diagnostic rest ->
            property (first :: others) diagnostic rest := by
        intro first others diagnostic rest short nestedFailed
        exact ih others.length (size ▸ short) nestedFailed rfl
      rw [value_eq] at failed
      exact inherited.refusedValue nested (Nat.le_refl _) failed

end Parser
end TypeSchema
