import TypeSchema.Proofs.Refusal

namespace TypeSchema

/-!
# Truncated values

If the tokens end within a value, then reading it fails there, and mostly no
token is to blame for that.  There is one exception.  A word may begin a value
or name an assignment, which depends on the token behind it; if there is none,
the word is taken for a value that it is not.  Only in the place of a child, and
only if the word is a literal, it may well be taken so.
-/

namespace Grammar

/-- The last token seen is a word that begins a value or a child of a list, in
one of these surroundings, and that is no literal. -/
inductive EndsInName (around : (before behind : List Token) -> (inner : Value) -> Prop)
    (word : Token) : (seen unseen : List Token) -> Prop where
  | name {before own behind : List Token} {inner : Value} : word.kind = .word ->
      ¬ IsTruthValue word.text -> SpellsChild (word :: own) inner -> around before behind inner ->
      EndsInName around word (before ++ [word]) (own ++ behind)

/-- The tokens are cut behind such a word. -/
def CutAtName (around : (before behind : List Token) -> (inner : Value) -> Prop)
    (seen unseen : List Token) : Prop :=
  Exists fun word => EndsInName around word seen unseen

/-- Nothing is so cut behind a token that is no word. -/
theorem not_cutAtName_of_getLast? {around : (before behind : List Token) -> (inner : Value) -> Prop}
    {seen unseen : List Token} {token : Token} (last : seen.getLast? = some token)
    (noWord : token.kind ≠ .word) : ¬ CutAtName around seen unseen := by
  rintro ⟨word, ends⟩
  cases ends with
  | name isWord plain spelled surrounds =>
      rw [List.getLast?_concat] at last
      exact noWord (Option.some.inj last ▸ isWord)

/-- Around the surroundings there may be more tokens. -/
theorem CutAtName.lift {around wider : (before behind : List Token) -> (inner : Value) -> Prop}
    {seen unseen front back : List Token} (cut : CutAtName around seen unseen)
    (widens : forall {before behind inner}, around before behind inner ->
      wider (front ++ before) (behind ++ back) inner) :
    CutAtName wider (front ++ seen) (unseen ++ back) := by
  rcases cut with ⟨word, ends⟩
  refine ⟨word, ?_⟩
  cases ends with
  | name isWord plain spelled surrounds =>
      rw [← List.append_assoc, List.append_assoc _ _ back]
      exact .name isWord plain spelled (widens surrounds)

/-- The surroundings of the values and the children of lists in a value. -/
def InValue (value : Value) (before behind : List Token) (inner : Value) : Prop :=
  Exists fun depth => Surrounds before behind depth inner value

theorem cutAtName_itself {word : Token} {own : List Token} {value : Value}
    (isWord : word.kind = .word) (plain : ¬ IsTruthValue word.text)
    (spelled : SpellsChild (word :: own) value) : CutAtName (InValue value) [word] own := by
  have ends := @EndsInName.name (InValue value) word [] own [] value isWord plain spelled
    ⟨0, .itself⟩
  rw [List.nil_append, List.append_nil] at ends
  exact ⟨word, ends⟩

section Lift

variable {seen unseen : List Token} {value : Value} (cut : CutAtName (InValue value) seen unseen)
include cut

theorem CutAtName.assigned {name equals : Token} (named : name.kind = .word)
    (isEquals : equals.kind = .equals) (unnamed : value.kind ≠ .assignment) :
    CutAtName (InValue (.assignment name value)) (name :: equals :: seen) unseen := by
  have lifted : CutAtName (InValue (.assignment name value)) ([name, equals] ++ seen)
      (unseen ++ []) := by
    refine cut.lift ?_
    intro before behind inner around
    rcases around with ⟨depth, surrounds⟩
    rw [List.append_nil]
    exact ⟨depth, .assigned named isEquals unnamed surrounds⟩
  rw [List.append_nil] at lifted
  exact lifted

theorem CutAtName.listed {opening closing : Token} {front back : List Token}
    {earlier later : List Value} (opens : opening.kind = .openBrace)
    (listing : Listing SpellsChild front earlier) (trail : Trail SpellsChild back later)
    (closes : closing.kind = .closeBrace) :
    CutAtName (InValue (.compound opening closing (Value.shapeOf (earlier ++ value :: later))
      (earlier ++ value :: later))) (opening :: (front ++ seen)) (unseen ++ (back ++ [closing])) := by
  refine @CutAtName.lift _ _ _ _ (opening :: front) _ cut ?_
  intro before behind inner around
  rcases around with ⟨depth, surrounds⟩
  exact ⟨depth + 1, .listed opens listing surrounds trail closes⟩

theorem CutAtName.initial {typeName name equals : Token} {mark : List Token} {isArray : Bool}
    (typed : typeName.kind = .word) (named : name.kind = .word)
    (spelled : SpellsArrayMark mark isArray) (isEquals : equals.kind = .equals)
    (unnamed : value.kind ≠ .assignment) :
    CutAtName (FieldSurrounds { typeName, name, isArray, defaultValue := some value })
      (typeName :: name :: (mark ++ equals :: seen)) unseen := by
  have lifted : CutAtName (FieldSurrounds { typeName, name, isArray, defaultValue := some value })
      ((typeName :: name :: (mark ++ [equals])) ++ seen) (unseen ++ []) := by
    refine cut.lift ?_
    intro before behind inner around
    rcases around with ⟨depth, surrounds⟩
    rw [List.append_nil]
    simpa only [List.cons_append, List.append_assoc, List.nil_append] using
      FieldSurrounds.field typed named spelled isEquals unnamed surrounds
  simpa only [List.cons_append, List.append_assoc, List.nil_append, List.append_nil] using lifted

end Lift

theorem CutAtName.member {keyword name opening closing : Token}
    {ancestry front back seen unseen : List Token} {parent : Option Token}
    {earlier later : List Field} {field : Field} (cut : CutAtName (FieldSurrounds field) seen unseen)
    (word : keyword.kind = .word) (spelling : keyword.text = "type") (named : name.kind = .word)
    (parentSpelled : SpellsParent ancestry parent) (opens : opening.kind = .openBrace)
    (listing : Listing SpellsField front earlier) (trail : Trail SpellsField back later)
    (closes : closing.kind = .closeBrace) :
    CutAtName (DefinitionSurrounds (.type { keyword, name, parent, fields := earlier ++ field :: later }))
      (keyword :: name :: (ancestry ++ opening :: (front ++ seen))) (unseen ++ (back ++ [closing])) := by
  have lifted : CutAtName
      (DefinitionSurrounds (.type { keyword, name, parent, fields := earlier ++ field :: later }))
      ((keyword :: name :: (ancestry ++ opening :: front)) ++ seen) (unseen ++ (back ++ [closing])) := by
    refine cut.lift ?_
    intro before behind inner surrounds
    simpa only [List.cons_append, List.append_assoc] using
      DefinitionSurrounds.type word spelling named parentSpelled opens listing surrounds trail closes
  simpa only [List.cons_append, List.append_assoc] using lifted

end Grammar

namespace Parser

open Grammar

variable {α : Type}

/-! ## At the word -/

theorem value_of_word {word : Token} (isWord : word.kind = .word) (plain : ¬ IsTruthValue word.text) :
    Parser.value word = (nextIf? .scope >>= fun found =>
      match found with
      | some _ => reference word
      | none => fail (.valueExpected word)) := by
  rw [value_eq, valueWith]
  simp only [isWord]
  exact if_neg plain

theorem apart_nil : Apart [] :=
  ⟨nofun, nofun⟩

/-- A word that is no literal, with nothing behind it. -/
theorem fails_of_word {word : Token} (isWord : word.kind = .word) (plain : ¬ IsTruthValue word.text) :
    (Parser.value word).Fails [] { cause := .valueExpected word } [] := by
  rw [value_of_word isWord plain]
  exact fails_bind_iff.mpr (Or.inr ⟨none, [], reads_nextIf?_iff.mpr (Or.inr ⟨rfl, rfl, nofun⟩),
    fails_fail_iff.mpr ⟨rfl, rfl⟩⟩)

/-- A word without an equals sign behind it begins a value. -/
theorem childWith_of_stops {nested : Token -> Parser Value} {first : Token} {tokens rest : List Token}
    {diagnostic : Diagnostic} (stops : Stops .equals tokens)
    (failed : (nested first).Fails tokens diagnostic rest) :
    (childWith nested first).Fails tokens diagnostic rest := by
  rw [childWith]
  split
  · exact fails_bind_iff.mpr (Or.inr ⟨none, tokens, reads_nextIf?_iff.mpr (Or.inr ⟨rfl, rfl, stops⟩),
      failed⟩)
  · exact failed

/-- The first token of an item is the token with which it begins. -/
theorem begins_of_cons {first : Token} {taken : List Token}
    (item : Exists fun front => Exists fun behind =>
      first :: taken = front :: behind ∧ Begins front.kind) : Begins first.kind := by
  rcases item with ⟨_, _, same, begins⟩
  rw [(List.cons.inj same).1]
  exact begins

theorem exists_cons_of_concat (front : List Token) (last : Token) :
    Exists fun first => Exists fun behind => front ++ [last] = first :: behind :=
  List.exists_cons_of_ne_nil (List.append_ne_nil_of_right_ne_nil front (List.cons_ne_nil last []))

section Word

variable {word : Token} {own : List Token} {inner : Value} (isWord : word.kind = .word)
  (plain : ¬ IsTruthValue word.text) (spelled : SpellsChild (word :: own) inner)
include isWord plain spelled

/-- A value or a child that ends with the word fails with the word, and every
list around the word shows. -/
theorem fails_at_word {before behind : List Token} {depth : Nat} {outer : Value}
    (surrounds : Surrounds before behind depth inner outer) (uniform : outer.Uniform)
    {first : Token} {part : List Token} (whole : before ++ [word] = first :: part) :
    (childWith Parser.value first).Fails part
        { context := List.replicate depth .compound, cause := .valueExpected word } [] ∧
      (outer.kind ≠ .assignment -> (Parser.value first).Fails part
        { context := List.replicate depth .compound, cause := .valueExpected word } []) := by
  induction surrounds generalizing first part with
  | itself =>
      rcases List.cons.inj whole with ⟨rfl, rfl⟩
      have failed := fails_of_word isWord plain
      exact ⟨childWith_of_stops nofun failed, fun _ => failed⟩
  | @assigned name equals before behind depth inner value named isEquals unnamed surrounds ih =>
      rw [List.cons_append, List.cons_append] at whole
      rcases List.cons.inj whole with ⟨rfl, rfl⟩
      cases uniform with
      | assignment uniform =>
          rcases exists_cons_of_concat before word with ⟨next, others, split⟩
          have failed := (ih spelled uniform split).2 unnamed
          rw [split]
          exact ⟨fails_childWith_of_assigned named isEquals failed,
            fun impossible => absurd rfl impossible⟩
  | @listed opening closing front before behind back depth inner child earlier later opens listing
      surrounds trail closes ih =>
      rw [List.cons_append] at whole
      rcases List.cons.inj whole with ⟨rfl, rfl⟩
      cases uniform with
      | compound _ uniform =>
          have childSpelled := surrounds.spellsChild spelled
          rw [← List.singleton_append, List.append_assoc, ← List.append_assoc before] at childSpelled
          rcases exists_cons_of_concat before word with ⟨next, others, split⟩
          rw [split, List.cons_append] at childSpelled
          have failed := (ih spelled (uniform child (by simp)) split).1
          have listed := fails_of_child opens listing
            (fun value member => uniform value (List.mem_append_left _ member))
            (begins_of_cons childSpelled.begins) failed
          rw [List.append_assoc, split, childWith_of_openBrace opens]
          exact ⟨listed, fun _ => listed⟩

end Word

/-! ## Cut values -/

/-- The parser fails at the end of the tokens, and unless it is excepted it
blames none of them. -/
def Halts (parser : Parser α) (part : List Token) (excepted : Prop) : Prop :=
  Exists fun diagnostic => parser.Fails part diagnostic [] ∧
    (diagnostic.token? = none ∨ excepted)

theorem Halts.mono {parser : Parser α} {part : List Token} {excepted other : Prop}
    (halts : parser.Halts part excepted) (implies : excepted -> other) : parser.Halts part other := by
  rcases halts with ⟨diagnostic, failed, unblamed⟩
  exact ⟨diagnostic, failed, unblamed.imp_right implies⟩

/-- A truncated list of items is not closed, unless its last item fails. -/
theorem halts_braced {list : BraceList} {item : List α -> Token -> Parser α}
    {spells : List Token -> α -> Prop} {admits : List α -> α -> Prop} {front : List Token}
    {earlier : List α} {first : Token} {part : List Token} {excepted : Prop}
    (follows : Follows item spells admits (front ++ first :: part).length)
    (listing : Listing spells front earlier) (admitted : AdmitsAll admits [] earlier)
    (begins : Begins first.kind)
    (outcome : (item earlier first).Halts part excepted ∨
      Exists fun value => (item earlier first).Reads part value []) :
    (braced list item).Halts (front ++ first :: part) excepted := by
  rcases outcome with ⟨diagnostic, failed, unblamed⟩ | ⟨value, read⟩
  · exact ⟨diagnostic, fails_braced_of_item follows listing admitted begins failed, unblamed⟩
  · exact ⟨_, unclosed_of_item follows listing admitted begins read, Or.inl rfl⟩

/-- What is cut off at its end lacks its last token. -/
theorem exists_of_cut {body part more : List Token} {closing : Token}
    (whole : body ++ [closing] = part ++ more) (present : more ≠ []) :
    Exists fun remaining => body = part ++ remaining ∧ more = remaining ++ [closing] := by
  rcases List.eq_nil_or_concat more with rfl | ⟨remaining, last, rfl⟩
  · exact absurd rfl present
  · rw [List.concat_eq_append, ← List.append_assoc] at whole
    rcases List.append_inj' whole rfl with ⟨split, same⟩
    exact ⟨remaining, split, by rw [List.concat_eq_append, List.singleton_inj.mp same]⟩

/-- What becomes of a child of a list that is cut.  If it is cut behind its name
and the name is a literal, the literal is read instead of the child. -/
inductive CutChild (first : Token) (part more : List Token) (child : Value) : Prop where
  | halts : (childWith Parser.value first).Halts part (CutAtName (InValue child) (first :: part) more) ->
      (child.kind ≠ .assignment ->
        (Parser.value first).Halts part (CutAtName (InValue child) (first :: part) more)) ->
      CutChild first part more child
  | literal {read : Value} : child.kind = .assignment ->
      (childWith Parser.value first).Reads part read [] -> CutChild first part more child

/-- Wherever the tokens of a child are cut, it comes to one of these. -/
def Cuts (taken : List Token) (child : Value) : Prop :=
  child.Uniform -> forall {first part more}, taken = first :: (part ++ more) -> more ≠ [] ->
    CutChild first part more child

theorem cuts_reference {enumName scope member : Token} (word : enumName.kind = .word)
    (plain : ¬ IsTruthValue enumName.text) (isScope : scope.kind = .scope)
    (memberWord : member.kind = .word) :
    Cuts [enumName, scope, member] (.reference enumName member) := by
  intro _ first part more whole present
  rcases List.cons.inj whole with ⟨rfl, rest⟩
  have spelled := SpellsChild.value (.reference word plain isScope memberWord)
  cases part with
  | nil =>
      rw [List.nil_append] at rest
      rw [rest] at spelled
      have failed := fails_of_word word plain
      have named := cutAtName_itself word plain spelled
      exact .halts ⟨_, childWith_of_stops nofun failed, Or.inr named⟩
        fun _ => ⟨_, failed, Or.inr named⟩
  | cons next part =>
      rcases List.cons.inj rest with ⟨rfl, remaining⟩
      cases part with
      | nil =>
          have failed : (Parser.value enumName).Fails [scope]
              { cause := .nameExpected .referenceMember none } [] := by
            rw [value_of_word word plain]
            refine fails_bind_iff.mpr (Or.inr ⟨some scope, [],
              reads_nextIf?_iff.mpr (Or.inl ⟨scope, rfl, isScope, rfl⟩), ?_⟩)
            exact fails_bind_iff.mpr (Or.inl fails_name_nil)
          have stops : Stops .equals [scope] := stops_cons (by simp [isScope])
          exact .halts ⟨_, childWith_of_stops stops failed, Or.inl rfl⟩
            fun _ => ⟨_, failed, Or.inl rfl⟩
      | cons last part =>
          rcases List.cons.inj remaining with ⟨_, atEnd⟩
          exact absurd (List.append_eq_nil_iff.mp atEnd.symm).2 present

/-- An equals sign with nothing behind it. -/
theorem fails_of_equals {nested : Token -> Parser Value} {name equals : Token}
    (named : name.kind = .word) (isEquals : equals.kind = .equals) :
    (childWith nested name).Fails [equals] { cause := .assignmentMissing name } [] := by
  rw [childWith, if_pos ((name.is_iff .word).mpr named)]
  refine fails_bind_iff.mpr (Or.inr ⟨some equals, [],
    reads_nextIf?_iff.mpr (Or.inl ⟨equals, rfl, isEquals, rfl⟩), ?_⟩)
  exact fails_bind_iff.mpr (Or.inr ⟨none, [], reads_next?_iff.mpr ⟨rfl, rfl⟩,
    fails_fail_iff.mpr ⟨rfl, rfl⟩⟩)

theorem cuts_assignment {name equals : Token} {taken : List Token} {value : Value}
    (named : name.kind = .word) (isEquals : equals.kind = .equals) (spelled : SpellsValue taken value)
    (cuts : Cuts taken value) : Cuts (name :: equals :: taken) (.assignment name value) := by
  intro uniform first part more whole present
  rcases List.cons.inj whole with ⟨rfl, rest⟩
  have unnamed := spelled.kind_ne_assignment
  cases uniform with
  | assignment uniform =>
      cases part with
      | nil =>
          by_cases truth : IsTruthValue name.text
          · have literal := SpellsChild.value (.literal (.bool named truth))
            exact .literal rfl (@childWith_complete _ 1 (readsValues 1) name [] [] _ Nat.zero_lt_one
              literal (.scalar _) apart_nil)
          · rw [List.nil_append] at rest
            have child := SpellsChild.assignment named isEquals spelled
            rw [rest] at child
            have failed := childWith_of_stops apart_nil.1 (fails_of_word named truth)
            exact .halts ⟨_, failed, Or.inr (cutAtName_itself named truth child)⟩
              fun impossible => absurd rfl impossible
      | cons next part =>
          rcases List.cons.inj rest with ⟨rfl, remaining⟩
          cases part with
          | nil =>
              exact .halts ⟨_, fails_of_equals named isEquals, Or.inl rfl⟩
                fun impossible => absurd rfl impossible
          | cons start part =>
              cases cuts uniform remaining present with
              | halts _ valueHalts =>
                  rcases valueHalts unnamed with ⟨diagnostic, failed, unblamed⟩
                  have child := fails_childWith_of_assigned named isEquals failed
                  have excepted := unblamed.imp_right fun cut : CutAtName _ _ _ =>
                    cut.assigned named isEquals unnamed
                  exact .halts ⟨diagnostic, child, excepted⟩ fun impossible => absurd rfl impossible
              | literal isAssignment _ => exact absurd isAssignment unnamed

theorem halts_compound {opening : Token} {part : List Token} {excepted : Prop}
    (opens : opening.kind = .openBrace)
    (halts : (braced .compoundValues fun _ first => childWith Parser.value first).Halts part excepted) :
    (Parser.value opening).Halts part excepted := by
  rcases halts with ⟨diagnostic, failed, unblamed⟩
  refine ⟨diagnostic.within .compound, ?_, unblamed⟩
  rw [value_of_openBrace opens]
  exact fails_compoundWith_iff.mpr ⟨diagnostic, rfl, Or.inl failed⟩

theorem cuts_compound {opening closing : Token} {body : List Token} {children : List Value}
    (opens : opening.kind = .openBrace)
    (listing : Listing (fun taken child => SpellsChild taken child ∧ Cuts taken child) body children)
    (closes : closing.kind = .closeBrace) :
    Cuts (opening :: (body ++ [closing]))
      (.compound opening closing (Value.shapeOf children) children) := by
  intro uniform first part more whole present
  rcases List.cons.inj whole with ⟨rfl, rest⟩
  rcases exists_of_cut rest present with ⟨remaining, split, rfl⟩
  cases uniform with
  | compound _ uniform =>
      have halts : (Parser.value opening).Halts part
          (CutAtName (InValue (.compound opening closing (Value.shapeOf children) children))
            (opening :: part) (remaining ++ [closing])) := by
        apply halts_compound opens
        rcases listing.cut split with ⟨front, earlier, ahead, rfl, listed, last⟩
        have front := listed.mono fun _ _ spelled => spelled.1
        rcases last with ⟨rfl, later, rfl⟩ | ⟨start, taken, next, back, child, later, rfl, some, rfl,
          ⟨spelled, cuts⟩, trail, rfl⟩
        · have admitted : forall value, value ∈ earlier -> value.Uniform :=
            fun value member => uniform value (List.mem_append_left later member)
          rw [List.append_nil]
          exact ⟨_, unclosed_of_listing (childWith_follows (readsValues _)) front
            (admitsAll_iff.mpr admitted), Or.inl rfl⟩
        · have admitted : forall value, value ∈ earlier -> value.Uniform :=
            fun value member => uniform value (List.mem_append_left _ member)
          refine halts_braced (childWith_follows (readsValues _)) front (admitsAll_iff.mpr admitted)
            (begins_of_cons spelled.begins) ?_
          cases cuts (uniform child (by simp)) rfl some with
          | halts childHalts _ =>
              refine Or.inl (childHalts.mono fun cut => ?_)
              rw [List.append_assoc]
              exact cut.listed opens front (trail.mono fun _ _ spelled => spelled.1) closes
          | literal _ read => exact Or.inr ⟨_, read⟩
      refine .halts ?_ fun _ => halts
      rw [childWith_of_openBrace opens]
      exact halts

theorem hereditary_cuts : Hereditary Cuts where
  literal := by
    intro token kind _ _ first part more whole present
    rcases List.cons.inj whole with ⟨_, rest⟩
    exact absurd (List.append_eq_nil_iff.mp rest.symm).2 present
  reference := cuts_reference
  assignment := cuts_assignment
  compound := cuts_compound

end Parser
end TypeSchema
