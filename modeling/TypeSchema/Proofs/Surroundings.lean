import TypeSchema.Proofs.Grammar

namespace TypeSchema
namespace Grammar

/-!
# What stands around an item or a value

An item of a listing has other items before it, and commas and other items
behind it.  A value inside another one has tokens of the other one before it
and behind it.  These surroundings are grammar of their own: whatever tokens
spell the item or the inner value, together with the surroundings they spell
the whole.
-/

variable {α : Type}

/-! ## Items -/

/-- What stands behind an item: its commas, and then the other items. -/
inductive Trail (item : List Token -> α -> Prop) : List Token -> List α -> Prop where
  | trail {commas behind : List Token} {values : List α} :
      (forall token, token ∈ commas -> token.kind = .comma) -> Listing item behind values ->
      Trail item (commas ++ behind) values

theorem Trail.mono {left right : List Token -> α -> Prop}
    (implies : forall taken value, left taken value -> right taken value) {behind : List Token}
    {values : List α} (trail : Trail left behind values) : Trail right behind values := by
  cases trail with
  | trail commas listing => exact .trail commas (listing.mono implies)

/-- More commas may stand behind an item. -/
theorem Trail.pad {item : List Token -> α -> Prop} {behind commas : List Token} {values : List α}
    (trail : Trail item behind values) (all : forall token, token ∈ commas -> token.kind = .comma) :
    Trail item (commas ++ behind) values := by
  cases trail with
  | trail own listing =>
      rw [← List.append_assoc]
      refine .trail ?_ listing
      intro token member
      rcases List.mem_append.mp member with new | old
      · exact all token new
      · exact own token old

theorem Listing.around {item : List Token -> α -> Prop} {before taken behind : List Token}
    {earlier later : List α} {value : α} (listing : Listing item before earlier)
    (spelled : item taken value) (trail : Trail item behind later) :
    Listing item (before ++ (taken ++ behind)) (earlier ++ value :: later) := by
  induction listing with
  | nil =>
      rw [List.nil_append, List.nil_append]
      cases trail with
      | trail commas listing => exact .cons spelled commas listing
  | cons other commas listing ih =>
      simp only [List.append_assoc]
      exact .cons other commas ih

theorem Trail.around {item : List Token -> α -> Prop} {behind taken back : List Token}
    {earlier later : List α} {value : α} (trail : Trail item behind earlier)
    (spelled : item taken value) (last : Trail item back later) :
    Trail item (behind ++ (taken ++ back)) (earlier ++ value :: later) := by
  cases trail with
  | trail commas listing =>
      rw [List.append_assoc]
      exact .trail commas (listing.around spelled last)

/-- Every item of a listing has its place in it. -/
theorem Listing.exists_place {item : List Token -> α -> Prop} {body : List Token} {values : List α}
    (listing : Listing item body values) {value : α} (member : value ∈ values) :
    Exists fun before => Exists fun taken => Exists fun behind =>
      Exists fun earlier => Exists fun later =>
        body = before ++ (taken ++ behind) ∧ values = earlier ++ value :: later ∧
          Listing item before earlier ∧ item taken value ∧ Trail item behind later := by
  induction listing with
  | nil => cases member
  | @cons taken commas behind first values spelled areCommas listing ih =>
      rcases List.mem_cons.mp member with rfl | inside
      · exact ⟨[], taken, commas ++ behind, [], values, rfl, rfl, .nil, spelled,
          .trail areCommas listing⟩
      · rcases ih inside with
          ⟨before, own, after, earlier, later, rfl, rfl, listed, ownSpelled, trail⟩
        exact ⟨taken ++ (commas ++ before), own, after, first :: earlier, later,
          by simp only [List.append_assoc], rfl, .cons spelled areCommas listed, ownSpelled, trail⟩

/-- Every item of a listing is spelled by some of its tokens. -/
theorem Listing.exists_of_mem {item : List Token -> α -> Prop} {body : List Token} {values : List α}
    (listing : Listing item body values) {value : α} (member : value ∈ values) :
    Exists fun taken => item taken value := by
  rcases listing.exists_place member with ⟨_, taken, _, _, _, _, _, _, spelled, _⟩
  exact ⟨taken, spelled⟩

/-- A part of a listing is made of complete items, and possibly of the beginning
of one more. -/
theorem Listing.cut {item : List Token -> α -> Prop} {body : List Token} {values : List α}
    (listing : Listing item body values) {part more : List Token} (whole : body = part ++ more) :
    Exists fun front => Exists fun earlier => Exists fun ahead => part = front ++ ahead ∧
      Listing item front earlier ∧
        ((ahead = [] ∧ Exists fun later => values = earlier ++ later) ∨
          Exists fun first => Exists fun taken => Exists fun next => Exists fun back =>
            Exists fun value => Exists fun later => ahead = first :: taken ∧ next ≠ [] ∧
              more = next ++ back ∧ item (first :: (taken ++ next)) value ∧ Trail item back later ∧
                values = earlier ++ value :: later) := by
  induction listing generalizing part with
  | nil =>
      rcases List.append_eq_nil_iff.mp whole.symm with ⟨rfl, rfl⟩
      exact ⟨[], [], [], rfl, .nil, Or.inl ⟨rfl, [], rfl⟩⟩
  | @cons taken commas behind value values spelled areCommas listing ih =>
      rcases List.append_eq_append_iff.mp whole with ⟨passed, rfl, split⟩ | ⟨next, rfl, split⟩
      · rcases List.append_eq_append_iff.mp split with ⟨others, rfl, later⟩ | ⟨others, rfl, later⟩
        · rcases ih later with ⟨front, earlier, ahead, rfl, listed, outcome⟩
          refine ⟨taken ++ (commas ++ front), value :: earlier, ahead, ?_,
            .cons spelled areCommas listed, ?_⟩
          · simp only [List.append_assoc]
          · rcases outcome with ⟨atEnd, remaining, rfl⟩ | ⟨first, own, next, back, item, remaining,
              isAhead, present, rest, itemSpelled, trail, rfl⟩
            · exact Or.inl ⟨atEnd, remaining, rfl⟩
            · exact Or.inr ⟨first, own, next, back, item, remaining, isAhead, present, rest,
                itemSpelled, trail, rfl⟩
        · refine ⟨taken ++ (passed ++ []), [value], [], by simp, .cons spelled ?_ .nil,
            Or.inl ⟨rfl, values, rfl⟩⟩
          intro token member
          exact areCommas token (List.mem_append_left others member)
      · cases next with
        | nil =>
            rw [List.append_nil] at spelled
            exact ⟨part ++ ([] ++ []), [value], [], by simp, .cons spelled nofun .nil,
              Or.inl ⟨rfl, values, rfl⟩⟩
        | cons token next =>
            cases part with
            | nil => exact ⟨[], [], [], rfl, .nil, Or.inl ⟨rfl, _, rfl⟩⟩
            | cons first part =>
                exact ⟨[], [], first :: part, rfl, .nil, Or.inr ⟨first, part, token :: next,
                  commas ++ behind, value, values, rfl, List.cons_ne_nil token next, split, spelled,
                  .trail areCommas listing, rfl⟩⟩

/-! ## Values -/

/-- The tokens before an inner value and behind it, and the number of lists of
the outer value around it. -/
inductive Surrounds : (before behind : List Token) -> (depth : Nat) -> (inner outer : Value) -> Prop where
  | itself {value : Value} : Surrounds [] [] 0 value value
  | assigned {name equals : Token} {before behind : List Token} {depth : Nat}
      {inner value : Value} :
      name.kind = .word -> equals.kind = .equals -> value.kind ≠ .assignment ->
      Surrounds before behind depth inner value ->
      Surrounds (name :: equals :: before) behind depth inner (.assignment name value)
  | listed {opening closing : Token} {front before behind back : List Token} {depth : Nat}
      {inner child : Value} {earlier later : List Value} :
      opening.kind = .openBrace -> Listing SpellsChild front earlier ->
      Surrounds before behind depth inner child ->
      Trail SpellsChild back later -> closing.kind = .closeBrace ->
      Surrounds (opening :: (front ++ before)) (behind ++ (back ++ [closing])) (depth + 1) inner
        (.compound opening closing (Value.shapeOf (earlier ++ child :: later))
          (earlier ++ child :: later))

/-- Whatever spells the inner value, which may be a child of a list, spells the
outer one together with what stands around it. -/
theorem Surrounds.spellsChild {before behind own : List Token} {depth : Nat} {inner outer : Value}
    (surrounds : Surrounds before behind depth inner outer) (spelled : SpellsChild own inner) :
    SpellsChild (before ++ (own ++ behind)) outer := by
  induction surrounds with
  | itself =>
      rw [List.nil_append, List.append_nil]
      exact spelled
  | assigned word equals unnamed _ ih =>
      exact .assignment word equals ((ih spelled).value_of_kind unnamed)
  | @listed opening closing front before behind back depth inner child earlier later opens listing
      _ trail closes ih =>
      have body := listing.around (ih spelled) trail
      have whole : opening :: (front ++ before) ++ (own ++ (behind ++ (back ++ [closing]))) =
          opening :: (front ++ (before ++ (own ++ behind) ++ back) ++ [closing]) := by
        simp only [List.cons_append, List.append_assoc]
      rw [whole]
      exact .value (.compound opens body closes)

theorem Surrounds.spells {before behind own : List Token} {depth : Nat} {inner outer : Value}
    (surrounds : Surrounds before behind depth inner outer) (spelled : SpellsValue own inner) :
    SpellsChild (before ++ (own ++ behind)) outer :=
  surrounds.spellsChild (.value spelled)

/-! ## Definitions -/

/-- The tokens of a field before a value, or a child of a list, in its default
value, and those behind it. -/
inductive FieldSurrounds : Field -> (before behind : List Token) -> (inner : Value) -> Prop where
  | field {typeName name equals : Token} {mark before behind : List Token} {isArray : Bool}
      {depth : Nat} {inner value : Value} :
      typeName.kind = .word -> name.kind = .word -> SpellsArrayMark mark isArray ->
      equals.kind = .equals -> value.kind ≠ .assignment -> Surrounds before behind depth inner value ->
      FieldSurrounds { typeName, name, isArray, defaultValue := some value }
        (typeName :: name :: (mark ++ equals :: before)) behind inner

/-- The tokens of a definition before a value, or a child of a list, in a default
value, and those behind it. -/
inductive DefinitionSurrounds :
    Definition -> (before behind : List Token) -> (inner : Value) -> Prop where
  | type {keyword name opening closing : Token} {ancestry front before behind back : List Token}
      {parent : Option Token} {inner : Value} {earlier later : List Field} {field : Field} :
      keyword.kind = .word -> keyword.text = "type" -> name.kind = .word ->
      SpellsParent ancestry parent -> opening.kind = .openBrace ->
      Listing SpellsField front earlier -> FieldSurrounds field before behind inner ->
      Trail SpellsField back later -> closing.kind = .closeBrace ->
      DefinitionSurrounds (.type { keyword, name, parent, fields := earlier ++ field :: later })
        (keyword :: name :: (ancestry ++ opening :: (front ++ before)))
        (behind ++ (back ++ [closing])) inner

theorem FieldSurrounds.spells {before behind own : List Token} {inner : Value} {field : Field}
    (surrounds : FieldSurrounds field before behind inner) (spelled : SpellsChild own inner) :
    SpellsField (before ++ (own ++ behind)) field := by
  cases surrounds with
  | field typed named mark equals unnamed surrounds =>
      have initial := SpellsDefault.present equals
        ((surrounds.spellsChild spelled).value_of_kind unnamed)
      have whole := SpellsField.field typed named mark initial
      simpa only [List.append_assoc, List.cons_append] using whole

/-- Whatever spells the inner value spells the definition together with what
stands around it. -/
theorem DefinitionSurrounds.spells {before behind own : List Token} {inner : Value}
    {definition : Definition} (surrounds : DefinitionSurrounds definition before behind inner)
    (spelled : SpellsChild own inner) : SpellsDefinition (before ++ (own ++ behind)) definition := by
  cases surrounds with
  | type word spelling named parent opens listing surrounds trail closes =>
      have whole := SpellsDefinition.type word spelling named parent opens
        (listing.around (surrounds.spells spelled) trail) closes
      simpa only [List.append_assoc, List.cons_append] using whole

end Grammar
end TypeSchema
