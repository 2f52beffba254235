import TypeSchema.Proofs.Recognition.Braced
import TypeSchema.Parser.Value

namespace TypeSchema
namespace Parser

open Grammar

/-!
# Values are read as the grammar spells them

A value ends by itself, so its reader reads exactly what the rule spells, and
whatever stands behind.  Only a child of a list may be continued: a word that
is a value becomes a name if an equals sign follows it.
-/

variable {α : Type}

/-- A reader of values reads exactly the values of the grammar whose lists
agree in kind, on fewer tokens than `bound`. -/
def ReadsValues (nested : Token -> Parser Value) (bound : Nat) : Prop :=
  forall first tokens value rest, tokens.length < bound ->
    ((nested first).Reads tokens value rest <->
      Exists fun taken => tokens = taken ++ rest ∧ SpellsValue (first :: taken) value ∧
        value.Uniform)

theorem reads_assignmentWith_iff {nested : Token -> Parser Value} {bound : Nat}
    (readsValues : ReadsValues nested bound) {target : Token} {tokens rest : List Token}
    {value : Value} (short : tokens.length < bound) :
    (assignmentWith nested target).Reads tokens value rest <->
      Exists fun taken => Exists fun inner => tokens = taken ++ rest ∧ SpellsValue taken inner ∧
        inner.Uniform ∧ value = .assignment target inner := by
  simp only [assignmentWith, reads_bind_iff, reads_next?_iff]
  cases tokens with
  | nil =>
      constructor
      · intro given
        rcases given with ⟨_, _, ⟨rfl, _⟩, failed⟩
        exact (reads_fail_iff.mp failed).elim
      · intro given
        rcases given with ⟨taken, inner, whole, spelled, _⟩
        rcases spelled.begins with ⟨first, behind, rfl, _⟩
        cases whole
  | cons first behind =>
      rw [List.length_cons] at short
      have exactly := fun inner => readsValues first behind inner rest (by omega)
      constructor
      · intro given
        rcases given with ⟨_, _, ⟨rfl, rfl⟩, read⟩
        rcases reads_bind_iff.mp read with ⟨inner, left, innerRead, made⟩
        rcases reads_pure_iff.mp made with ⟨rfl, rfl⟩
        rcases (exactly inner).mp innerRead with ⟨taken, split, spelled, uniform⟩
        exact ⟨first :: taken, inner, by rw [split, List.cons_append], spelled, uniform, rfl⟩
      · intro given
        rcases given with ⟨taken, inner, whole, spelled, uniform, rfl⟩
        rcases spelled.begins with ⟨front, taken, rfl, _⟩
        rcases List.cons.inj whole with ⟨rfl, split⟩
        refine ⟨some first, behind, ⟨rfl, rfl⟩, reads_bind_iff.mpr ⟨inner, rest, ?_, ?_⟩⟩
        · exact (exactly inner).mpr ⟨taken, split, spelled, uniform⟩
        · exact reads_pure_iff.mpr ⟨rfl, rfl⟩

theorem childWith_sound {nested : Token -> Parser Value} {bound : Nat}
    (readsValues : ReadsValues nested bound) {first : Token} {tokens rest : List Token}
    {value : Value} (short : tokens.length < bound)
    (read : (childWith nested first).Reads tokens value rest) :
    Exists fun taken => tokens = taken ++ rest ∧ SpellsChild (first :: taken) value ∧
      value.Uniform := by
  have unnamed : (nested first).Reads tokens value rest ->
      Exists fun taken => tokens = taken ++ rest ∧ SpellsChild (first :: taken) value ∧
        value.Uniform := by
    intro valueRead
    rcases (readsValues first tokens value rest short).mp valueRead with
      ⟨taken, split, spelled, uniform⟩
    exact ⟨taken, split, .value spelled, uniform⟩
  rw [childWith] at read
  split at read
  · next isWord =>
      have word := (first.is_iff .word).mp isWord
      rcases reads_bind_iff.mp read with ⟨found, behind, ahead, later⟩
      rcases reads_nextIf?_iff.mp ahead with ⟨equals, rfl, kind, rfl⟩ | ⟨rfl, rfl, _⟩
      · rcases (reads_assignmentWith_iff readsValues (Nat.lt_of_succ_lt short)).mp later with
          ⟨taken, inner, split, spelled, uniform, rfl⟩
        exact ⟨equals :: taken, by rw [split, List.cons_append], .assignment word kind spelled,
          .assignment uniform⟩
      · exact unnamed later
  · exact unnamed read

theorem childWith_complete {nested : Token -> Parser Value} {bound : Nat}
    (readsValues : ReadsValues nested bound) {first : Token} {taken rest : List Token}
    {value : Value} (short : (taken ++ rest).length < bound)
    (spelled : SpellsChild (first :: taken) value) (uniform : value.Uniform) (apart : Apart rest) :
    (childWith nested first).Reads (taken ++ rest) value rest := by
  cases spelled with
  | @assignment _ equals inner value word kind spelled =>
      cases uniform with
      | assignment uniform =>
          have read : (assignmentWith nested first).Reads (inner ++ rest) (.assignment first value) rest :=
            (reads_assignmentWith_iff readsValues (Nat.lt_of_succ_lt short)).mpr
              ⟨inner, value, rfl, spelled, uniform, rfl⟩
          rw [childWith, if_pos ((first.is_iff .word).mpr word)]
          exact reads_bind_iff.mpr ⟨some equals, inner ++ rest,
            reads_nextIf?_iff.mpr (Or.inl ⟨equals, rfl, kind, rfl⟩), read⟩
  | value spelled =>
      have read := (readsValues first (taken ++ rest) value rest short).mpr
        ⟨taken, rfl, spelled, uniform⟩
      rw [childWith]
      split
      · -- An equals sign ahead would have been taken for an assignment.
        have ahead : Stops .equals (taken ++ rest) := by
          cases spelled with
          | literal => exact apart.1
          | reference word plain scope member => exact stops_cons (by simp [scope])
          | compound opens listing closes => simp_all
        exact reads_bind_iff.mpr ⟨none, taken ++ rest,
          reads_nextIf?_iff.mpr (Or.inr ⟨rfl, rfl, ahead⟩), read⟩
      · exact read

theorem childWith_follows {nested : Token -> Parser Value} {bound : Nat}
    (readsValues : ReadsValues nested bound) :
    Follows (fun _ first => childWith nested first) SpellsChild (fun _ child => child.Uniform)
      bound where
  begins := SpellsChild.begins
  sound := childWith_sound readsValues
  complete := childWith_complete readsValues

theorem admitsAll_iff {admits : α -> Prop} {earlier values : List α} :
    AdmitsAll (fun _ => admits) earlier values <-> forall value, value ∈ values -> admits value := by
  induction values generalizing earlier with
  | nil => simp [AdmitsAll]
  | cons value values ih => simp [AdmitsAll, ih]

/-- No child differs in kind from the first one exactly if no two differ. -/
theorem mismatch?_eq_none_iff {children : List Value} :
    Value.mismatch? children = none <->
      forall left, left ∈ children -> forall right, right ∈ children -> left.kind = right.kind := by
  cases children with
  | nil => simp [Value.mismatch?]
  | cons first others =>
      simp only [Value.mismatch?, Option.map_eq_none_iff, List.find?_eq_none, bne_iff_ne,
        Decidable.not_not]
      constructor
      · intro same
        have all : forall child, child ∈ first :: others -> child.kind = first.kind := by
          intro child member
          rcases List.mem_cons.mp member with rfl | later
          · rfl
          · exact same child later
        intro left leftMember right rightMember
        rw [all left leftMember, all right rightMember]
      · intro same child member
        exact same child (List.mem_cons_of_mem _ member) first (List.mem_cons_self ..)

theorem reads_compoundWith_iff {nested : Token -> Parser Value} {bound : Nat}
    (readsValues : ReadsValues nested bound) {opening : Token} (opens : opening.kind = .openBrace)
    {tokens rest : List Token} {value : Value} (short : tokens.length ≤ bound) :
    (compoundWith nested opening).Reads tokens value rest <->
      Exists fun taken => tokens = taken ++ rest ∧ SpellsValue (opening :: taken) value ∧
        value.Uniform := by
  simp only [compoundWith, reads_within_iff, reads_bind_iff]
  constructor
  · intro given
    rcases given with ⟨⟨children, closing⟩, behind, listRead, later⟩
    rcases (reads_braced_iff (childWith_follows readsValues) short).mp listRead with
      ⟨body, whole, closes, listing, admitted⟩
    simp only at later
    split at later
    · exact (reads_fail_iff.mp later).elim
    · next agree =>
        rcases reads_bind_iff.mp later with ⟨_, left, emitted, made⟩
        rcases reads_emit_iff.mp emitted with rfl
        rcases reads_pure_iff.mp made with ⟨rfl, rfl⟩
        exact ⟨body ++ [closing], by rw [whole, List.append_assoc, List.singleton_append],
          .compound opens listing closes,
          .compound (mismatch?_eq_none_iff.mp agree) (admitsAll_iff.mp admitted)⟩
  · intro given
    rcases given with ⟨taken, whole, spelled, uniform⟩
    cases spelled with
    | literal literal => cases literal <;> simp_all
    | reference word => simp [opens] at word
    | @compound _ closing body children _ listing closes =>
        cases uniform with
        | compound agree inner =>
            refine ⟨(children, closing), rest, ?_, ?_⟩
            · exact (reads_braced_iff (childWith_follows readsValues) short).mpr
                ⟨body, by rw [whole, List.append_assoc, List.singleton_append], closes, listing,
                  admitsAll_iff.mpr inner⟩
            · simp only [mismatch?_eq_none_iff.mpr agree]
              exact reads_bind_iff.mpr ⟨(), rest, reads_emit_iff.mpr rfl,
                reads_pure_iff.mpr ⟨rfl, rfl⟩⟩

theorem spellsValue_literal_iff {first : Token} {kind : Scalar.Kind}
    (literal : IsLiteral first kind) {taken : List Token} {value : Value} :
    SpellsValue (first :: taken) value <->
      taken = [] ∧ value = .scalar { kind, token := first } := by
  constructor
  · intro spelled
    cases spelled with
    | literal other => cases literal <;> cases other <;> simp_all
    | reference word => cases literal <;> simp_all
    | compound opens => cases literal <;> simp_all
  · intro given
    rcases given with ⟨rfl, rfl⟩
    exact .literal literal

/-- A literal is read without a look at the other tokens. -/
theorem reads_literal_iff {first : Token} {kind : Scalar.Kind} (literal : IsLiteral first kind)
    {tokens rest : List Token} {value : Value} :
    (pure (.scalar { kind, token := first }) : Parser Value).Reads tokens value rest <->
      Exists fun taken => tokens = taken ++ rest ∧ SpellsValue (first :: taken) value ∧
        value.Uniform := by
  rw [reads_pure_iff]
  constructor
  · intro given
    rcases given with ⟨same, whole⟩
    exact ⟨[], whole.symm, (spellsValue_literal_iff literal).mpr ⟨rfl, same⟩, same ▸ .scalar _⟩
  · intro given
    rcases given with ⟨taken, whole, spelled, _⟩
    rcases (spellsValue_literal_iff literal).mp spelled with ⟨rfl, same⟩
    exact ⟨same, whole.symm⟩

theorem reads_reference_iff {enumName : Token} (word : enumName.kind = .word)
    (plain : ¬ IsTruthValue enumName.text) {tokens rest : List Token} {value : Value} :
    (nextIf? .scope >>= fun found =>
        match found with
        | some _ => reference enumName
        | none => fail (.valueExpected enumName)).Reads tokens value rest <->
      Exists fun taken => tokens = taken ++ rest ∧ SpellsValue (enumName :: taken) value ∧
        value.Uniform := by
  rw [reads_bind_iff]
  constructor
  · intro given
    rcases given with ⟨found, behind, ahead, later⟩
    rcases reads_nextIf?_iff.mp ahead with ⟨scope, rfl, kind, rfl⟩ | ⟨rfl, _⟩
    · rcases reads_bind_iff.mp later with ⟨member, left, named, made⟩
      rcases reads_name_iff.mp named with ⟨memberWord, rfl⟩
      rcases reads_pure_iff.mp made with ⟨rfl, rfl⟩
      exact ⟨[scope, member], rfl, .reference word plain kind memberWord, .reference _ _⟩
    · exact (reads_fail_iff.mp later).elim
  · intro given
    rcases given with ⟨taken, rfl, spelled, _⟩
    cases spelled with
    | literal literal => cases literal <;> simp_all
    | @reference _ scope member _ _ kind memberWord =>
        exact ⟨some scope, member :: rest, reads_nextIf?_iff.mpr (Or.inl ⟨scope, rfl, kind, rfl⟩),
          reads_bind_iff.mpr ⟨member, rest, reads_name_iff.mpr ⟨memberWord, rfl⟩,
            reads_pure_iff.mpr ⟨rfl, rfl⟩⟩⟩
    | compound opens => simp [word] at opens

theorem reads_valueWith_iff {nested : Token -> Parser Value} {bound : Nat}
    (readsValues : ReadsValues nested bound) {first : Token} {tokens rest : List Token}
    {value : Value} (short : tokens.length ≤ bound) :
    (valueWith nested first).Reads tokens value rest <->
      Exists fun taken => tokens = taken ++ rest ∧ SpellsValue (first :: taken) value ∧
        value.Uniform := by
  rw [valueWith]
  split
  · next opens => exact reads_compoundWith_iff readsValues opens short
  · next kind => exact reads_literal_iff (.int kind)
  · next kind => exact reads_literal_iff (.float kind)
  · next kind => exact reads_literal_iff (.string kind)
  · next word =>
      split
      · next truth => exact reads_literal_iff (.bool word truth)
      · next plain => exact reads_reference_iff word plain
  · next noBrace noInt noFloat noString noWord =>
      rw [reads_fail_iff, false_iff]
      intro given
      rcases given with ⟨taken, _, spelled, _⟩
      cases spelled with
      | literal literal => cases literal <;> simp_all
      | reference word => exact noWord word
      | compound opens => exact noBrace opens

/-- A value is read exactly if it is spelled and its lists agree in kind. -/
theorem reads_value_iff {first : Token} {tokens rest : List Token} {value : Value} :
    (Parser.value first).Reads tokens value rest <->
      Exists fun taken => tokens = taken ++ rest ∧ SpellsValue (first :: taken) value ∧
        value.Uniform := by
  -- Nested values stand behind the first token, so the induction is on the number of tokens.
  induction size : tokens.length using Nat.strongRecOn generalizing first tokens value rest with
  | ind size ih =>
      have nested : ReadsValues Parser.value tokens.length := by
        intro first others value rest short
        exact ih others.length (size ▸ short) rfl
      rw [value_eq]
      exact reads_valueWith_iff nested (Nat.le_refl _)

end Parser
end TypeSchema
