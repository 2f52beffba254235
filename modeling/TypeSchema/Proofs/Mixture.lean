import TypeSchema.Proofs.Registry

namespace TypeSchema
namespace Grammar

/-!
# Lists of mixed values

A spelled value may hold lists whose children do not agree in kind, side by
side or one inside another.  Each of them has its place in the tokens, and
since no two lists are closed by one brace, one of them is closed first.
-/

/-- The children do not agree in kind: the first one is `first`, and the first
one of another kind is `other`. -/
inductive Mixes : (children : List Value) -> (first other : Value) -> Prop where
  | mixes {first other : Value} {same later : List Value} :
      (forall child, child ∈ same -> child.kind = first.kind) -> other.kind ≠ first.kind ->
      Mixes (first :: (same ++ other :: later)) first other

theorem mismatch?_eq_some_iff {children : List Value} {kind : Value.Kind} {other : Value} :
    Value.mismatch? children = some (kind, other) <->
      Exists fun first => kind = first.kind ∧ Mixes children first other := by
  cases children with
  | nil =>
      constructor
      · intro impossible
        cases impossible
      · intro given
        rcases given with ⟨first, _, impossible⟩
        cases impossible
  | cons first others =>
      simp only [Value.mismatch?, Option.map_eq_some_iff, List.find?_eq_some_iff_append, bne_iff_ne,
        Bool.not_eq_true', bne_eq_false_iff_eq, Prod.mk.injEq]
      constructor
      · intro given
        rcases given with ⟨found, ⟨differs, same, later, rfl, agree⟩, rfl, rfl⟩
        exact ⟨first, rfl, .mixes agree differs⟩
      · intro given
        rcases given with ⟨_, rfl, mixes⟩
        cases mixes with
        | @mixes _ _ same later agree differs =>
            exact ⟨other, ⟨differs, same, later, rfl, agree⟩, rfl, rfl⟩

/-- A list of mixed values stands in a spelled value, with `depth` lists around
it and with these tokens behind its closing brace. -/
def HoldsMixture (taken : List Token) (tree : Value) (depth : Nat) (first other : Value)
    (behind : List Token) : Prop :=
  Exists fun before => Exists fun own => Exists fun opening => Exists fun closing =>
    Exists fun shape => Exists fun children =>
      taken = before ++ (own ++ behind) ∧
        SpellsValue own (.compound opening closing shape children) ∧
        Surrounds before behind depth (.compound opening closing shape children) tree ∧
        Mixes children first other

/-- No other list of mixed values in the spelled value is closed before this
one. -/
structure FirstMixture (taken : List Token) (tree : Value) (depth : Nat) (first other : Value)
    (behind : List Token) : Prop where
  holds : HoldsMixture taken tree depth first other behind
  earliest : forall {otherDepth otherFirst otherOther otherBehind},
    HoldsMixture taken tree otherDepth otherFirst otherOther otherBehind ->
      otherBehind.length ≤ behind.length

section Lift

variable {taken behind : List Token} {tree first other : Value} {depth : Nat}

theorem HoldsMixture.length_le (mixture : HoldsMixture taken tree depth first other behind) :
    behind.length ≤ taken.length := by
  rcases mixture with ⟨before, own, _, _, _, _, rfl, _⟩
  simp only [List.length_append]
  omega

theorem HoldsMixture.assigned {name equals : Token} (word : name.kind = .word)
    (isEquals : equals.kind = .equals) (unnamed : tree.kind ≠ .assignment)
    (mixture : HoldsMixture taken tree depth first other behind) :
    HoldsMixture (name :: equals :: taken) (.assignment name tree) depth first other behind := by
  rcases mixture with ⟨before, own, opening, closing, shape, children, rfl, spelled, surrounds, mixes⟩
  exact ⟨name :: equals :: before, own, opening, closing, shape, children, rfl, spelled,
    .assigned word isEquals unnamed surrounds, mixes⟩

theorem HoldsMixture.listed {opening closing : Token} {front back : List Token}
    {earlier later : List Value} (opens : opening.kind = .openBrace)
    (listing : Listing SpellsChild front earlier)
    (mixture : HoldsMixture taken tree depth first other behind)
    (trail : Trail SpellsChild back later) (closes : closing.kind = .closeBrace) :
    HoldsMixture (opening :: (front ++ (taken ++ back) ++ [closing]))
      (.compound opening closing (Value.shapeOf (earlier ++ tree :: later)) (earlier ++ tree :: later))
      (depth + 1) first other (behind ++ (back ++ [closing])) := by
  rcases mixture with ⟨before, own, inner, last, shape, children, rfl, spelled, surrounds, mixes⟩
  refine ⟨opening :: (front ++ before), own, inner, last, shape, children, ?_, spelled,
    .listed opens listing surrounds trail closes, mixes⟩
  simp only [List.cons_append, List.append_assoc]

end Lift

/-- A value whose lists do not all agree in kind holds a list that does not. -/
theorem holdsMixture_of_not_uniform : Hereditary fun taken tree => ¬ tree.Uniform ->
    Exists fun depth => Exists fun first => Exists fun other => Exists fun behind =>
      HoldsMixture taken tree depth first other behind where
  literal _ mixed := absurd (.scalar _) mixed
  reference _ _ _ _ mixed := absurd (.reference _ _) mixed
  assignment := by
    intro name equals taken value word isEquals spelled inner mixed
    rcases inner fun uniform => mixed (.assignment uniform) with ⟨depth, first, other, behind, mixture⟩
    exact ⟨depth, first, other, behind, mixture.assigned word isEquals spelled.kind_ne_assignment⟩
  compound := by
    intro opening closing body children opens listing closes mixed
    have plain : Listing SpellsChild body children := listing.mono fun _ _ spelled => spelled.1
    cases judged : Value.mismatch? children with
    | some found =>
        rcases mismatch?_eq_some_iff.mp judged with ⟨first, _, mixes⟩
        exact ⟨0, first, found.2, [], [], _, opening, closing, _, children,
          by rw [List.nil_append, List.append_nil], .compound opens plain closes, .itself, mixes⟩
    | none =>
        have exception : Exists fun child => child ∈ children ∧ ¬ child.Uniform := by
          apply Classical.byContradiction
          intro none
          refine mixed (.compound (Parser.mismatch?_eq_none_iff.mp judged) ?_)
          intro child member
          exact Classical.byContradiction fun notUniform => none ⟨child, member, notUniform⟩
        rcases exception with ⟨child, member, childMixed⟩
        rcases listing.exists_place member with
          ⟨front, own, back, earlier, later, rfl, rfl, listed, ⟨_, inner⟩, trail⟩
        rcases inner childMixed with ⟨depth, first, other, behind, mixture⟩
        have lifted := mixture.listed opens (listed.mono fun _ _ spelled => spelled.1)
          (trail.mono fun _ _ spelled => spelled.1) closes
        exact ⟨depth + 1, first, other, _, lifted⟩

/-- If every list of mixed values is closed behind a child, none stands in the
child. -/
theorem uniform_of_closed_behind {opening closing : Token} {front taken back : List Token}
    {earlier later : List Value} {child : Value} {limit : Nat} (opens : opening.kind = .openBrace)
    (listing : Listing SpellsChild front earlier) (spelled : SpellsChild taken child)
    (trail : Trail SpellsChild back later) (closes : closing.kind = .closeBrace)
    (closed : forall {depth first other behind},
      HoldsMixture (opening :: (front ++ (taken ++ back) ++ [closing]))
        (.compound opening closing (Value.shapeOf (earlier ++ child :: later)) (earlier ++ child :: later))
        depth first other behind -> behind.length ≤ limit)
    (short : limit ≤ back.length) : child.Uniform := by
  apply Classical.byContradiction
  intro mixed
  rcases holdsMixture_of_not_uniform.child spelled mixed with ⟨_, _, _, _, inside⟩
  have bounded := closed (inside.listed opens listing trail closes)
  simp only [List.length_append, List.length_singleton] at bounded
  omega

/-- Of the lists of mixed values in a spelled value, one is closed first. -/
theorem HoldsMixture.exists_first {taken behind : List Token} {tree first other : Value} {depth : Nat}
    (mixture : HoldsMixture taken tree depth first other behind) :
    Exists fun depth => Exists fun first => Exists fun other => Exists fun behind =>
      FirstMixture taken tree depth first other behind := by
  -- A list that is closed earlier has more tokens behind it, but never more than all.
  induction size : taken.length - behind.length using Nat.strongRecOn
    generalizing behind first other depth with
  | ind size ih =>
      by_cases beaten : Exists fun otherDepth => Exists fun otherFirst => Exists fun otherOther =>
          Exists fun otherBehind => HoldsMixture taken tree otherDepth otherFirst otherOther otherBehind ∧
            behind.length < otherBehind.length
      · rcases beaten with ⟨_, _, _, otherBehind, earlier, longer⟩
        have bounded := earlier.length_le
        exact ih (taken.length - otherBehind.length) (by omega) earlier rfl
      · refine ⟨depth, first, other, behind, mixture, ?_⟩
        intro otherDepth otherFirst otherOther otherBehind earlier
        apply Nat.le_of_not_lt
        intro longer
        exact beaten ⟨otherDepth, otherFirst, otherOther, otherBehind, earlier, longer⟩

end Grammar
end TypeSchema
