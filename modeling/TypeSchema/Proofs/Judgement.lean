import TypeSchema.Proofs.Refusal

namespace TypeSchema
namespace Parser

open Grammar

/-!
# Mixed values are reported

A list of values is judged when its closing brace is met.  Of several lists of
mixed values the one that is closed first is therefore reported, however deep
it stands; the lists around it, mixed or not, only show in the message.  And a
list that is never closed is never judged.
-/

/-- What is said about a list of mixed values with `depth` lists around it. -/
def mixture (depth : Nat) (first other : Value) : Diagnostic where
  context := List.replicate (depth + 1) .compound
  cause := .mixedCompound first.kind other.kind other.token

theorem mixture_within (depth : Nat) (first other : Value) :
    (mixture depth first other).within .compound = mixture (depth + 1) first other :=
  rfl

/-- Each list around a failure shows in its message. -/
theorem message_compounds (count : Nat) (cause : Cause) :
    Diagnostic.message { context := List.replicate count .compound, cause } =
      String.join (List.replicate count "compound value: ") ++ cause.message := by
  induction count with
  | zero => simp [Diagnostic.message, String.join]
  | succ count ih =>
      rw [List.replicate_succ, Diagnostic.message_cons, ih, List.replicate_succ, String.join_cons]
      simp only [String.append_assoc]
      rfl

/-- Around a list there are lists and assignments only. -/
theorem kind_of_surrounds {before behind : List Token} {depth : Nat} {inner outer : Value}
    (surrounds : Surrounds before behind depth inner outer) (isList : inner.kind = .compound)
    (unnamed : outer.kind ≠ .assignment) : outer.kind = .compound := by
  cases surrounds with
  | itself => exact isList
  | assigned => exact absurd rfl unnamed
  | listed => rfl

theorem opens_of_compound {first : Token} {taken : List Token} {value : Value}
    (spelled : SpellsValue (first :: taken) value) (isList : value.kind = .compound) :
    first.kind = .openBrace := by
  cases spelled with
  | literal => cases isList
  | reference => cases isList
  | compound opens => exact opens

/-- The list of mixed values that is closed first is the one that is reported. -/
theorem fails_of_firstMixture {before own behind taken : List Token} {depth : Nat}
    {opening closing first : Token} {shape : Shape} {children : List Value}
    {expected other tree : Value}
    (surrounds : Surrounds before behind depth (.compound opening closing shape children) tree)
    (spelled : SpellsValue own (.compound opening closing shape children))
    (mixes : Mixes children expected other)
    (earliest : forall {otherDepth otherFirst otherOther otherBehind},
      HoldsMixture (before ++ (own ++ behind)) tree otherDepth otherFirst otherOther otherBehind ->
        otherBehind.length ≤ behind.length)
    (whole : before ++ (own ++ behind) = first :: taken) (rest : List Token) :
    (childWith Parser.value first).Fails (taken ++ rest) (mixture depth expected other)
      (behind ++ rest) := by
  generalize same : Value.compound opening closing shape children = inner at surrounds spelled
  induction surrounds generalizing first taken rest with
  | itself =>
      subst same
      simp only [List.nil_append, List.append_nil] at whole earliest ⊢
      cases spelled with
      | @compound _ _ body _ opens listing closes =>
          rcases List.cons.inj whole with ⟨rfl, rfl⟩
          have uniform : forall child, child ∈ children -> child.Uniform := by
            intro child member
            rcases listing.exists_place member with
              ⟨front, childOwn, back, earlier, later, rfl, rfl, listed, childSpelled, trail⟩
            exact uniform_of_closed_behind opens listed childSpelled trail closes earliest
              (Nat.zero_le _)
          rw [childWith_of_openBrace opens, value_of_openBrace opens]
          refine fails_compoundWith_iff.mpr ⟨_, rfl, Or.inr ⟨children, closing, expected, other, ?_,
            mixes, rfl⟩⟩
          refine (reads_braced_iff (childWith_follows (readsValues _)) (Nat.le_refl _)).mpr
            ⟨body, ?_, closes, listing, admitsAll_iff.mpr uniform⟩
          rw [List.append_assoc, List.singleton_append]
  | @assigned name equals before behind depth inner value word isEquals unnamed surrounds ih =>
      simp only [List.cons_append] at whole earliest
      rcases List.cons.inj whole with ⟨rfl, rfl⟩
      have valueSpelled := (surrounds.spells spelled).value_of_kind unnamed
      rcases valueSpelled.begins with ⟨front, later, split, _⟩
      have failed := ih (fun mixture => earliest (mixture.assigned word isEquals unnamed)) split rest
        same spelled
      rw [split] at valueSpelled ⊢
      have opens := opens_of_compound valueSpelled (kind_of_surrounds surrounds (same ▸ rfl) unnamed)
      rw [childWith_of_openBrace opens] at failed
      exact fails_childWith_of_assigned word isEquals failed
  | @listed opening closing front before behind back depth inner child earlier later opens listing
      surrounds trail closes ih =>
      have childSpelled := surrounds.spells spelled
      rcases spelled.begins with ⟨_, _, ownSplit, _⟩
      have arranged : opening :: (front ++ before) ++ (own ++ (behind ++ (back ++ [closing]))) =
          opening :: (front ++ ((before ++ (own ++ behind)) ++ back) ++ [closing]) := by
        simp only [List.cons_append, List.append_assoc]
      rw [arranged] at whole earliest
      rcases List.cons.inj whole with ⟨rfl, rfl⟩
      -- The list that is reported is itself closed behind the earlier children.
      have uniform : forall value, value ∈ earlier -> value.Uniform := by
        intro value member
        rcases listing.exists_place member with
          ⟨first, taken, between, others, rest, rfl, rfl, listed, valueSpelled, next⟩
        simp only [List.append_assoc, List.cons_append] at earliest
        refine uniform_of_closed_behind opens listed valueSpelled (next.around childSpelled trail)
          closes (fun inside => earliest (by simpa only [List.append_assoc] using inside)) ?_
        simp only [ownSplit, List.length_append, List.length_cons, List.length_nil]
        omega
      rcases childSpelled.begins with ⟨first, taken, split, begins⟩
      have childEarliest : forall {otherDepth otherFirst otherOther otherBehind},
          HoldsMixture (before ++ (own ++ behind)) child otherDepth otherFirst otherOther otherBehind ->
            otherBehind.length ≤ behind.length := by
        intro _ _ _ otherBehind inside
        have bounded := earliest (inside.listed opens listing trail closes)
        simp only [List.length_append] at bounded
        omega
      have failed := ih childEarliest split (back ++ ([closing] ++ rest)) same spelled
      rw [split] at childSpelled
      rw [childWith_of_openBrace opens, split]
      have reported := fails_of_child opens listing uniform begins failed
      simpa only [mixture_within, List.append_assoc, List.cons_append] using reported

/-! ## Only lists that are closed are reported -/

/-- The cause of a failure is that values are mixed. -/
def IsMixture (cause : Cause) : Prop :=
  Exists fun expected => Exists fun actual => Exists fun child =>
    cause = .mixedCompound expected actual child

/-- The cause of a failure is a list of mixed values that is closed right
before the rest of the tokens. -/
def Closes (tokens : List Token) (cause : Cause) (rest : List Token) : Prop :=
  Exists fun before => Exists fun own => Exists fun opening => Exists fun closing =>
    Exists fun shape => Exists fun children => Exists fun first => Exists fun other =>
      tokens = before ++ (own ++ rest) ∧
        SpellsValue own (.compound opening closing shape children) ∧ Mixes children first other ∧
        cause = .mixedCompound first.kind other.kind other.token

theorem Closes.of_suffix {tokens others rest : List Token} {cause : Cause}
    (closes : Closes others cause rest) (suffix : others <:+ tokens) : Closes tokens cause rest := by
  rcases suffix with ⟨front, rfl⟩
  rcases closes with ⟨before, own, opening, closing, shape, children, first, other, rfl, parts⟩
  exact ⟨front ++ before, own, opening, closing, shape, children, first, other,
    (List.append_assoc ..).symm, parts⟩

/-- Mixed values are reported at the end of a list of them only, and the
constructions around it leave the tokens behind it. -/
theorem inherited_closes : Inherited fun tokens diagnostic rest =>
    IsMixture diagnostic.cause -> Closes tokens diagnostic.cause rest where
  unexpected := by
    rintro first rest ⟨_, _, _, impossible⟩
    cases impossible
  member := by
    intro enumName scope behind diagnostic rest _ _ failed isMixture
    rcases fails_name_iff.mp failed with ⟨_, rfl, _⟩ | ⟨_, _, _, rfl⟩ <;>
      rcases isMixture with ⟨_, _, _, impossible⟩ <;> cases impossible
  missing := by
    rintro target equals _ _ ⟨_, _, _, impossible⟩
    cases impossible
  assigned := by
    intro target equals tokens diagnostic rest _ _ closes isMixture
    exact (closes isMixture).of_suffix ⟨[target, equals], rfl⟩
  unclosed := by
    rintro opening body children _ _ ⟨_, _, _, impossible⟩
    cases impossible
  child := by
    intro opening body children tokens diagnostic rest _ _ closes isMixture
    exact (closes isMixture).of_suffix ⟨opening :: body, rfl⟩
  mixed := by
    intro opening closing body children first other rest opens listing closes mixes _
    refine ⟨[], opening :: (body ++ [closing]), opening, closing, _, children, first, other, ?_,
      .compound opens listing closes, mixes, rfl⟩
    simp only [List.nil_append, List.cons_append, List.append_assoc]

/-! ## The judgement of a value -/

/-- A value is refused because a list with `depth` lists around it mixes values
of two kinds. -/
structure Refuses (first : Token) (tokens : List Token) (depth : Nat) (expected other : Value)
    (rest : List Token) (diagnostic : Diagnostic) : Prop where
  failed : (Parser.value first).Fails tokens diagnostic rest
  category : diagnostic.category = .semantic
  /-- The child that differs from the first one is to blame. -/
  blamed : diagnostic.token? = some other.token
  message : diagnostic.message = String.join (List.replicate (depth + 1) "compound value: ") ++
    s!"invalid compound mixes types ({expected.kind.name} and {other.kind.name})"

theorem refuses_of_firstMixture {first : Token} {taken behind : List Token} {tree expected other : Value}
    {depth : Nat} (spelled : SpellsValue (first :: taken) tree)
    (mixed : FirstMixture (first :: taken) tree depth expected other behind) (rest : List Token) :
    Refuses first (taken ++ rest) depth expected other (behind ++ rest)
      (mixture depth expected other) := by
  rcases mixed.holds with
    ⟨before, own, opening, closing, shape, children, whole, ownSpelled, surrounds, mixes⟩
  have opens := opens_of_compound spelled
    (kind_of_surrounds surrounds rfl spelled.kind_ne_assignment)
  have failed := fails_of_firstMixture surrounds ownSpelled mixes
    (fun inside => mixed.earliest (whole ▸ inside)) whole.symm rest
  rw [childWith_of_openBrace opens] at failed
  exact ⟨failed, rfl, rfl, message_compounds (depth + 1) _⟩

/-- A spelled value is read exactly if its lists agree in kind, and then their
shapes tell what the children are.  Otherwise the list of mixed values that is
closed first is reported, and the tokens behind it are left.  No list is
reported before it is closed, whatever the tokens are. -/
theorem value_judged {first : Token} {taken : List Token} {tree : Value}
    (spelled : SpellsValue (first :: taken) tree) (rest : List Token) :
    ((Parser.value first).Reads (taken ++ rest) tree rest <-> tree.Uniform) ∧
      (tree.Uniform -> tree.Shaped) ∧
      (¬ tree.Uniform ->
        Exists fun depth => Exists fun expected => Exists fun other => Exists fun behind =>
          FirstMixture (first :: taken) tree depth expected other behind) ∧
      (forall depth expected other behind,
        FirstMixture (first :: taken) tree depth expected other behind ->
          Exists fun diagnostic =>
            Refuses first (taken ++ rest) depth expected other (behind ++ rest) diagnostic) ∧
      forall start tokens diagnostic left, (Parser.value start).Fails tokens diagnostic left ->
        IsMixture diagnostic.cause -> Closes (start :: tokens) diagnostic.cause left := by
  refine ⟨?_, fun uniform => uniform.shaped (.value spelled), ?_, ?_, ?_⟩
  · constructor
    · intro read
      rcases reads_value_iff.mp read with ⟨_, _, _, uniform⟩
      exact uniform
    · intro uniform
      exact reads_value_iff.mpr ⟨taken, rfl, spelled, uniform⟩
  · intro mixed
    rcases holdsMixture_of_not_uniform.value spelled mixed with ⟨_, _, _, _, holds⟩
    exact holds.exists_first
  · intro depth expected other behind mixed
    exact ⟨_, refuses_of_firstMixture spelled mixed rest⟩
  · intro start tokens diagnostic left failed isMixture
    exact inherited_closes.refused failed isMixture

/-- The first token of `{ { 1 x = 2 } y = 3 }`, where both lists mix values. -/
def mixedOpening : Token :=
  { kind := .openBrace, text := "\x7b" }

/-- The tokens behind it. -/
def mixedTokens : List Token :=
  [{ kind := .openBrace, text := "\x7b", start := 2 }, { kind := .integer, text := "1", start := 4 },
    { kind := .word, text := "x", start := 6 }, { kind := .equals, text := "=", start := 8 },
    { kind := .integer, text := "2", start := 10 }, { kind := .closeBrace, text := "\x7d", start := 12 },
    { kind := .word, text := "y", start := 14 }, { kind := .equals, text := "=", start := 16 },
    { kind := .integer, text := "3", start := 18 }, { kind := .closeBrace, text := "\x7d", start := 20 }]

theorem spells_mixedTokens : Exists fun tree => SpellsValue (mixedOpening :: mixedTokens) tree := by
  have integer : forall text start, SpellsValue [{ kind := .integer, text, start }]
      (.scalar { kind := .int, token := { kind := .integer, text, start } }) :=
    fun _ _ => .literal (.int rfl)
  have named : forall name start equals text place, SpellsChild
      [{ kind := .word, text := name, start }, { kind := .equals, text := "=", start := equals },
        { kind := .integer, text, start := place }] _ :=
    fun _ _ _ _ _ => .assignment rfl rfl (integer _ _)
  have none : forall token, token ∈ ([] : List Token) -> token.kind = .comma := nofun
  have inner := Listing.cons (.value (integer "1" 4)) none (.cons (named "x" 6 8 "2" 10) none .nil)
  have innerSpelled := @SpellsValue.compound { kind := .openBrace, text := "\x7b", start := 2 }
    { kind := .closeBrace, text := "\x7d", start := 12 } _ _ rfl inner rfl
  have outer := Listing.cons (.value innerSpelled) none (.cons (named "y" 14 16 "3" 18) none .nil)
  have outerSpelled := @SpellsValue.compound mixedOpening
    { kind := .closeBrace, text := "\x7d", start := 20 } _ _ rfl outer rfl
  exact ⟨_, outerSpelled⟩

/-- Of the two lists the inner one is reported, and the tokens behind it are
left. -/
theorem value_judged_mixedTokens :
    Exists fun tree => SpellsValue (mixedOpening :: mixedTokens) tree ∧ ¬ tree.Uniform ∧
      Exists fun depth => Exists fun expected => Exists fun other => Exists fun diagnostic =>
        FirstMixture (mixedOpening :: mixedTokens) tree depth expected other (mixedTokens.drop 6) ∧
          Refuses mixedOpening (mixedTokens ++ mixedTokens) depth expected other
            (mixedTokens.drop 6 ++ mixedTokens) diagnostic ∧
          diagnostic.message =
            "compound value: compound value: invalid compound mixes types (int and field value)" := by
  rcases spells_mixedTokens with ⟨tree, spelled⟩
  rcases value_judged spelled mixedTokens with ⟨readable, _, held, refused, _⟩
  have reported : (match ((Parser.value mixedOpening).run (mixedTokens ++ mixedTokens)).outcome with
      | .error diagnostic => diagnostic.message
      | .ok _ => "") =
        "compound value: compound value: invalid compound mixes types (int and field value)" := by
    decide +kernel
  have mixed : ¬ tree.Uniform := by
    intro uniform
    rw [(readable.mpr uniform).1] at reported
    simp at reported
  rcases held mixed with ⟨depth, expected, other, behind, first⟩
  rcases refused depth expected other behind first with ⟨diagnostic, refuses⟩
  have left : ((Parser.value mixedOpening).run (mixedTokens ++ mixedTokens)).rest =
      mixedTokens.drop 6 ++ mixedTokens := by decide +kernel
  have same : behind = mixedTokens.drop 6 :=
    List.append_cancel_right (refuses.failed.2.symm.trans left)
  subst same
  refine ⟨tree, spelled, mixed, depth, expected, other, diagnostic, first, refuses, ?_⟩
  rw [refuses.failed.1] at reported
  exact reported

end Parser
end TypeSchema
