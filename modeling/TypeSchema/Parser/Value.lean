import TypeSchema.Parser.Braced

namespace TypeSchema
namespace Parser

/-!
# Reading values

The rules for values refer to themselves through lists.  They are first given
with the reader of nested values as a parameter, and `value` closes the circle.
Each nesting takes a token, so the number of tokens bounds the depth; the
bound does not show, because `value_eq` states the rules without it.
-/

/-- `Enum::Member`, behind the scope operator. -/
def reference (enumName : Token) : Parser Value := do
  return .reference enumName (← name .referenceMember)

/-- `name = value`, behind the equals sign. -/
def assignmentWith (nested : Token -> Parser Value) (target : Token) : Parser Value := do
  match ← next? with
  | some first => return .assignment target (← nested first)
  | none => fail (.assignmentMissing target)

/-- A child of a list: a word before an equals sign is the name of an
assignment, anything else begins a value. -/
def childWith (nested : Token -> Parser Value) (first : Token) : Parser Value := do
  if first.is .word then
    match ← nextIf? .equals with
    | some _ => assignmentWith nested first
    | none => nested first
  else nested first

/-- A list, behind its opening brace.  Its children must agree in kind, which
is decided once the closing brace is taken. -/
def compoundWith (nested : Token -> Parser Value) (opening : Token) : Parser Value :=
  within .compound do
    let (children, closing) <- braced .compoundValues fun _ first => childWith nested first
    match Value.mismatch? children with
    | some (expected, other) => fail (.mixedCompound expected other.kind other.token)
    | none =>
        let shape := Value.shapeOf children
        emit (.compound shape children.length)
        return .compound opening closing shape children

/-- A value whose first token is taken.  `true` and `false` are literals; any
other word must be followed by the scope operator. -/
def valueWith (nested : Token -> Parser Value) (first : Token) : Parser Value :=
  match first.kind with
  | .openBrace => compoundWith nested first
  | .integer => pure (.scalar { kind := .int, token := first })
  | .float => pure (.scalar { kind := .float, token := first })
  | .string => pure (.scalar { kind := .string, token := first })
  | .word =>
      if first.text = "true" ∨ first.text = "false" then
        pure (.scalar { kind := .bool, token := first })
      else do
        match ← nextIf? .scope with
        | some _ => reference first
        | none => fail (.valueExpected first)
  | _ => fail (.valueExpected first)

/-- Values whose lists are nested at most `depth + 1` levels deep. -/
def valueOfDepth : (depth : Nat) -> (first : Token) -> Parser Value
  | 0, first => valueWith (fun token => fail (.valueExpected token)) first
  | depth + 1, first => valueWith (valueOfDepth depth) first

/-- A value whose first token is taken. -/
def value (first : Token) : Parser Value where
  run tokens := (valueOfDepth tokens.length first).run tokens
  suffix tokens := (valueOfDepth tokens.length first).suffix tokens

/-! ## The rules without a bound -/

theorem assignmentWith_congr {left right : Token -> Parser Value} {bound : Nat}
    (agree : forall first tokens, tokens.length < bound ->
      (left first).run tokens = (right first).run tokens)
    (target : Token) {tokens : List Token} (short : tokens.length < bound) :
    (assignmentWith left target).run tokens = (assignmentWith right target).run tokens := by
  cases tokens with
  | nil => rfl
  | cons first rest =>
      have same := agree first rest (Nat.lt_of_succ_lt short)
      simp only [assignmentWith, run_bind, run_next?_cons, Reply.andThen, same]

theorem childWith_congr {left right : Token -> Parser Value} {bound : Nat}
    (agree : forall first tokens, tokens.length < bound ->
      (left first).run tokens = (right first).run tokens)
    (first : Token) {tokens : List Token} (short : tokens.length < bound) :
    (childWith left first).run tokens = (childWith right first).run tokens := by
  simp only [childWith]
  split
  · cases tokens with
    | nil => simp [Reply.andThen, agree first [] short]
    | cons token rest =>
        simp only [run_bind, run_nextIf?_cons]
        split
        · have same := assignmentWith_congr agree first (Nat.lt_of_succ_lt short)
          simp [Reply.andThen, same]
        · simp [Reply.andThen, agree first _ short]
  · exact agree first tokens short

theorem compoundWith_congr {left right : Token -> Parser Value} {bound : Nat}
    (agree : forall first tokens, tokens.length < bound ->
      (left first).run tokens = (right first).run tokens)
    (opening : Token) {tokens : List Token} (short : tokens.length ≤ bound) :
    (compoundWith left opening).run tokens = (compoundWith right opening).run tokens := by
  have same := items_congr .compoundValues bound
    (fun _ first _ inside => childWith_congr agree first inside)
    [] tokens short
  simp only [compoundWith, within, run_bind, run_braced]
  rw [same]

/-- Values depend on nested values only behind their first token. -/
theorem valueWith_congr {left right : Token -> Parser Value} {bound : Nat}
    (agree : forall first tokens, tokens.length < bound ->
      (left first).run tokens = (right first).run tokens)
    (first : Token) {tokens : List Token} (short : tokens.length ≤ bound) :
    (valueWith left first).run tokens = (valueWith right first).run tokens := by
  simp only [valueWith]
  split
  · exact compoundWith_congr agree first short
  all_goals rfl

/-- Any depth that is not below the number of tokens is deep enough. -/
theorem run_valueOfDepth {depth : Nat} {tokens : List Token} (deep : tokens.length ≤ depth)
    (first : Token) : (valueOfDepth depth first).run tokens = (value first).run tokens := by
  have stable : forall smaller larger : Nat, smaller ≤ larger -> forall first tokens,
      tokens.length ≤ smaller ->
        (valueOfDepth larger first).run tokens = (valueOfDepth smaller first).run tokens := by
    intro smaller
    induction smaller with
    | zero =>
        intro larger _ first tokens short
        cases larger with
        | zero => rfl
        | succ larger =>
            exact valueWith_congr (fun _ _ inside => absurd inside (Nat.not_lt_zero _)) first short
    | succ smaller ih =>
        intro larger above first tokens short
        cases larger with
        | zero => exact absurd above (Nat.not_succ_le_zero _)
        | succ larger =>
            exact valueWith_congr
              (fun first tokens inside =>
                ih larger (Nat.le_of_succ_le_succ above) first tokens (Nat.le_of_lt_succ inside))
              first short
  exact stable tokens.length depth deep first tokens (Nat.le_refl _)

/-- The rules for values, which refer to themselves. -/
theorem value_eq (first : Token) : value first = valueWith value first := by
  apply ext
  intro tokens
  rw [← run_valueOfDepth (Nat.le_succ tokens.length) first]
  exact valueWith_congr
    (fun first _ inside => run_valueOfDepth (Nat.le_of_lt inside) first) first (Nat.le_refl _)

end Parser
end TypeSchema
