import TypeSchema.Proofs.Reading

namespace TypeSchema
namespace Parser

/-!
# Failed readings

The counterpart of a reading is a relation between the tokens a parser is
given, what it says about its failure, and the tokens it leaves.  A composed
parser fails where one of its parts does, behind the parts that succeeded.
-/

variable {α β : Type}

/-- The parser fails on these tokens, for this reason and with this rest. -/
def Fails (parser : Parser α) (tokens : List Token) (diagnostic : Diagnostic)
    (rest : List Token) : Prop :=
  (parser.run tokens).outcome = .error diagnostic ∧ (parser.run tokens).rest = rest

@[simp] theorem fails_pure_iff {value : α} {tokens rest : List Token} {diagnostic : Diagnostic} :
    (pure value : Parser α).Fails tokens diagnostic rest <-> False := by
  simp [Fails]

@[simp] theorem fails_fail_iff {cause : Cause} {tokens rest : List Token} {diagnostic : Diagnostic} :
    (fail cause : Parser α).Fails tokens diagnostic rest <->
      diagnostic = { cause } ∧ rest = tokens := by
  simp [Fails, eq_comm]

/-- Two parsers in sequence fail with the first one, or with the second one on
what the first leaves. -/
theorem fails_bind_iff {parser : Parser α} {next : α -> Parser β} {tokens rest : List Token}
    {diagnostic : Diagnostic} :
    (parser >>= next).Fails tokens diagnostic rest <->
      parser.Fails tokens diagnostic rest ∨
        Exists fun first => Exists fun behind =>
          parser.Reads tokens first behind ∧ (next first).Fails behind diagnostic rest := by
  simp only [Fails, Reads, run_bind, Reply.andThen]
  cases (parser.run tokens).outcome with
  | error other => simp
  | ok first =>
      constructor
      · intro failed
        exact Or.inr ⟨first, _, ⟨rfl, rfl⟩, failed⟩
      · intro parts
        rcases parts with impossible | ⟨other, behind, ⟨same, left⟩, later⟩
        · cases impossible.1
        · subst left
          rw [← Except.ok.inj same] at later
          exact later

@[simp] theorem fails_emit_iff {event : Event} {tokens rest : List Token} {diagnostic : Diagnostic} :
    (emit event).Fails tokens diagnostic rest <-> False := by
  simp [Fails]

@[simp] theorem fails_next?_iff {tokens rest : List Token} {diagnostic : Diagnostic} :
    next?.Fails tokens diagnostic rest <-> False := by
  simp [Fails, next?]

@[simp] theorem fails_nextIf?_iff {kind : Token.Kind} {tokens rest : List Token}
    {diagnostic : Diagnostic} : (nextIf? kind).Fails tokens diagnostic rest <-> False := by
  cases tokens with
  | nil => simp [Fails]
  | cons token behind =>
      rw [Fails, run_nextIf?_cons]
      split <;> simp

/-- A failure is seen from the construction whose body is read. -/
theorem fails_within_iff {context : Context} {parser : Parser α} {tokens rest : List Token}
    {diagnostic : Diagnostic} :
    (within context parser).Fails tokens diagnostic rest <->
      Exists fun inner => parser.Fails tokens inner rest ∧ diagnostic = inner.within context := by
  simp only [Fails, within]
  cases (parser.run tokens).outcome with
  | error inner =>
      constructor
      · intro parts
        exact ⟨inner, ⟨rfl, parts.2⟩, (Except.error.inj parts.1).symm⟩
      · intro parts
        rcases parts with ⟨other, ⟨same, left⟩, seen⟩
        rw [seen, Except.error.inj same]
        exact ⟨rfl, left⟩
  | ok value =>
      constructor
      · intro parts
        cases parts.1
      · intro parts
        rcases parts with ⟨other, ⟨impossible, _⟩, _⟩
        cases impossible

@[simp] theorem fails_front?_iff {tokens rest : List Token} {diagnostic : Diagnostic} :
    front?.Fails tokens diagnostic rest <-> False := by
  simp [Fails, front?, peek?]

/-- A parser that demands a token of one kind fails if there is no token, or
takes a token of another kind and fails. -/
theorem fails_demanded_iff {parser : Parser Token} {kind : Token.Kind} {missing : Diagnostic}
    {refusal : Token -> Diagnostic}
    (atEnd : parser.run [] = { outcome := .error missing, rest := [] })
    (atToken : forall token behind, parser.run (token :: behind) =
      if token.kind = kind then { outcome := .ok token, rest := behind }
      else { outcome := .error (refusal token), rest := behind })
    {tokens rest : List Token} {diagnostic : Diagnostic} :
    parser.Fails tokens diagnostic rest <->
      (tokens = [] ∧ diagnostic = missing ∧ rest = []) ∨
        Exists fun token => tokens = token :: rest ∧ token.kind ≠ kind ∧
          diagnostic = refusal token := by
  cases tokens with
  | nil => simp [Fails, atEnd, eq_comm]
  | cons token behind =>
      simp only [Fails, atToken, List.cons.injEq]
      split
      · next right => simp [right]
      · next wrong =>
          constructor
          · intro parts
            rcases parts with ⟨same, left⟩
            exact Or.inr ⟨token, ⟨rfl, left⟩, wrong, (Except.error.inj same).symm⟩
          · intro parts
            rcases parts with ⟨impossible, _⟩ | ⟨other, ⟨whole, left⟩, _, same⟩
            · cases impossible
            · exact ⟨by rw [same, whole], left⟩

theorem fails_name_iff {slot : NameSlot} {tokens rest : List Token} {diagnostic : Diagnostic} :
    (name slot).Fails tokens diagnostic rest <->
      (tokens = [] ∧ diagnostic = { cause := .nameExpected slot none } ∧ rest = []) ∨
        Exists fun token => tokens = token :: rest ∧ token.kind ≠ .word ∧
          diagnostic = { cause := .nameExpected slot (some token) } :=
  fails_demanded_iff rfl (run_name_cons slot)

theorem fails_name_nil {slot : NameSlot} :
    (name slot).Fails [] { cause := .nameExpected slot none } [] :=
  fails_name_iff.mpr (Or.inl ⟨rfl, rfl, rfl⟩)

theorem fails_openBrace_iff {keyword : Keyword} {tokens rest : List Token}
    {diagnostic : Diagnostic} :
    (openBrace keyword).Fails tokens diagnostic rest <->
      (tokens = [] ∧ diagnostic = { cause := .braceExpected keyword none } ∧ rest = []) ∨
        Exists fun token => tokens = token :: rest ∧ token.kind ≠ .openBrace ∧
          diagnostic = { cause := .braceExpected keyword (some token) } :=
  fails_demanded_iff rfl (run_openBrace_cons keyword)

theorem fails_openBrace_nil {keyword : Keyword} :
    (openBrace keyword).Fails [] { cause := .braceExpected keyword none } [] :=
  fails_openBrace_iff.mpr (Or.inl ⟨rfl, rfl, rfl⟩)

/-- The loop of a list fails in one of three ways: it meets the end of the
tokens, the next item fails, or the loop fails behind this item. -/
theorem fails_loop_iff {list : BraceList} {item : List α -> Token -> Parser α} {earlier : List α}
    {tokens rest : List Token} {diagnostic : Diagnostic} :
    (loop list item earlier).Fails tokens diagnostic rest <->
      (tokens = [] ∧ diagnostic = { cause := .unclosedList list } ∧ rest = []) ∨
        Exists fun first => Exists fun behind => tokens = first :: behind ∧
          first.kind ≠ .closeBrace ∧
            ((item earlier first).Fails behind diagnostic rest ∨
              Exists fun value => Exists fun left => (item earlier first).Reads behind value left ∧
                (loop list item (earlier ++ [value])).Fails (afterCommas left) diagnostic rest) := by
  cases tokens with
  | nil => simp [Fails, loop, items_nil, eq_comm]
  | cons token behind =>
      by_cases closes : token.kind = .closeBrace
      · have success := items_closeBrace list item earlier closes behind
        simp [Fails, loop, success, closes]
      · simp only [Fails, Reads, loop, items_item list item earlier closes, Reply.andThen]
        constructor
        · intro failed
          refine Or.inr ⟨token, behind, rfl, closes, ?_⟩
          split at failed
          · next other itemFailed =>
              have same := Except.error.inj failed.1
              exact Or.inl ⟨by rw [itemFailed, same], failed.2⟩
          · next value succeeded => exact Or.inr ⟨value, _, ⟨succeeded, rfl⟩, failed⟩
        · intro parts
          rcases parts with ⟨impossible, _⟩ | ⟨first, others, whole, _, failed⟩
          · cases impossible
          · rcases List.cons.inj whole with ⟨rfl, rfl⟩
            rcases failed with ⟨itemFailed, left⟩ | ⟨value, left, ⟨succeeded, same⟩, later⟩
            · simp only [itemFailed]
              exact ⟨trivial, left⟩
            · subst same
              simp only [succeeded]
              exact later

end Parser
end TypeSchema
