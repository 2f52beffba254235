import TypeSchema.Parser.Definition

namespace TypeSchema
namespace Parser

/-!
# Successful readings

What a parser accepts is a relation between the tokens it is given, the value
it reads and the tokens it leaves.  The relation forgets events and failures,
so that the rules below take a composed parser apart without unfolding any
reply.
-/

variable {α β σ : Type}

/-- The parser succeeds on these tokens, with this value and this rest. -/
def Reads (parser : Parser α) (tokens : List Token) (value : α) (rest : List Token) : Prop :=
  (parser.run tokens).outcome = .ok value ∧ (parser.run tokens).rest = rest

/-- No token of this kind is next. -/
def Stops (kind : Token.Kind) (tokens : List Token) : Prop :=
  forall token, token ∈ tokens.head? -> token.kind ≠ kind

theorem Reads.suffix {parser : Parser α} {tokens rest : List Token} {value : α}
    (read : parser.Reads tokens value rest) : rest <:+ tokens :=
  read.2 ▸ parser.suffix tokens

theorem Reads.length_le {parser : Parser α} {tokens rest : List Token} {value : α}
    (read : parser.Reads tokens value rest) : rest.length ≤ tokens.length :=
  read.suffix.length_le

/-! ## Composed parsers -/

@[simp] theorem reads_pure_iff {read value : α} {tokens rest : List Token} :
    (pure value : Parser α).Reads tokens read rest <-> read = value ∧ rest = tokens := by
  simp only [Reads, run_pure, Except.ok.injEq]
  constructor
  · intro parts
    rcases parts with ⟨same, whole⟩
    exact ⟨same.symm, whole.symm⟩
  · intro parts
    rcases parts with ⟨same, whole⟩
    exact ⟨same.symm, whole.symm⟩

@[simp] theorem reads_fail_iff {cause : Cause} {value : α} {tokens rest : List Token} :
    (fail cause : Parser α).Reads tokens value rest <-> False := by
  simp [Reads]

/-- A reading of two parsers in sequence is a reading of each, the second on
what the first leaves. -/
theorem reads_bind_iff {parser : Parser α} {next : α -> Parser β} {value : β}
    {tokens rest : List Token} :
    (parser >>= next).Reads tokens value rest <->
      Exists fun first => Exists fun behind =>
        parser.Reads tokens first behind ∧ (next first).Reads behind value rest := by
  simp only [Reads, run_bind, Reply.andThen]
  constructor
  · intro read
    split at read
    · next failed => exact absurd read.1 (by simp)
    · next first succeeded => exact ⟨first, _, ⟨succeeded, rfl⟩, read⟩
  · intro parts
    rcases parts with ⟨first, behind, ⟨succeeded, left⟩, later⟩
    subst left
    simp only [succeeded]
    exact later

@[simp] theorem reads_emit_iff {event : Event} {value : Unit} {tokens rest : List Token} :
    (emit event).Reads tokens value rest <-> rest = tokens := by
  simp [Reads, eq_comm]

@[simp] theorem reads_within_iff {context : Context} {parser : Parser α} {value : α}
    {tokens rest : List Token} :
    (within context parser).Reads tokens value rest <-> parser.Reads tokens value rest := by
  simp only [Reads, within]
  cases (parser.run tokens).outcome with
  | error diagnostic =>
      constructor
      · intro parts
        cases parts.1
      · intro parts
        cases parts.1
  | ok read => exact Iff.rfl

/-! ## Primitives -/

theorem reads_next?_iff {found : Option Token} {tokens rest : List Token} :
    next?.Reads tokens found rest <-> found = tokens.head? ∧ rest = tokens.tail := by
  simp [Reads, next?, eq_comm]

theorem reads_front?_iff {found : Option Token} {tokens rest : List Token} :
    front?.Reads tokens found rest <-> found = tokens.head? ∧ rest = tokens := by
  simp [Reads, front?, peek?, List.head?_eq_getElem?, eq_comm]

/-- A token is taken exactly when it is next and of the kind asked for. -/
theorem reads_nextIf?_iff {kind : Token.Kind} {found : Option Token} {tokens rest : List Token} :
    (nextIf? kind).Reads tokens found rest <->
      (Exists fun token => found = some token ∧ token.kind = kind ∧ tokens = token :: rest) ∨
        (found = none ∧ rest = tokens ∧ Stops kind tokens) := by
  cases tokens with
  | nil => simp [Reads, Stops, eq_comm]
  | cons token behind =>
      simp only [Reads, run_nextIf?_cons, Stops]
      by_cases same : token.kind = kind
      · simp only [if_pos same, List.head?_cons, Option.mem_some_iff, Except.ok.injEq]
        constructor
        · intro parts
          rcases parts with ⟨taken, left⟩
          exact Or.inl ⟨token, taken.symm, same, by rw [left]⟩
        · intro parts
          rcases parts with ⟨other, taken, _, whole⟩ | ⟨_, _, stops⟩
          · have parts := List.cons.inj whole
            exact ⟨by rw [taken, parts.1], parts.2⟩
          · exact absurd same (stops token rfl)
      · simp only [if_neg same, List.head?_cons, Option.mem_some_iff, Except.ok.injEq]
        constructor
        · intro parts
          rcases parts with ⟨taken, left⟩
          exact Or.inr ⟨taken.symm, left.symm, fun _ equal => equal ▸ same⟩
        · intro parts
          rcases parts with ⟨other, _, right, whole⟩ | ⟨taken, left, _⟩
          · exact absurd ((List.cons.inj whole).1 ▸ right) same
          · exact ⟨taken.symm, left.symm⟩

theorem run_name_cons (slot : NameSlot) (token : Token) (tokens : List Token) :
    (name slot).run (token :: tokens) =
      if token.kind = .word then { outcome := .ok token, rest := tokens }
      else { outcome := .error { cause := .nameExpected slot (some token) }, rest := tokens } := by
  by_cases word : token.kind = .word <;> simp [name, Reply.andThen, Token.is, word]

theorem run_openBrace_cons (keyword : Keyword) (token : Token) (tokens : List Token) :
    (openBrace keyword).run (token :: tokens) =
      if token.kind = .openBrace then { outcome := .ok token, rest := tokens }
      else { outcome := .error { cause := .braceExpected keyword (some token) }, rest := tokens } := by
  by_cases brace : token.kind = .openBrace <;> simp [openBrace, Reply.andThen, Token.is, brace]

/-- A parser that demands a token of one kind reads exactly such a token. -/
theorem reads_demanded_iff {parser : Parser Token} {kind : Token.Kind}
    {refusal : Token -> Diagnostic}
    (atEnd : forall read rest, ¬ parser.Reads [] read rest)
    (atToken : forall token behind, parser.run (token :: behind) =
      if token.kind = kind then { outcome := .ok token, rest := behind }
      else { outcome := .error (refusal token), rest := behind })
    {read : Token} {tokens rest : List Token} :
    parser.Reads tokens read rest <-> read.kind = kind ∧ tokens = read :: rest := by
  cases tokens with
  | nil => simp [atEnd]
  | cons token behind =>
      simp only [Reads, atToken, List.cons.injEq]
      split
      · next right =>
          constructor
          · intro parts
            rcases parts with ⟨same, left⟩
            exact ⟨Except.ok.inj same ▸ right, Except.ok.inj same, left⟩
          · intro parts
            rcases parts with ⟨_, same, left⟩
            exact ⟨by rw [same], left⟩
      · next wrong =>
          constructor
          · intro parts
            rcases parts with ⟨impossible, _⟩
            cases impossible
          · intro parts
            rcases parts with ⟨right, same, _⟩
            exact absurd (same ▸ right) wrong

theorem reads_name_iff {slot : NameSlot} {read : Token} {tokens rest : List Token} :
    (name slot).Reads tokens read rest <-> read.kind = .word ∧ tokens = read :: rest :=
  reads_demanded_iff (by simp [Reads, name, Reply.andThen]) (run_name_cons slot)

theorem reads_openBrace_iff {keyword : Keyword} {read : Token} {tokens rest : List Token} :
    (openBrace keyword).Reads tokens read rest <->
      read.kind = .openBrace ∧ tokens = read :: rest :=
  reads_demanded_iff (by simp [Reads, openBrace, Reply.andThen]) (run_openBrace_cons keyword)

/-! ## Lists -/

/-- A list is read in one of two ways: it is closed at once, or an item makes what
has been made grow, and what stands behind the commas of the item is read. -/
theorem reads_gathered_iff {list : BraceList} {item : σ -> Token -> Parser σ} {made all : σ}
    {tokens rest : List Token} {closing : Token} :
    (gathered list item made).Reads tokens (all, closing) rest <->
      (tokens = closing :: rest ∧ closing.kind = .closeBrace ∧ all = made) ∨
        Exists fun first => Exists fun behind => Exists fun grown => Exists fun left =>
          tokens = first :: behind ∧ first.kind ≠ .closeBrace ∧
            (item made first).Reads behind grown left ∧
            (gathered list item grown).Reads (afterCommas left) (all, closing) rest := by
  cases tokens with
  | nil => simp [Reads, gathered, gather_nil]
  | cons token behind =>
      by_cases closes : token.kind = .closeBrace
      · simp only [Reads, gathered, gather_closeBrace list item made closes, Except.ok.injEq,
          Prod.mk.injEq, List.cons.injEq]
        constructor
        · intro parts
          rcases parts with ⟨⟨same, token_eq⟩, left⟩
          exact Or.inl ⟨⟨token_eq, left⟩, token_eq ▸ closes, same.symm⟩
        · intro parts
          rcases parts with ⟨⟨token_eq, left⟩, _, same⟩ | ⟨first, _, _, _, ⟨token_eq, _⟩, inner, _⟩
          · exact ⟨⟨same.symm, token_eq⟩, left⟩
          · exact absurd (token_eq ▸ closes) inner
      · simp only [Reads, gathered, gather_item list item made closes, Reply.andThen]
        constructor
        · intro read
          split at read
          · next failed => exact absurd read.1 (by simp)
          · next grown succeeded =>
              exact Or.inr ⟨token, behind, grown, _, rfl, closes, ⟨succeeded, rfl⟩, read⟩
        · intro parts
          rcases parts with ⟨whole, closing_kind, _⟩ | ⟨first, _, grown, _, whole, _, ⟨succeeded, left⟩, later⟩
          · exact absurd ((List.cons.inj whole).1 ▸ closing_kind) closes
          · rcases List.cons.inj whole with ⟨rfl, rfl⟩
            subst left
            simp only [succeeded]
            exact later

/-- What every item keeps is kept by a list. -/
theorem gathered_invariant {property : σ -> Prop} {list : BraceList} {item : σ -> Token -> Parser σ}
    (keeps : forall {made first tokens grown rest}, property made ->
      (item made first).Reads tokens grown rest -> property grown)
    {made all : σ} {tokens rest : List Token} {closing : Token} (start : property made)
    (read : (gathered list item made).Reads tokens (all, closing) rest) : property all := by
  induction size : tokens.length using Nat.strongRecOn generalizing tokens made with
  | ind size ih =>
      rcases reads_gathered_iff.mp read with
        ⟨_, _, rfl⟩ | ⟨first, behind, grown, left, rfl, _, itemRead, later⟩
      · exact start
      · have taking := itemRead.length_le
        have passing := (afterCommas_suffix left).length_le
        rw [List.length_cons] at size
        exact ih _ (by omega) (keeps start itemRead) later rfl

/-- The loop of a list as a parser, told the items that were read before. -/
def loop (list : BraceList) (item : List α -> Token -> Parser α) (earlier : List α) :
    Parser (List α × Token) where
  run := items list item earlier
  suffix := items_suffix list item earlier

theorem braced_eq_loop (list : BraceList) (item : List α -> Token -> Parser α) :
    braced list item = loop list item [] :=
  rfl

theorem loop_eq_gathered (list : BraceList) (item : List α -> Token -> Parser α) (earlier : List α) :
    loop list item earlier = gathered list (appended item) earlier :=
  rfl

theorem reads_appended_iff {item : List α -> Token -> Parser α} {earlier grown : List α}
    {first : Token} {tokens rest : List Token} :
    (appended item earlier first).Reads tokens grown rest <->
      Exists fun value => (item earlier first).Reads tokens value rest ∧ grown = earlier ++ [value] := by
  simp only [appended, reads_bind_iff, reads_pure_iff]
  constructor
  · rintro ⟨value, behind, read, rfl, rfl⟩
    exact ⟨value, read, rfl⟩
  · rintro ⟨value, read, rfl⟩
    exact ⟨value, rest, read, rfl, rfl⟩

/-- The loop succeeds in one of two ways: the list is closed at once, or an
item is read and the loop goes on behind its commas. -/
theorem reads_loop_iff {list : BraceList} {item : List α -> Token -> Parser α}
    {earlier all : List α} {tokens rest : List Token} {closing : Token} :
    (loop list item earlier).Reads tokens (all, closing) rest <->
      (tokens = closing :: rest ∧ closing.kind = .closeBrace ∧ all = earlier) ∨
        Exists fun first => Exists fun behind => Exists fun value => Exists fun left =>
          tokens = first :: behind ∧ first.kind ≠ .closeBrace ∧
            (item earlier first).Reads behind value left ∧
            (loop list item (earlier ++ [value])).Reads (afterCommas left) (all, closing) rest := by
  rw [loop_eq_gathered list item earlier, reads_gathered_iff]
  apply or_congr Iff.rfl
  constructor
  · rintro ⟨first, behind, grown, left, whole, inner, itemRead, later⟩
    rcases reads_appended_iff.mp itemRead with ⟨value, valueRead, rfl⟩
    exact ⟨first, behind, value, left, whole, inner, valueRead, later⟩
  · rintro ⟨first, behind, value, left, whole, inner, valueRead, later⟩
    exact ⟨first, behind, _, left, whole, inner, reads_appended_iff.mpr ⟨value, valueRead, rfl⟩, later⟩

end Parser
end TypeSchema
