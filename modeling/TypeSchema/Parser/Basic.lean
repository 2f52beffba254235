import TypeSchema.Diagnostic

namespace TypeSchema

/-!
# Parsers

A parser reads from the front of a list of tokens.  Its reply says what it
read or why it failed, which tokens remain, and what it did on the way; the
last two are known after a failure as well.  That the remaining tokens are the
end of the given ones is part of the type, so a loop over a parser that has
taken a token always comes to an end.
-/

/-- What a parser reports while it reads. -/
inductive Event where
  | compound (shape : Shape) (count : Nat)
  | member (enumName member : Token) (ordinal : Nat)
  | field (typeName : Token) (field : Field)
  | defined (keyword : Keyword) (name : Token)

/-- The answer of a parser. -/
structure Reply (α : Type) where
  outcome : Except Diagnostic α
  rest : List Token
  events : List Event := []

/-- Go on from a reply, unless it is a failure. -/
def Reply.andThen {α β : Type} (reply : Reply α) (next : α -> List Token -> Reply β) : Reply β :=
  match reply.outcome with
  | .error diagnostic => { outcome := .error diagnostic, rest := reply.rest, events := reply.events }
  | .ok value =>
      let later := next value reply.rest
      { later with events := reply.events ++ later.events }

theorem Reply.andThen_pure {α : Type} (reply : Reply α) :
    reply.andThen (fun value rest => { outcome := .ok value, rest }) = reply := by
  cases reply with
  | mk outcome rest events => cases outcome <;> simp [Reply.andThen]

theorem Reply.andThen_assoc {α β γ : Type} (reply : Reply α) (next : α -> List Token -> Reply β)
    (last : β -> List Token -> Reply γ) :
    (reply.andThen next).andThen last =
      reply.andThen fun value rest => (next value rest).andThen last := by
  cases reply with
  | mk outcome rest events =>
      cases outcome with
      | error diagnostic => rfl
      | ok value =>
          simp only [Reply.andThen]
          cases next value rest with
          | mk outcome later moreEvents =>
              cases outcome <;> simp

/-- A reader of tokens that leaves an end of what it was given. -/
structure Parser (α : Type) where
  run : List Token -> Reply α
  suffix : forall tokens, (run tokens).rest <:+ tokens

namespace Parser

variable {α β : Type}

/-- Parsers that give the same replies are the same. -/
theorem ext {left right : Parser α} (same : forall tokens, left.run tokens = right.run tokens) :
    left = right := by
  cases left with
  | mk leftRun leftSuffix =>
      cases right with
      | mk rightRun rightSuffix =>
          have runs : leftRun = rightRun := funext same
          subst runs
          rfl

theorem length_rest_le (parser : Parser α) (tokens : List Token) :
    (parser.run tokens).rest.length ≤ tokens.length :=
  (parser.suffix tokens).length_le

instance : Monad Parser where
  pure value :=
    { run := fun tokens => { outcome := .ok value, rest := tokens }
      suffix := List.suffix_refl }
  bind parser next :=
    { run := fun tokens => (parser.run tokens).andThen fun value => (next value).run
      suffix := by
        intro tokens
        have first := parser.suffix tokens
        simp only [Reply.andThen]
        split
        · exact first
        · next value succeeded => exact ((next value).suffix _).trans first }

/-! ## Primitives -/

/-- Fail without reading anything. -/
def fail (cause : Cause) : Parser α where
  run tokens := { outcome := .error { cause }, rest := tokens }
  suffix := List.suffix_refl

/-- Report an event. -/
def emit (event : Event) : Parser Unit where
  run tokens := { outcome := .ok (), rest := tokens, events := [event] }
  suffix := List.suffix_refl

/-- The tokens ahead, none of which is taken. -/
def remaining : Parser (List Token) where
  run tokens := { outcome := .ok tokens, rest := tokens }
  suffix := List.suffix_refl

/-- The token `distance` places behind the next one, which is not taken. -/
def peek? (distance : Nat) : Parser (Option Token) where
  run tokens := { outcome := .ok tokens[distance]?, rest := tokens }
  suffix := List.suffix_refl

/-- The next token, which is not taken. -/
def front? : Parser (Option Token) :=
  peek? 0

/-- Take the next token. -/
def next? : Parser (Option Token) where
  run tokens := { outcome := .ok tokens.head?, rest := tokens.tail }
  suffix := List.tail_suffix

/-- Whether the token `distance` places behind the next one is of a kind. -/
def aheadAt (distance : Nat) (kind : Token.Kind) : Parser Bool := do
  let found <- peek? distance
  return found.any (·.is kind)

/-- Whether the next token is of a kind. -/
def ahead (kind : Token.Kind) : Parser Bool :=
  aheadAt 0 kind

/-- Take the next token if it is of a kind. -/
def nextIf? (kind : Token.Kind) : Parser (Option Token) := do
  if ← ahead kind then next? else return none

/-- Read the body of a construction, which its failures then mention. -/
def within (context : Context) (parser : Parser α) : Parser α where
  run tokens :=
    let reply := parser.run tokens
    { reply with outcome := reply.outcome.mapError (·.within context) }
  suffix := parser.suffix

/-- Take a name. -/
def name (slot : NameSlot) : Parser Token := do
  match ← next? with
  | some token => if token.is .word then return token else fail (.nameExpected slot (some token))
  | none => fail (.nameExpected slot none)

/-- Take the brace that opens the body of a definition. -/
def openBrace (keyword : Keyword) : Parser Token := do
  match ← next? with
  | some token =>
      if token.is .openBrace then return token else fail (.braceExpected keyword (some token))
  | none => fail (.braceExpected keyword none)

/-! ## Replies of the primitives -/

@[simp] theorem run_pure (value : α) (tokens : List Token) :
    (pure value : Parser α).run tokens = { outcome := .ok value, rest := tokens } :=
  rfl

@[simp] theorem run_bind (parser : Parser α) (next : α -> Parser β) (tokens : List Token) :
    (parser >>= next).run tokens = (parser.run tokens).andThen fun value => (next value).run :=
  rfl

@[simp] theorem run_fail (cause : Cause) (tokens : List Token) :
    (fail cause : Parser α).run tokens = { outcome := .error { cause }, rest := tokens } :=
  rfl

@[simp] theorem run_emit (event : Event) (tokens : List Token) :
    (emit event).run tokens = { outcome := .ok (), rest := tokens, events := [event] } :=
  rfl

@[simp] theorem run_next?_nil : next?.run [] = { outcome := .ok none, rest := [] } :=
  rfl

@[simp] theorem run_next?_cons (token : Token) (tokens : List Token) :
    next?.run (token :: tokens) = { outcome := .ok (some token), rest := tokens } :=
  rfl

@[simp] theorem run_nextIf?_nil (kind : Token.Kind) :
    (nextIf? kind).run [] = { outcome := .ok none, rest := [] } :=
  rfl

theorem run_nextIf?_cons (kind : Token.Kind) (token : Token) (tokens : List Token) :
    (nextIf? kind).run (token :: tokens) =
      if token.kind = kind then { outcome := .ok (some token), rest := tokens }
      else { outcome := .ok none, rest := token :: tokens } := by
  by_cases same : token.kind = kind <;>
    simp [nextIf?, ahead, aheadAt, peek?, Reply.andThen, Token.is, same]

instance : LawfulMonad Parser :=
  LawfulMonad.mk' Parser
    (fun parser => ext fun tokens => Reply.andThen_pure (parser.run tokens))
    (fun _ _ => rfl)
    (fun parser next last => ext fun tokens =>
      Reply.andThen_assoc (parser.run tokens) (fun value => (next value).run)
        (fun value => (last value).run))

end Parser
end TypeSchema
