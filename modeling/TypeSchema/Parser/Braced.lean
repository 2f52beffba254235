import TypeSchema.Parser.Basic

namespace TypeSchema
namespace Parser

/-!
# Brace-enclosed lists

Every list of the grammar is read by one loop.  It takes tokens until the
closing brace, hands each other token to the reader of items, and drops the
commas behind an item.  Commas are therefore optional between items and may
be repeated, but a comma where an item should begin is given to the reader of
items like any other token.  What the loop makes of the items is up to their
reader: an enum or a type that grows by them, or the list of the items itself.
-/

variable {α σ : Type}

/-- The tokens behind the commas at the front. -/
def afterCommas (tokens : List Token) : List Token :=
  tokens.dropWhile (·.is .comma)

theorem afterCommas_suffix (tokens : List Token) : afterCommas tokens <:+ tokens :=
  List.dropWhile_suffix _

/-- The loop of a list whose opening brace is taken.  The reader of items is told
what has been made of the items before, and makes it grow by one more; what has been
made of all items and the closing brace result. -/
def gather (list : BraceList) (item : σ -> Token -> Parser σ) (made : σ) (tokens : List Token) :
    Reply (σ × Token) :=
  match tokens with
  | [] => { outcome := .error { cause := .unclosedList list }, rest := [] }
  | token :: rest =>
      if token.is .closeBrace then { outcome := .ok (made, token), rest }
      else
        let reply := (item made token).run rest
        match reply.outcome with
        | .error diagnostic =>
            { outcome := .error diagnostic, rest := reply.rest, events := reply.events }
        | .ok grown =>
            have := (afterCommas_suffix reply.rest).length_le
            have := (item made token).length_rest_le rest
            let later := gather list item grown (afterCommas reply.rest)
            { later with events := reply.events ++ later.events }
termination_by tokens.length
decreasing_by
  simp only [reply, List.length_cons] at *
  omega

theorem gather_nil (list : BraceList) (item : σ -> Token -> Parser σ) (made : σ) :
    gather list item made [] =
      { outcome := .error { cause := .unclosedList list }, rest := [] } := by
  rw [gather]

theorem gather_closeBrace (list : BraceList) (item : σ -> Token -> Parser σ) (made : σ)
    {token : Token} (closing : token.kind = .closeBrace) (rest : List Token) :
    gather list item made (token :: rest) = { outcome := .ok (made, token), rest } := by
  rw [gather, if_pos ((token.is_iff _).2 closing)]

theorem gather_item (list : BraceList) (item : σ -> Token -> Parser σ) (made : σ)
    {token : Token} (inner : token.kind ≠ .closeBrace) (rest : List Token) :
    gather list item made (token :: rest) =
      ((item made token).run rest).andThen fun grown behind =>
        gather list item grown (afterCommas behind) := by
  rw [gather]
  exact if_neg fun closing => inner ((token.is_iff _).1 closing)

theorem gather_suffix (list : BraceList) (item : σ -> Token -> Parser σ) (made : σ)
    (tokens : List Token) : (gather list item made tokens).rest <:+ tokens := by
  fun_induction gather list item made tokens with
  | case1 made => exact List.suffix_refl _
  | case2 made token rest closing => exact List.suffix_cons _ _
  | case3 made token rest inner reply diagnostic failed =>
      exact ((item made token).suffix rest).trans (List.suffix_cons _ _)
  | case4 made token rest inner reply grown succeeded _ _ later ih =>
      exact (ih.trans (afterCommas_suffix _)).trans
        (((item made token).suffix rest).trans (List.suffix_cons _ _))

/-- Read a list whose opening brace is taken, beginning with what has been made of
no items. -/
def gathered (list : BraceList) (item : σ -> Token -> Parser σ) (made : σ) : Parser (σ × Token) where
  run := gather list item made
  suffix := gather_suffix list item made

/-! ## Lists of the items themselves -/

/-- Append an item to those before it. -/
def appended (item : List α -> Token -> Parser α) (earlier : List α) (first : Token) :
    Parser (List α) := do
  return earlier ++ [← item earlier first]

/-- The loop of a list that keeps its items in order.  The reader of items is told
the items before. -/
def items (list : BraceList) (item : List α -> Token -> Parser α) (earlier : List α)
    (tokens : List Token) : Reply (List α × Token) :=
  gather list (appended item) earlier tokens

/-- Read a list whose opening brace is taken, and keep its items. -/
def braced (list : BraceList) (item : List α -> Token -> Parser α) : Parser (List α × Token) :=
  gathered list (appended item) []

@[simp] theorem run_braced (list : BraceList) (item : List α -> Token -> Parser α)
    (tokens : List Token) : (braced list item).run tokens = items list item [] tokens :=
  rfl

theorem items_nil (list : BraceList) (item : List α -> Token -> Parser α) (earlier : List α) :
    items list item earlier [] =
      { outcome := .error { cause := .unclosedList list }, rest := [] } :=
  gather_nil list (appended item) earlier

theorem items_closeBrace (list : BraceList) (item : List α -> Token -> Parser α)
    (earlier : List α) {token : Token} (closing : token.kind = .closeBrace) (rest : List Token) :
    items list item earlier (token :: rest) = { outcome := .ok (earlier, token), rest } :=
  gather_closeBrace list (appended item) earlier closing rest

theorem items_item (list : BraceList) (item : List α -> Token -> Parser α)
    (earlier : List α) {token : Token} (inner : token.kind ≠ .closeBrace) (rest : List Token) :
    items list item earlier (token :: rest) =
      ((item earlier token).run rest).andThen fun value behind =>
        items list item (earlier ++ [value]) (afterCommas behind) := by
  rw [items, gather_item list (appended item) earlier inner, appended, run_bind, Reply.andThen_assoc]
  rfl

theorem items_suffix (list : BraceList) (item : List α -> Token -> Parser α) (earlier : List α)
    (tokens : List Token) : (items list item earlier tokens).rest <:+ tokens :=
  gather_suffix list (appended item) earlier tokens

/-- A list asks its reader of items only about tokens behind its first one, so
readers that agree there give the same list. -/
theorem items_congr (list : BraceList) {left right : List α -> Token -> Parser α} (bound : Nat)
    (agree : forall earlier token tokens, tokens.length < bound ->
      (left earlier token).run tokens = (right earlier token).run tokens)
    (earlier : List α) (tokens : List Token) (short : tokens.length ≤ bound) :
    items list left earlier tokens = items list right earlier tokens := by
  induction size : tokens.length using Nat.strongRecOn generalizing tokens earlier with
  | ind size ih =>
      cases tokens with
      | nil => rw [items_nil, items_nil]
      | cons token rest =>
          rw [List.length_cons] at size short
          by_cases closing : token.kind = .closeBrace
          · rw [items_closeBrace list left earlier closing,
              items_closeBrace list right earlier closing]
          · rw [items_item list left earlier closing, items_item list right earlier closing,
              agree earlier token rest (by omega), Reply.andThen, Reply.andThen]
            split
            · rfl
            · have fewer := (afterCommas_suffix ((right earlier token).run rest).rest).length_le
              have taken := (right earlier token).length_rest_le rest
              rw [ih _ (by omega) _ _ (by omega) rfl]

end Parser
end TypeSchema
