import TypeSchema.Proofs.Grammar
import TypeSchema.Proofs.Reading

namespace TypeSchema
namespace Parser

open Grammar

/-!
# Lists are read as the grammar spells them

An item may end in something optional, and its reader looks one token ahead to
see whether it is there.  That the rest does not continue an item is therefore
asked for where a spelled item is to be read, but not where a read item is to
be spelled.  Inside a list nothing ever continues an item: a comma, the closing
brace or the beginning of another item stands behind it.
-/

variable {α : Type}

/-- The rest of the tokens does not continue an item. -/
def Apart (rest : List Token) : Prop :=
  Stops .equals rest ∧ Stops .openBracket rest

theorem stops_cons {kind : Token.Kind} {token : Token} {tokens : List Token}
    (other : token.kind ≠ kind) : Stops kind (token :: tokens) := by
  intro found same
  exact Option.mem_some_iff.mp same ▸ other

theorem apart_cons {token : Token} {tokens : List Token} (noEquals : token.kind ≠ .equals)
    (noBracket : token.kind ≠ .openBracket) : Apart (token :: tokens) :=
  ⟨stops_cons noEquals, stops_cons noBracket⟩

theorem apart_of_begins {token : Token} {tokens : List Token} (begins : Begins token.kind) :
    Apart (token :: tokens) := by
  rcases begins with kind | kind | kind | kind | kind <;>
    exact apart_cons (by simp [kind]) (by simp [kind])

/-- A reader of items follows a rule for items, on fewer tokens than `bound`.
Beyond the rule it asks something of an item and the items before it. -/
structure Follows (item : List α -> Token -> Parser α) (spells : List Token -> α -> Prop)
    (admits : List α -> α -> Prop) (bound : Nat) : Prop where
  begins : forall {taken value}, spells taken value ->
    Exists fun first => Exists fun behind => taken = first :: behind ∧ Begins first.kind
  sound : forall {earlier first tokens value rest}, tokens.length < bound ->
    (item earlier first).Reads tokens value rest ->
      Exists fun taken => tokens = taken ++ rest ∧ spells (first :: taken) value ∧
        admits earlier value
  complete : forall {earlier first taken value rest}, (taken ++ rest).length < bound ->
    spells (first :: taken) value -> admits earlier value -> Apart rest ->
      (item earlier first).Reads (taken ++ rest) value rest

/-- Every item is admitted behind the items before it. -/
def AdmitsAll (admits : List α -> α -> Prop) : (earlier : List α) -> List α -> Prop
  | _, [] => True
  | earlier, value :: values => admits earlier value ∧ AdmitsAll admits (earlier ++ [value]) values

theorem admitsAll_append {admits : List α -> α -> Prop} {earlier values later : List α} :
    AdmitsAll admits earlier (values ++ later) <->
      AdmitsAll admits earlier values ∧ AdmitsAll admits (earlier ++ values) later := by
  induction values generalizing earlier with
  | nil => simp [AdmitsAll]
  | cons value values ih => simp [AdmitsAll, ih, and_assoc]

/-- What is left behind the commas, and the commas themselves. -/
theorem exists_commas (tokens : List Token) :
    Exists fun commas => tokens = commas ++ afterCommas tokens ∧
      forall token, token ∈ commas -> token.kind = .comma := by
  refine ⟨tokens.takeWhile (·.is .comma), List.takeWhile_append_dropWhile.symm, ?_⟩
  intro token member
  have all := List.all_takeWhile (p := fun token : Token => token.is .comma) (l := tokens)
  exact (token.is_iff .comma).mp (List.all_eq_true.mp all token member)

theorem afterCommas_append {commas tokens : List Token}
    (all : forall token, token ∈ commas -> token.kind = .comma) (stops : Stops .comma tokens) :
    afterCommas (commas ++ tokens) = tokens := by
  have here : afterCommas tokens = tokens := by
    cases tokens with
    | nil => rfl
    | cons token behind =>
        apply List.dropWhile_cons_of_neg
        intro comma
        exact stops token rfl ((token.is_iff .comma).mp comma)
  rw [afterCommas, List.dropWhile_append_of_pos]
  · exact here
  · intro token member
    exact (token.is_iff .comma).mpr (all token member)

theorem stops_comma_of_begins {token : Token} {tokens : List Token} (begins : Begins token.kind) :
    Stops .comma (token :: tokens) := by
  rcases begins with kind | kind | kind | kind | kind <;> exact stops_cons (by simp [kind])

/-- Behind an item and its commas stands another item, or what stands behind
the whole list of items. -/
theorem after_listing {item : List α -> Token -> Parser α} {spells : List Token -> α -> Prop}
    {admits : List α -> α -> Prop} {bound : Nat} (follows : Follows item spells admits bound)
    {body rest : List Token} {values : List α} (listing : Listing spells body values)
    (apart : Apart rest) (stops : Stops .comma rest) :
    Apart (body ++ rest) ∧ Stops .comma (body ++ rest) := by
  cases listing with
  | nil => exact ⟨apart, stops⟩
  | cons spelled commas later =>
      rcases follows.begins spelled with ⟨first, behind, rfl, begins⟩
      exact ⟨apart_of_begins begins, stops_comma_of_begins begins⟩

theorem apart_commas {commas tokens : List Token}
    (all : forall token, token ∈ commas -> token.kind = .comma) (apart : Apart tokens) :
    Apart (commas ++ tokens) := by
  cases commas with
  | nil => exact apart
  | cons comma commas =>
      have kind := all comma (List.mem_cons_self ..)
      exact apart_cons (by simp [kind]) (by simp [kind])

theorem loop_sound {list : BraceList} {item : List α -> Token -> Parser α}
    {spells : List Token -> α -> Prop} {admits : List α -> α -> Prop} {bound : Nat}
    (follows : Follows item spells admits bound) {earlier all : List α} {tokens rest : List Token}
    {closing : Token} (short : tokens.length ≤ bound)
    (read : (loop list item earlier).Reads tokens (all, closing) rest) :
    Exists fun body => Exists fun values =>
      tokens = body ++ closing :: rest ∧ closing.kind = .closeBrace ∧ all = earlier ++ values ∧
        Listing spells body values ∧ AdmitsAll admits earlier values := by
  -- The loop goes on behind at least one token, the first one of an item.
  induction size : tokens.length using Nat.strongRecOn generalizing tokens earlier with
  | ind size ih =>
      rcases reads_loop_iff.mp read with
        ⟨whole, closes, same⟩ | ⟨first, behind, value, left, whole, _, itemRead, later⟩
      · exact ⟨[], [], whole, closes, by rw [same, List.append_nil], .nil, trivial⟩
      · subst whole
        rw [List.length_cons] at size short
        rcases follows.sound (by omega) itemRead with ⟨taken, split, spelled, admitted⟩
        rcases exists_commas left with ⟨commas, leftSplit, areCommas⟩
        have taking := itemRead.length_le
        have passing := (afterCommas_suffix left).length_le
        rcases ih _ (by omega) (by omega) later rfl with
          ⟨body, values, leftWhole, closes, same, listing, admittedLater⟩
        refine ⟨first :: taken ++ (commas ++ body), value :: values, ?_, closes, ?_,
          .cons spelled areCommas listing, admitted, admittedLater⟩
        · rw [split, leftSplit, leftWhole]
          simp only [List.cons_append, List.append_assoc]
        · rw [same, List.append_assoc, List.singleton_append]

/-- An item that is read leaves the loop to what stands behind its commas. -/
theorem run_loop_item {list : BraceList} {item : List α -> Token -> Parser α} {earlier : List α}
    {first : Token} {behind left : List Token} {value : α} (inner : first.kind ≠ .closeBrace)
    (itemRead : (item earlier first).Reads behind value left) :
    ((loop list item earlier).run (first :: behind)).outcome =
        ((loop list item (earlier ++ [value])).run (afterCommas left)).outcome ∧
      ((loop list item earlier).run (first :: behind)).rest =
        ((loop list item (earlier ++ [value])).run (afterCommas left)).rest := by
  rcases itemRead with ⟨succeeded, same⟩
  subst same
  simp only [loop, items_item list item earlier inner, Reply.andThen, succeeded]
  exact ⟨trivial, trivial⟩

/-- Items that are spelled and admitted leave the loop to what stands behind
them. -/
theorem run_loop_append {list : BraceList} {item : List α -> Token -> Parser α}
    {spells : List Token -> α -> Prop} {admits : List α -> α -> Prop} {bound : Nat}
    (follows : Follows item spells admits bound) {earlier values : List α} {body rest : List Token}
    (listing : Listing spells body values) (short : (body ++ rest).length ≤ bound)
    (admitted : AdmitsAll admits earlier values) (apart : Apart rest) (stops : Stops .comma rest) :
    ((loop list item earlier).run (body ++ rest)).outcome =
        ((loop list item (earlier ++ values)).run rest).outcome ∧
      ((loop list item earlier).run (body ++ rest)).rest =
        ((loop list item (earlier ++ values)).run rest).rest := by
  induction listing generalizing earlier with
  | nil => simp
  | @cons taken commas behind value values spelled areCommas listing ih =>
      rcases follows.begins spelled with ⟨first, taken, rfl, begins⟩
      have after := after_listing follows listing apart stops
      simp only [List.cons_append, List.append_assoc, List.length_cons, List.length_append] at short ⊢
      have itemRead : (item earlier first).Reads (taken ++ (commas ++ (behind ++ rest)))
          value (commas ++ (behind ++ rest)) :=
        follows.complete (by simp only [List.length_append]; omega) spelled admitted.1
          (apart_commas areCommas after.1)
      have inner : first.kind ≠ .closeBrace := by
        rcases begins with kind | kind | kind | kind | kind <;> simp [kind]
      have here := @run_loop_item α list item earlier first _ _ value inner itemRead
      rw [afterCommas_append areCommas after.2] at here
      have later := ih (by simp only [List.length_append]; omega) admitted.2
      rw [List.append_assoc, List.singleton_append] at later
      exact ⟨here.1.trans later.1, here.2.trans later.2⟩

theorem loop_complete {list : BraceList} {item : List α -> Token -> Parser α}
    {spells : List Token -> α -> Prop} {admits : List α -> α -> Prop} {bound : Nat}
    (follows : Follows item spells admits bound) {earlier values : List α} {body rest : List Token}
    {closing : Token} (listing : Listing spells body values) (closes : closing.kind = .closeBrace)
    (short : (body ++ closing :: rest).length ≤ bound) (admitted : AdmitsAll admits earlier values) :
    (loop list item earlier).Reads (body ++ closing :: rest) (earlier ++ values, closing) rest := by
  have apart : Apart (closing :: rest) := apart_cons (by simp [closes]) (by simp [closes])
  have stops : Stops .comma (closing :: rest) := stops_cons (by simp [closes])
  have same := @run_loop_append α list item spells admits bound follows earlier values body
    (closing :: rest) listing short admitted apart stops
  have closed : (loop list item (earlier ++ values)).Reads (closing :: rest)
      (earlier ++ values, closing) rest := reads_loop_iff.mpr (Or.inl ⟨rfl, closes, rfl⟩)
  exact ⟨same.1.trans closed.1, same.2.trans closed.2⟩

/-- A list is read exactly if its rule spells it and every item is admitted. -/
theorem reads_braced_iff {list : BraceList} {item : List α -> Token -> Parser α}
    {spells : List Token -> α -> Prop} {admits : List α -> α -> Prop} {bound : Nat}
    (follows : Follows item spells admits bound) {values : List α} {tokens rest : List Token}
    {closing : Token} (short : tokens.length ≤ bound) :
    (braced list item).Reads tokens (values, closing) rest <->
      Exists fun body => tokens = body ++ closing :: rest ∧ closing.kind = .closeBrace ∧
        Listing spells body values ∧ AdmitsAll admits [] values := by
  rw [braced_eq_loop]
  constructor
  · intro read
    rcases loop_sound follows short read with ⟨body, found, whole, closes, same, listing, admitted⟩
    rw [List.nil_append] at same
    subst same
    exact ⟨body, whole, closes, listing, admitted⟩
  · intro given
    rcases given with ⟨body, whole, closes, listing, admitted⟩
    subst whole
    exact loop_complete follows listing closes short admitted

end Parser
end TypeSchema
