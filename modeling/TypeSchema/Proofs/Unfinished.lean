import TypeSchema.Proofs.Flattening
import TypeSchema.Proofs.Judgement
import TypeSchema.Proofs.Rejection

namespace TypeSchema

open Grammar

/-!
# Unfinished definitions

A failure that blames no token has met the end of the tokens.  Whatever was
complete up to there has balanced braces, so the braces that are still open are
those of the constructions around the end, and each of these shows once in the
message: the definition by its name, and every list of values inside it.
-/

/-- How many more braces are opened than closed. -/
def braceBalance (tokens : List Token) : Int :=
  (tokens.countP (·.is .openBrace) : Int) - tokens.countP (·.is .closeBrace)

@[simp] theorem braceBalance_append (left right : List Token) :
    braceBalance (left ++ right) = braceBalance left + braceBalance right := by
  simp only [braceBalance, List.countP_append]
  omega

theorem braceBalance_openBrace {token : Token} (opens : token.kind = .openBrace)
    (tokens : List Token) : braceBalance (token :: tokens) = braceBalance tokens + 1 := by
  rw [braceBalance, List.countP_cons_of_pos (by simp [opens]),
    List.countP_cons_of_neg (by simp [opens]), braceBalance]
  omega

theorem braceBalance_closeBrace {token : Token} (closes : token.kind = .closeBrace)
    (tokens : List Token) : braceBalance (token :: tokens) = braceBalance tokens - 1 := by
  rw [braceBalance, List.countP_cons_of_neg (by simp [closes]),
    List.countP_cons_of_pos (by simp [closes]), braceBalance]
  omega

theorem braceBalance_cons {token : Token} (noOpening : token.kind ≠ .openBrace)
    (noClosing : token.kind ≠ .closeBrace) (tokens : List Token) :
    braceBalance (token :: tokens) = braceBalance tokens := by
  rw [braceBalance, List.countP_cons_of_neg (by simp [noOpening]),
    List.countP_cons_of_neg (by simp [noClosing]), braceBalance]

theorem braceBalance_word {token : Token} (word : token.kind = .word) (tokens : List Token) :
    braceBalance (token :: tokens) = braceBalance tokens :=
  braceBalance_cons (by simp [word]) (by simp [word]) tokens

theorem Balanced.braceBalance_eq {tokens : List Token} (balanced : Balanced tokens) :
    braceBalance tokens = 0 := by
  induction balanced with
  | nil => rfl
  | other noOpening noClosing _ ih => rw [braceBalance_cons noOpening noClosing, ih]
  | braces opens _ closes _ ih laterIH =>
      rw [braceBalance_openBrace opens, braceBalance_append, braceBalance_closeBrace closes, ih,
        laterIH]
      rfl

/-- A message begins by saying that the tokens have come to an end. -/
def SaysEnd (message : String) : Prop :=
  Exists fun more => message = "unexpected end of input" ++ more

theorem saysEnd_endOfTokens : SaysEnd Cause.endOfTokens :=
  ⟨"", String.append_empty.symm⟩

theorem SaysEnd.append {message : String} (begins : SaysEnd message) (more : String) :
    SaysEnd (message ++ more) := by
  rcases begins with ⟨said, rfl⟩
  exact ⟨said ++ more, String.append_assoc ..⟩

/-- Only the end of the tokens has no token to blame. -/
theorem Cause.of_unblamed {cause : Cause} (unblamed : cause.token? = none) :
    cause.category = .syntactic ∧ SaysEnd cause.message := by
  cases cause with
  | nameExpected slot found =>
      cases unblamed
      exact ⟨rfl, (saysEnd_endOfTokens.append " after ").append slot.predecessor⟩
  | braceExpected keyword found =>
      cases unblamed
      exact ⟨rfl, ((saysEnd_endOfTokens.append " after ").append keyword.text).append
        " name, expected open brace ('\x7b')"⟩
  | typeBodyExpected name found =>
      cases unblamed
      exact ⟨rfl, saysEnd_endOfTokens.append " after type name, expected ':' or '\x7b'"⟩
  | unclosedList list =>
      exact ⟨rfl, ((saysEnd_endOfTokens.append " during ").append list.label).append
        " list, expected '\x7d'"⟩
  | defaultMissing field =>
      exact ⟨rfl, ((saysEnd_endOfTokens.append " after '=', expected default value for '").append
        field.text).append "'"⟩
  | unclosedBracket => exact ⟨rfl, saysEnd_endOfTokens.append " after open bracket ('[')"⟩
  | assignmentMissing name =>
      exact ⟨rfl, ((saysEnd_endOfTokens.append " after field assignment ('").append
        name.text).append " =')"⟩
  | _ => cases unblamed

namespace Parser

variable {α : Type}

/-- If a failure blames no token, it is met at the end of the tokens, and the
lists around it are the braces that are open there. -/
def EndsOpen (tokens : List Token) (diagnostic : Diagnostic) (rest : List Token) : Prop :=
  diagnostic.token? = none -> rest = [] ∧
    Exists fun depth : Nat => diagnostic.context = List.replicate depth .compound ∧
      braceBalance tokens = depth

theorem EndsOpen.of_blamed {tokens rest : List Token} {diagnostic : Diagnostic} {token : Token}
    (blamed : diagnostic.token? = some token) : EndsOpen tokens diagnostic rest := by
  intro unblamed
  rw [blamed] at unblamed
  cases unblamed

/-! ## Values -/

/-- A name blames no token if there is none. -/
theorem ends_of_name {slot : NameSlot} {tokens rest : List Token} {diagnostic : Diagnostic}
    (failed : (name slot).Fails tokens diagnostic rest) (unblamed : diagnostic.token? = none) :
    tokens = [] ∧ diagnostic.context = [] ∧ rest = [] := by
  rcases fails_name_iff.mp failed with ⟨rfl, rfl, rfl⟩ | ⟨token, _, _, rfl⟩
  · exact ⟨rfl, rfl, rfl⟩
  · cases unblamed

theorem endsOpen_name {slot : NameSlot} {tokens rest : List Token} {diagnostic : Diagnostic}
    (failed : (name slot).Fails tokens diagnostic rest) : EndsOpen tokens diagnostic rest := by
  intro unblamed
  rcases ends_of_name failed unblamed with ⟨rfl, context, atEnd⟩
  exact ⟨atEnd, 0, context, rfl⟩

theorem balanced_children {body : List Token} {children : List Value}
    (listing : Listing SpellsChild body children) : Balanced body :=
  listing.balanced fun _ _ spelled => balanced_value.child spelled

/-- Every list around the end of the tokens is open. -/
theorem inherited_endsOpen : Inherited EndsOpen where
  unexpected := .of_blamed rfl
  member := by
    intro enumName scope behind diagnostic rest word isScope failed unblamed
    rcases endsOpen_name failed unblamed with ⟨atEnd, depth, context, balance⟩
    refine ⟨atEnd, depth, context, ?_⟩
    rw [braceBalance_word word, braceBalance_cons (by simp [isScope]) (by simp [isScope]), balance]
  missing := by
    intro target equals word isEquals _
    refine ⟨rfl, 0, rfl, ?_⟩
    rw [braceBalance_word word, braceBalance_cons (by simp [isEquals]) (by simp [isEquals])]
    rfl
  assigned := by
    intro target equals tokens diagnostic rest word isEquals ends unblamed
    rcases ends unblamed with ⟨atEnd, depth, context, balance⟩
    refine ⟨atEnd, depth, context, ?_⟩
    rw [braceBalance_word word, braceBalance_cons (by simp [isEquals]) (by simp [isEquals]), balance]
  unclosed := by
    intro opening body children opens listing _
    refine ⟨rfl, 1, rfl, ?_⟩
    rw [braceBalance_openBrace opens, (balanced_children listing).braceBalance_eq]
    rfl
  child := by
    intro opening body children tokens diagnostic rest opens listing ends unblamed
    rcases ends unblamed with ⟨atEnd, depth, context, balance⟩
    refine ⟨atEnd, depth + 1, by rw [Diagnostic.within, context, List.replicate_succ], ?_⟩
    rw [braceBalance_openBrace opens, braceBalance_append,
      (balanced_children listing).braceBalance_eq, balance]
    omega
  mixed := by
    intro opening closing body children first other rest _ _ _ _
    exact .of_blamed rfl

/-! ## Fields -/

theorem balanced_arrayMark {mark : List Token} {isArray : Bool}
    (spelled : SpellsArrayMark mark isArray) : Balanced mark := by
  cases spelled with
  | absent => exact .nil
  | present opens closes =>
      exact .other (by simp [opens]) (by simp [opens])
        (.other (by simp [closes]) (by simp [closes]) .nil)

theorem balanced_default {initial : List Token} {value : Option Value}
    (spelled : SpellsDefault initial value) : Balanced initial := by
  cases spelled with
  | absent => exact .nil
  | present equals inner =>
      exact .other (by simp [equals]) (by simp [equals]) (balanced_value.value inner)

theorem balanced_field {taken : List Token} {field : Field} (spelled : SpellsField taken field) :
    Balanced taken := by
  cases spelled with
  | field word named mark initial =>
      exact .other (by simp [word]) (by simp [word]) (.other (by simp [named]) (by simp [named])
        ((balanced_arrayMark mark).append (balanced_default initial)))

theorem endsOpen_arrayMark {tokens rest : List Token} {diagnostic : Diagnostic}
    (failed : arrayMark.Fails tokens diagnostic rest) : EndsOpen tokens diagnostic rest := by
  rcases fails_arrayMark_iff.mp failed with
    ⟨opening, opens, rfl, ⟨rfl, rfl⟩ | ⟨found, _, _, rfl⟩⟩
  · refine fun _ => ⟨rfl, 0, rfl, ?_⟩
    rw [braceBalance_cons (by simp [opens]) (by simp [opens])]
    rfl
  · exact .of_blamed rfl

theorem endsOpen_defaultValue {fieldName : Token} {tokens rest : List Token}
    {diagnostic : Diagnostic} (failed : (defaultValue fieldName).Fails tokens diagnostic rest) :
    EndsOpen tokens diagnostic rest := by
  rcases fails_defaultValue_iff.mp failed with
    ⟨equals, isEquals, ⟨rfl, rfl, rfl⟩ | ⟨first, behind, rfl, valueFailed⟩⟩
  · refine fun _ => ⟨rfl, 0, rfl, ?_⟩
    rw [braceBalance_cons (by simp [isEquals]) (by simp [isEquals])]
    rfl
  · intro unblamed
    rcases inherited_endsOpen.refused valueFailed unblamed with ⟨atEnd, depth, context, balance⟩
    refine ⟨atEnd, depth, context, ?_⟩
    rw [braceBalance_cons (by simp [isEquals]) (by simp [isEquals]), balance]

theorem endsOpen_field {first : Token} {tokens rest : List Token} {diagnostic : Diagnostic}
    (failed : (field first).Fails tokens diagnostic rest) :
    EndsOpen (first :: tokens) diagnostic rest := by
  -- Complete parts in front of the end are balanced.
  have behind : forall {front others : List Token}, Balanced front ->
      EndsOpen others diagnostic rest -> EndsOpen (front ++ others) diagnostic rest := by
    intro front others balanced ends unblamed
    rcases ends unblamed with ⟨atEnd, depth, context, balance⟩
    refine ⟨atEnd, depth, context, ?_⟩
    rw [braceBalance_append, balanced.braceBalance_eq, balance, Int.zero_add]
  rcases fails_field_iff.mp failed with ⟨_, rfl, _⟩ | ⟨word, nameFailed | ⟨fieldName, left, named, rfl,
    ⟨_, rfl, _⟩ | ⟨_, markFailed | ⟨isArray, others, marked, defaultFailed⟩⟩⟩⟩
  · exact .of_blamed rfl
  · exact @behind [first] _ (.other (by simp [word]) (by simp [word]) .nil) (endsOpen_name nameFailed)
  · exact .of_blamed rfl
  · have front : Balanced [first, fieldName] :=
      .other (by simp [word]) (by simp [word]) (.other (by simp [named]) (by simp [named]) .nil)
    exact behind front (endsOpen_arrayMark markFailed)
  · rcases arrayMark_sound marked with ⟨mark, rfl, spelled⟩
    have front : Balanced (first :: fieldName :: mark) :=
      .other (by simp [word]) (by simp [word])
        (.other (by simp [named]) (by simp [named]) (balanced_arrayMark spelled))
    exact behind front (endsOpen_defaultValue defaultFailed)

theorem endsOpen_listedField {typeName first : Token} {earlier : List Field}
    {tokens rest : List Token} {diagnostic : Diagnostic}
    (failed : (listedField typeName earlier first).Fails tokens diagnostic rest) :
    EndsOpen (first :: tokens) diagnostic rest := by
  rcases fails_listedField_iff.mp failed with fieldFailed | ⟨found, _, _, rfl⟩
  · exact endsOpen_field fieldFailed
  · exact .of_blamed rfl

/-- A list of items ends open if its items do. -/
theorem endsOpen_braced {list : BraceList} {item : List α -> Token -> Parser α}
    {spells : List Token -> α -> Prop} {admits : List α -> α -> Prop} {tokens rest : List Token}
    {diagnostic : Diagnostic} (follows : Follows item spells admits tokens.length)
    (balanced : forall taken value, spells taken value -> Balanced taken)
    (each : forall {earlier first others diagnostic rest},
      (item earlier first).Fails others diagnostic rest -> EndsOpen (first :: others) diagnostic rest)
    (failed : (braced list item).Fails tokens diagnostic rest) : EndsOpen tokens diagnostic rest := by
  rw [braced_eq_loop] at failed
  rcases loop_failure follows (Nat.le_refl _) failed with
    ⟨body, values, ahead, rfl, listing, ⟨rfl, rfl, rfl⟩ | ⟨first, behind, rfl, itemFailed⟩⟩
  · refine fun _ => ⟨rfl, 0, rfl, ?_⟩
    rw [List.append_nil, (listing.balanced balanced).braceBalance_eq]
    rfl
  · intro unblamed
    rcases each itemFailed unblamed with ⟨atEnd, depth, context, balance⟩
    refine ⟨atEnd, depth, context, ?_⟩
    rw [braceBalance_append, (listing.balanced balanced).braceBalance_eq, balance, Int.zero_add]

/-! ## Definitions -/

/-- The tokens behind a keyword end before the body of the definition, or in its
body.  Only a type has bodies in its body. -/
inductive Unfinished (keyword : Keyword) (tokens : List Token) : List Context -> Prop where
  | header : braceBalance tokens = 0 -> Unfinished keyword tokens []
  | body {name : Token} {behind : List Token} {depth : Nat} : tokens = name :: behind ->
      braceBalance tokens = depth + 1 -> (keyword = .enum -> depth = 0) ->
      Unfinished keyword tokens (.definition keyword name :: List.replicate depth .compound)

theorem balanced_member {taken : List Token} {member : Token} (spelled : SpellsMember taken member) :
    Balanced taken := by
  cases spelled with
  | member word => exact .other (by simp [word]) (by simp [word]) .nil

theorem balanced_parent {ancestry : List Token} {parent : Option Token}
    (spelled : SpellsParent ancestry parent) : Balanced ancestry := by
  cases spelled with
  | absent => exact .nil
  | present colon word =>
      exact .other (by simp [colon]) (by simp [colon]) (.other (by simp [word]) (by simp [word]) .nil)

theorem ends_of_openBrace {keyword : Keyword} {tokens rest : List Token} {diagnostic : Diagnostic}
    (failed : (openBrace keyword).Fails tokens diagnostic rest) (unblamed : diagnostic.token? = none) :
    tokens = [] ∧ diagnostic.context = [] ∧ rest = [] := by
  rcases fails_openBrace_iff.mp failed with ⟨rfl, rfl, rfl⟩ | ⟨token, _, _, rfl⟩
  · exact ⟨rfl, rfl, rfl⟩
  · cases unblamed

/-- Where the tokens end behind a part of the header, no brace is open. -/
theorem unfinished_header {keyword : Keyword} {front tokens rest : List Token}
    {diagnostic : Diagnostic} (balanced : Balanced front)
    (ends : tokens = [] ∧ diagnostic.context = [] ∧ rest = []) :
    rest = [] ∧ Unfinished keyword (front ++ tokens) diagnostic.context := by
  rcases ends with ⟨rfl, context, atEnd⟩
  rw [context, List.append_nil]
  exact ⟨atEnd, .header balanced.braceBalance_eq⟩

theorem unfinished_enumDefinition {keyword : Token} {tokens rest : List Token}
    {diagnostic : Diagnostic} (failed : (enumDefinition keyword).Fails tokens diagnostic rest)
    (unblamed : diagnostic.token? = none) :
    rest = [] ∧ Unfinished .enum tokens diagnostic.context := by
  rcases fails_enumDefinition_iff.mp failed with nameFailed | ⟨enumName, header, word, rfl,
    braceFailed | ⟨opening, body, opens, rfl, ⟨inner, bodyFailed, rfl⟩ | ⟨_, _, rfl⟩⟩⟩
  · exact unfinished_header .nil (ends_of_name nameFailed unblamed)
  · exact @unfinished_header _ [enumName] _ _ _ (.other (by simp [word]) (by simp [word]) .nil)
      (ends_of_openBrace braceFailed unblamed)
  · rw [braced_eq_loop] at bodyFailed
    rcases loop_failure (listedMember_follows enumName _) (Nat.le_refl _) bodyFailed with
      ⟨listed, members, ahead, rfl, listing, ⟨rfl, rfl, rfl⟩ | ⟨first, behind, rfl, memberFailed⟩⟩
    · have balanced := listing.balanced fun _ _ spelled => balanced_member spelled
      refine ⟨rfl, @Unfinished.body .enum _ enumName _ 0 rfl ?_ fun _ => rfl⟩
      rw [braceBalance_word word, braceBalance_openBrace opens, List.append_nil,
        balanced.braceBalance_eq]
      rfl
    · have impossible : inner.token? = none := unblamed
      rw [token?_of_listedMember memberFailed] at impossible
      cases impossible
  · cases unblamed

theorem unfinished_typeDefinition {keyword : Token} {tokens rest : List Token}
    {diagnostic : Diagnostic} (failed : (typeDefinition keyword).Fails tokens diagnostic rest)
    (unblamed : diagnostic.token? = none) :
    rest = [] ∧ Unfinished .type tokens diagnostic.context := by
  rcases fails_typeDefinition_iff.mp failed with nameFailed | ⟨typeName, header, word, rfl,
    parentFailed | ⟨parentName, behind, parentRead, braceFailed | ⟨opening, body, opens, rfl, inner,
      bodyFailed, rfl⟩⟩⟩
  · exact unfinished_header .nil (ends_of_name nameFailed unblamed)
  · have named : forall others : List Token, Balanced others -> Balanced (typeName :: others) :=
      fun _ => .other (by simp [word]) (by simp [word])
    rcases fails_parent_iff.mp parentFailed with
      ⟨colon, behind, isColon, rfl, parentNameFailed | ⟨parentName, _, _, _, rfl⟩⟩ |
        ⟨_, _, rfl, rfl⟩
    · exact @unfinished_header _ [typeName, colon] _ _ _
        (named _ (.other (by simp [isColon]) (by simp [isColon]) .nil))
        (ends_of_name parentNameFailed unblamed)
    · cases unblamed
    · have atEnd : rest = [] := List.head?_eq_none_iff.mp unblamed
      subst atEnd
      exact ⟨rfl, .header (named _ .nil).braceBalance_eq⟩
  · rcases reads_parent_iff.mp parentRead with ⟨⟨ancestry, rfl, spelled, _⟩, _⟩
    exact @unfinished_header _ (typeName :: ancestry) _ _ _
      (.other (by simp [word]) (by simp [word]) (balanced_parent spelled))
      (ends_of_openBrace braceFailed unblamed)
  · rcases reads_parent_iff.mp parentRead with ⟨⟨ancestry, rfl, spelled, _⟩, _⟩
    have ends := endsOpen_braced (listedField_follows typeName _) (fun _ _ => balanced_field)
      endsOpen_listedField bodyFailed
    rcases ends unblamed with ⟨rfl, depth, context, balance⟩
    rw [Diagnostic.within, context]
    refine ⟨rfl, .body rfl ?_ nofun⟩
    rw [braceBalance_word word, braceBalance_append, (balanced_parent spelled).braceBalance_eq,
      braceBalance_openBrace opens, balance]
    omega

/-- What is no definition at all is blamed on its first token. -/
theorem unfinished_definition {first : Token} {tokens rest : List Token} {diagnostic : Diagnostic}
    (failed : (Parser.definition first).Fails tokens diagnostic rest)
    (unblamed : diagnostic.token? = none) :
    rest = [] ∧ Exists fun keyword => Keyword.ofToken? first = some keyword ∧
      Unfinished keyword tokens diagnostic.context := by
  rw [Parser.definition] at failed
  split at failed
  · next found =>
      rcases unfinished_enumDefinition failed unblamed with ⟨atEnd, unfinished⟩
      exact ⟨atEnd, .enum, found, unfinished⟩
  · next found =>
      rcases unfinished_typeDefinition failed unblamed with ⟨atEnd, unfinished⟩
      exact ⟨atEnd, .type, found, unfinished⟩
  · split at failed <;>
      · rcases fails_fail_iff.mp failed with ⟨rfl, _⟩
        cases unblamed

end Parser

namespace Schema

theorem unfinished_step {schema : Schema} {tokens rest : List Token} {diagnostic : Diagnostic}
    (rejected : schema.Rejects tokens diagnostic rest) (unblamed : diagnostic.token? = none) :
    rest = [] ∧ Exists fun first => Exists fun behind => Exists fun keyword =>
      tokens = first :: behind ∧ Keyword.ofToken? first = some keyword ∧
        Parser.Unfinished keyword behind diagnostic.context := by
  rcases rejects_iff.mp rejected with ⟨first, behind, rfl, failed | ⟨definition, _, _, rfl⟩⟩
  · rcases Parser.unfinished_definition failed unblamed with ⟨atEnd, keyword, found, unfinished⟩
    exact ⟨atEnd, first, behind, keyword, rfl, found, unfinished⟩
  · cases unblamed

/-- A definition shows in a message by its keyword and its name. -/
theorem message_of_body (keyword : Keyword) (name : Token) (depth : Nat) (cause : Cause) :
    Diagnostic.message { context := .definition keyword name :: List.replicate depth .compound, cause } =
      keyword.text ++ " '" ++ name.text ++ "': " ++
        (String.join (List.replicate depth "compound value: ") ++ cause.message) := by
  have label : Context.label (.definition keyword name) = keyword.text ++ " '" ++ name.text ++ "'" := rfl
  have join : forall more : String, "'" ++ (": " ++ more) = "': " ++ more := by
    intro more
    rw [← String.append_assoc]
    rfl
  rw [Diagnostic.message_cons, label, Parser.message_compounds]
  simp only [String.append_assoc, join]

/-- The message tells which braces are open behind these tokens.  The first open
brace is that of a definition, whose name stands behind its keyword, and all
others are those of lists of values. -/
structure TellsBraces (first : Token) (behind : List Token) (message : String) : Prop where
  nonneg : 0 ≤ braceBalance (first :: behind)
  closed : braceBalance (first :: behind) = 0 -> SaysEnd message
  enum : 1 ≤ braceBalance (first :: behind) -> first.isWord "enum" = true ->
    braceBalance (first :: behind) = 1 ∧ Exists fun name => behind.head? = some name ∧
      Exists fun said => SaysEnd said ∧ message = s!"enum '{name.text}': " ++ said
  type : 1 ≤ braceBalance (first :: behind) -> first.isWord "type" = true ->
    Exists fun name => behind.head? = some name ∧ Exists fun said => SaysEnd said ∧
      message = s!"type '{name.text}': " ++
        (String.join (List.replicate ((braceBalance (first :: behind)).toNat - 1)
          "compound value: ") ++ said)

/-- A step whose failure blames no token has met the end of the tokens within a
definition, and the message tells which braces are open there. -/
theorem step_unblamed {schema : Schema} {tokens : List Token} {diagnostic : Diagnostic}
    (failed : (schema.step tokens).outcome = .error diagnostic)
    (unblamed : diagnostic.token? = none) :
    Exists fun first => Exists fun behind => tokens = first :: behind ∧
      (first.isWord "enum" = true ∨ first.isWord "type" = true) ∧
      TellsBraces first behind diagnostic.message := by
  rcases unfinished_step (rejects_of_error failed) unblamed with
    ⟨_, first, behind, keyword, rfl, found, unfinished⟩
  rcases Parser.ofToken?_eq_some_iff.mp found with ⟨word, spelling⟩
  have ends := (Cause.of_unblamed unblamed).2
  have ofKeyword : forall {other : Keyword}, first.isWord other.text = true -> keyword = other := by
    intro other isOther
    have again := Parser.ofToken?_eq_some_iff.mpr ((first.isWord_iff _).mp isOther)
    exact Option.some.inj (found.symm.trans again)
  refine ⟨first, behind, rfl, ?_, ?_⟩
  · cases keyword with
    | enum => exact Or.inl ((first.isWord_iff _).mpr ⟨word, spelling⟩)
    | type => exact Or.inr ((first.isWord_iff _).mpr ⟨word, spelling⟩)
  · have balance := braceBalance_word word behind
    rcases diagnostic with ⟨context, cause⟩
    cases unfinished with
    | header isClosed =>
        rw [isClosed] at balance
        constructor
        case nonneg => omega
        case closed => exact fun _ => ends
        case enum => intro isOpen; omega
        case type => intro isOpen; omega
    | @body name behind depth whole isOpen flat =>
        subst whole
        rw [isOpen] at balance
        constructor
        case nonneg => omega
        case closed => intro isClosed; omega
        case enum =>
          intro _ isEnum
          have same := @ofKeyword .enum isEnum
          subst same
          rw [flat rfl] at balance ⊢
          exact ⟨balance, name, rfl, cause.message, ends, message_of_body .enum name 0 cause⟩
        case type =>
          intro _ isType
          have same := @ofKeyword .type isType
          subst same
          have count : (braceBalance (first :: name :: behind)).toNat - 1 = depth := by omega
          rw [count]
          exact ⟨name, rfl, cause.message, ends, message_of_body .type name depth cause⟩

/-- The tokens of `type A { B b = { c = { 1 } d = {`. -/
def openTokens : List Token :=
  [{ kind := .word, text := "type" }, { kind := .word, text := "A", start := 5 },
    { kind := .openBrace, text := "\x7b", start := 7 }, { kind := .word, text := "B", start := 9 },
    { kind := .word, text := "b", start := 11 }, { kind := .equals, text := "=", start := 13 },
    { kind := .openBrace, text := "\x7b", start := 15 }, { kind := .word, text := "c", start := 17 },
    { kind := .equals, text := "=", start := 19 }, { kind := .openBrace, text := "\x7b", start := 21 },
    { kind := .integer, text := "1", start := 23 }, { kind := .closeBrace, text := "\x7d", start := 25 },
    { kind := .word, text := "d", start := 27 }, { kind := .equals, text := "=", start := 29 },
    { kind := .openBrace, text := "\x7b", start := 31 }]

/-- Of the four braces one is closed again. -/
theorem step_unblamed_openTokens :
    braceBalance openTokens = 3 ∧
      Exists fun first => Exists fun behind => openTokens = first :: behind ∧
        TellsBraces first behind
          ("type 'A': compound value: compound value: " ++
            "unexpected end of input during compound value list, expected '\x7d'") := by
  have failed : (empty.step openTokens).outcome =
      .error { context := [.definition .type { kind := .word, text := "A", start := 5 }, .compound,
                 .compound],
               cause := .unclosedList .compoundValues } := by
    decide +kernel
  rcases step_unblamed failed rfl with ⟨first, behind, split, _, braces⟩
  exact ⟨by decide +kernel, first, behind, split, braces⟩

end Schema
end TypeSchema
