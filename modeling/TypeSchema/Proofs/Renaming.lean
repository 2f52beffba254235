import TypeSchema.Proofs.Language
import TypeSchema.Proofs.Replacement

namespace TypeSchema

/-!
# Parsers do not see how names are chosen

A parser looks at the kinds of tokens, tells the reserved words from all other
words, compares names for equality, and asks whether a name is blank.  A
replacement of tokens that keeps all this is a renaming.  Parsing renamed
tokens is parsing the given ones and renaming the reply, be it a tree or a
failure.  Two names are compared only if both are words, so nothing is asked
of the texts of other tokens.
-/

/-- The words that mean something to the grammar. -/
def Token.reservedWords : List String :=
  ["enum", "type", "true", "false"]

/-- A replacement of tokens that no parser can tell from none. -/
structure Token.IsRenaming (change : Token -> Token) : Prop where
  kind : forall token, (change token).kind = token.kind
  reserved : forall token, token.kind = .word -> forall text, text ∈ reservedWords ->
    ((change token).text = text <-> token.text = text)
  apart : forall left right, left.kind = .word -> right.kind = .word ->
    ((change left).text = (change right).text <-> left.text = right.text)
  blank : forall token, token.kind = .word ->
    Parser.isBlankName (change token).text = Parser.isBlankName token.text

/-- The same reply about other tokens. -/
def Reply.mapTokens {α β : Type} (change : Token -> Token) (onValue : α -> β) (reply : Reply α) :
    Reply β where
  outcome :=
    match reply.outcome with
    | .error diagnostic => .error (diagnostic.mapTokens change)
    | .ok value => .ok (onValue value)
  rest := reply.rest.map change
  events := reply.events.map (Event.mapTokens change)

variable {α β γ δ : Type} {change : Token -> Token}

/-- A reply goes on in the same way after its tokens are replaced. -/
theorem Reply.mapTokens_andThen {onFirst : α -> β} {onValue : γ -> δ} {reply : Reply α}
    {next : α -> List Token -> Reply γ} {changedNext : β -> List Token -> Reply δ}
    (same : forall value, reply.outcome = .ok value ->
      changedNext (onFirst value) (reply.rest.map change) =
        (next value reply.rest).mapTokens change onValue) :
    (reply.mapTokens change onFirst).andThen changedNext =
      (reply.andThen next).mapTokens change onValue := by
  rcases reply with ⟨outcome, rest, events⟩
  cases outcome with
  | error diagnostic => rfl
  | ok value =>
      have later := same value rfl
      simp only [Reply.mapTokens] at later
      simp only [Reply.andThen, Reply.mapTokens, later, List.map_append]

namespace Parser

/-- On replaced tokens the second parser replies as the first one does on the
given tokens, with the tokens of the reply replaced as well. -/
def Commutes (change : Token -> Token) (onValue : α -> β) (parser : Parser α) (changed : Parser β) :
    Prop :=
  forall tokens, changed.run (tokens.map change) = (parser.run tokens).mapTokens change onValue

/-! ## Primitives -/

theorem commutes_pure (onValue : α -> β) (value : α) :
    Commutes change onValue (pure value) (pure (onValue value)) :=
  fun _ => rfl

theorem commutes_fail (onValue : α -> β) (cause : Cause) :
    Commutes change onValue (fail cause) (fail (cause.mapTokens change)) :=
  fun _ => rfl

theorem commutes_emit (event : Event) :
    Commutes change id (emit event) (emit (event.mapTokens change)) :=
  fun _ => rfl

/-- Of the second parser nothing is asked for values that the first one does
not read. -/
theorem Commutes.bind {onFirst : α -> β} {onValue : γ -> δ} {parser : Parser α} {changed : Parser β}
    {next : α -> Parser γ} {changedNext : β -> Parser δ}
    (first : Commutes change onFirst parser changed)
    (later : forall value tokens rest, parser.Reads tokens value rest ->
      Commutes change onValue (next value) (changedNext (onFirst value))) :
    Commutes change onValue (parser >>= next) (changed >>= changedNext) := by
  intro tokens
  rw [run_bind, run_bind, first tokens]
  apply Reply.mapTokens_andThen
  intro value succeeded
  exact later value tokens _ ⟨succeeded, rfl⟩ _

theorem Commutes.within {onValue : α -> β} {parser : Parser α} {changed : Parser β}
    (inner : Commutes change onValue parser changed) (context : Context) :
    Commutes change onValue (within context parser)
      (within (context.mapTokens change) changed) := by
  intro tokens
  simp only [Parser.within, inner tokens, Reply.mapTokens]
  cases (parser.run tokens).outcome <;> rfl

theorem commutes_next? : Commutes change (Option.map change) next? next? := by
  intro tokens
  cases tokens <;> rfl

theorem commutes_front? : Commutes change (Option.map change) front? front? := by
  intro tokens
  cases tokens <;> rfl

section Renaming

variable (renames : Token.IsRenaming change)

include renames

theorem is_renamed (token : Token) (kind : Token.Kind) : (change token).is kind = token.is kind := by
  rw [Token.is, Token.is, renames.kind]

theorem commutes_nextIf? (kind : Token.Kind) :
    Commutes change (Option.map change) (nextIf? kind) (nextIf? kind) := by
  intro tokens
  cases tokens with
  | nil => rfl
  | cons token tokens =>
      rw [List.map_cons, run_nextIf?_cons, run_nextIf?_cons, renames.kind]
      split <;> rfl

theorem commutes_name (slot : NameSlot) : Commutes change change (name slot) (name slot) := by
  intro tokens
  cases tokens with
  | nil => rfl
  | cons token tokens =>
      rw [List.map_cons, run_name_cons, run_name_cons, renames.kind]
      split <;> rfl

theorem commutes_openBrace (keyword : Keyword) :
    Commutes change change (openBrace keyword) (openBrace keyword) := by
  intro tokens
  cases tokens with
  | nil => rfl
  | cons token tokens =>
      rw [List.map_cons, run_openBrace_cons, run_openBrace_cons, renames.kind]
      split <;> rfl

/-! ## Lists -/

theorem afterCommas_map (tokens : List Token) :
    afterCommas (tokens.map change) = (afterCommas tokens).map change := by
  have same : (fun token : Token => token.is .comma) ∘ change = fun token => token.is .comma := by
    funext token
    exact is_renamed renames token .comma
  rw [afterCommas, afterCommas, List.dropWhile_map, same]

/-- The reader of items has to commute only where the items before are as this
reader leaves them. -/
theorem items_map {onItem : α -> β} {item : List α -> Token -> Parser α}
    {changedItem : List β -> Token -> Parser β} (kept : α -> Prop) (list : BraceList)
    (keeps : forall earlier first tokens value rest,
      (item earlier first).Reads tokens value rest -> kept value)
    (commutes : forall earlier first, (forall value, value ∈ earlier -> kept value) ->
      Commutes change onItem (item earlier first) (changedItem (earlier.map onItem) (change first)))
    (earlier : List α) (allKept : forall value, value ∈ earlier -> kept value)
    (tokens : List Token) :
    items list changedItem (earlier.map onItem) (tokens.map change) =
      (items list item earlier tokens).mapTokens change (Prod.map (List.map onItem) change) := by
  induction count : tokens.length using Nat.strongRecOn generalizing tokens earlier with
  | ind size ih =>
      cases tokens with
      | nil =>
          rw [List.map_nil, items_nil, items_nil]
          rfl
      | cons token behind =>
          rw [List.map_cons]
          by_cases closes : token.kind = .closeBrace
          · rw [items_closeBrace _ _ _ closes,
              items_closeBrace _ _ _ ((renames.kind token).trans closes)]
            rfl
          · have inner : (change token).kind ≠ .closeBrace := by
              rw [renames.kind]
              exact closes
            rw [items_item _ _ _ closes, items_item _ _ _ inner,
              commutes earlier token allKept behind]
            apply Reply.mapTokens_andThen
            intro value succeeded
            have read : (item earlier token).Reads behind value _ := ⟨succeeded, rfl⟩
            have left := (afterCommas_suffix ((item earlier token).run behind).rest).length_le
            have taken := read.length_le
            have stillKept : forall other, other ∈ earlier ++ [value] -> kept other := by
              intro other member
              rcases List.mem_append.mp member with before | isValue
              · exact allKept other before
              · rw [List.mem_singleton.mp isValue]
                exact keeps earlier token behind value _ read
            rw [List.length_cons] at count
            have later := ih _ (by omega) (earlier ++ [value]) stillKept
              (afterCommas ((item earlier token).run behind).rest) rfl
            rwa [List.map_append, List.map_singleton, ← afterCommas_map renames] at later

theorem commutes_braced {onItem : α -> β} {item : List α -> Token -> Parser α}
    {changedItem : List β -> Token -> Parser β} (kept : α -> Prop) (list : BraceList)
    (keeps : forall earlier first tokens value rest,
      (item earlier first).Reads tokens value rest -> kept value)
    (commutes : forall earlier first, (forall value, value ∈ earlier -> kept value) ->
      Commutes change onItem (item earlier first) (changedItem (earlier.map onItem) (change first))) :
    Commutes change (Prod.map (List.map onItem) change)
      (braced list item) (braced list changedItem) :=
  items_map renames kept list keeps commutes [] fun _ impossible =>
    absurd impossible List.not_mem_nil

/-! ## Values -/

theorem isTruthValue_iff {first : Token} (word : first.kind = .word) :
    ((change first).text = "true" ∨ (change first).text = "false") <->
      (first.text = "true" ∨ first.text = "false") := by
  rw [renames.reserved first word "true" (by decide), renames.reserved first word "false" (by decide)]

theorem commutes_reference (enumName : Token) :
    Commutes change (Value.mapTokens change) (reference enumName) (reference (change enumName)) := by
  apply (commutes_name renames .referenceMember).bind
  intro member _ _ _
  exact commutes_pure (Value.mapTokens change) (.reference enumName member)

variable {nested changedNested : Token -> Parser Value}
  (inner : forall first, Commutes change (Value.mapTokens change) (nested first)
    (changedNested (change first)))

include inner

omit renames in
theorem commutes_assignmentWith (target : Token) :
    Commutes change (Value.mapTokens change) (assignmentWith nested target)
      (assignmentWith changedNested (change target)) := by
  apply commutes_next?.bind
  intro found _ _ _
  cases found with
  | none => exact commutes_fail _ (.assignmentMissing target)
  | some first =>
      apply (inner first).bind
      intro value _ _ _
      exact commutes_pure (Value.mapTokens change) (.assignment target value)

theorem commutes_childWith (first : Token) :
    Commutes change (Value.mapTokens change) (childWith nested first)
      (childWith changedNested (change first)) := by
  rw [childWith, childWith, is_renamed renames]
  split
  · apply (commutes_nextIf? renames .equals).bind
    intro found _ _ _
    cases found with
    | none => exact inner first
    | some equals => exact commutes_assignmentWith inner first
  · exact inner first

theorem commutes_compoundWith (opening : Token) :
    Commutes change (Value.mapTokens change) (compoundWith nested opening)
      (compoundWith changedNested (change opening)) := by
  apply Commutes.within
  have children : Commutes change (Prod.map (List.map (Value.mapTokens change)) change)
      (braced .compoundValues fun _ first => childWith nested first)
      (braced .compoundValues fun _ first => childWith changedNested first) :=
    commutes_braced renames (fun _ => True) .compoundValues (fun _ _ _ _ _ _ => trivial)
      fun _ first _ => commutes_childWith renames inner first
  apply children.bind
  rintro ⟨values, closing⟩ _ _ _
  simp only [Prod.map, Value.mismatch?_map]
  cases Value.mismatch? values with
  | some pair =>
      rcases pair with ⟨expected, other⟩
      simp only [Option.map_some, Prod.map, id, Value.kind_mapTokens, Value.token_mapTokens]
      exact commutes_fail _ (.mixedCompound expected other.kind other.token)
  | none =>
      simp only [Option.map_none, Value.shapeOf_map, List.length_map]
      apply (commutes_emit (.compound (Value.shapeOf values) values.length)).bind
      intro _ _ _ _
      rw [← Value.mapAllTokens_eq_map]
      exact commutes_pure _ (Value.compound opening closing (Value.shapeOf values) values)

theorem commutes_valueWith (first : Token) :
    Commutes change (Value.mapTokens change) (valueWith nested first)
      (valueWith changedNested (change first)) := by
  have literal : forall kind, Commutes change (Value.mapTokens change)
      (pure (.scalar { kind, token := first })) (pure (.scalar { kind, token := change first })) :=
    fun kind => commutes_pure _ (Value.scalar { kind, token := first })
  rw [valueWith, valueWith, renames.kind]
  cases kind : first.kind with
  | openBrace => exact commutes_compoundWith renames inner first
  | integer => exact literal .int
  | float => exact literal .float
  | string => exact literal .string
  | word =>
      simp only [isTruthValue_iff renames kind]
      split
      · exact literal .bool
      · apply (commutes_nextIf? renames .scope).bind
        intro found _ _ _
        cases found with
        | none => exact commutes_fail _ (.valueExpected first)
        | some scope => exact commutes_reference renames first
  | _ => exact commutes_fail _ (.valueExpected first)

omit inner

theorem commutes_valueOfDepth (depth : Nat) (first : Token) :
    Commutes change (Value.mapTokens change) (valueOfDepth depth first)
      (valueOfDepth depth (change first)) := by
  induction depth generalizing first with
  | zero => exact commutes_valueWith renames (fun token => commutes_fail _ (.valueExpected token)) first
  | succ depth ih => exact commutes_valueWith renames ih first

theorem commutes_value (first : Token) :
    Commutes change (Value.mapTokens change) (value first) (value (change first)) := by
  intro tokens
  have same := commutes_valueOfDepth renames tokens.length first tokens
  simpa only [value, List.length_map] using same

/-! ## Definitions -/

/-- A name is among the names before it exactly if this is so after renaming. -/
theorem any_name_map (name : α -> Token) {onItem : α -> α}
    (named : forall value, name (onItem value) = change (name value)) {earlier : List α}
    (words : forall value, value ∈ earlier -> (name value).kind = .word) {found : Token}
    (word : found.kind = .word) :
    ((earlier.map onItem).any fun other => (name other).text == (change found).text) =
      earlier.any fun other => (name other).text == found.text := by
  induction earlier with
  | nil => rfl
  | cons value earlier ih =>
      have same : ((name (onItem value)).text == (change found).text) =
          ((name value).text == found.text) := by
        rw [named, Bool.eq_iff_iff, beq_iff_eq, beq_iff_eq]
        exact renames.apart (name value) found (words value (List.mem_cons_self ..)) word
      rw [List.map_cons, List.any_cons, List.any_cons, same,
        ih fun other member => words other (List.mem_cons_of_mem _ member)]

theorem commutes_listedMember (enumName first : Token) {earlier : List Token}
    (words : forall member, member ∈ earlier -> member.kind = .word) :
    Commutes change change (listedMember enumName earlier first)
      (listedMember (change enumName) (earlier.map change) (change first)) := by
  rw [listedMember, listedMember, is_renamed renames]
  by_cases word : first.kind = .word
  · have met : ((earlier.map change).any fun other => other.text == (change first).text) =
        earlier.any fun other => other.text == first.text :=
      any_name_map renames id (fun _ => rfl) words word
    rw [met, renames.blank first word]
    split
    · exact commutes_fail _ (.memberExpected first)
    · split
      · exact commutes_fail _ (.duplicateMember first)
      · split
        · exact commutes_fail _ (.blankMember first)
        · rw [List.length_map]
          apply (commutes_emit (.member enumName first earlier.length)).bind
          intro _ _ _ _
          exact commutes_pure change first
  · have noWord : (!first.is .word) = true := by simp [Token.is, word]
    rw [if_pos noWord, if_pos noWord]
    exact commutes_fail _ (.memberExpected first)

theorem commutes_enumDefinition (keyword : Token) :
    Commutes change (Definition.mapTokens change) (enumDefinition keyword)
      (enumDefinition (change keyword)) := by
  rw [enumDefinition_eq, enumDefinition_eq]
  apply (commutes_name renames (.definition .enum)).bind
  intro enumName _ _ _
  apply (commutes_openBrace renames .enum).bind
  intro _ _ _ _
  have members := commutes_braced renames (fun member : Token => member.kind = .word) .enumMembers
    (fun _ _ _ _ _ read => by
      rcases reads_listedMember_iff.mp read with ⟨⟨rfl, _⟩, word, _⟩
      exact word)
    (fun _ first words => commutes_listedMember renames enumName first words)
  apply (members.within (.definition .enum enumName)).bind
  rintro ⟨members, closing⟩ _ _ _
  simp only [Prod.map, List.isEmpty_map]
  split
  · exact commutes_fail _ (.noMembers enumName)
  · exact commutes_pure _ (Definition.enum { keyword, name := enumName, members })

theorem commutes_arrayMark : Commutes change id arrayMark arrayMark := by
  apply (commutes_nextIf? renames .openBracket).bind
  intro found _ _ _
  cases found with
  | none => exact commutes_pure id false
  | some bracket =>
      apply (commutes_nextIf? renames .closeBracket).bind
      intro closing _ _ _
      cases closing with
      | some _ => exact commutes_pure id true
      | none =>
          apply commutes_front?.bind
          intro front _ _ _
          cases front with
          | some token => exact commutes_fail id (.sizedArray bracket token)
          | none => exact commutes_fail id .unclosedBracket

theorem commutes_defaultValue (fieldName : Token) :
    Commutes change (Option.map (Value.mapTokens change)) (defaultValue fieldName)
      (defaultValue (change fieldName)) := by
  apply (commutes_nextIf? renames .equals).bind
  intro found _ _ _
  cases found with
  | none => exact commutes_pure _ none
  | some equals =>
      apply commutes_next?.bind
      intro first _ _ _
      cases first with
      | none => exact commutes_fail _ (.defaultMissing fieldName)
      | some first =>
          apply (commutes_value renames first).bind
          intro value _ _ _
          exact commutes_pure _ (some value)

theorem commutes_field (typeName : Token) :
    Commutes change (Field.mapTokens change) (field typeName) (field (change typeName)) := by
  rw [field, field, is_renamed renames]
  split
  · exact commutes_fail _ (.fieldExpected typeName)
  · apply (commutes_name renames .field).bind
    intro fieldName _ _ named
    rw [renames.blank fieldName (reads_name_iff.mp named).1]
    split
    · exact commutes_fail _ (.blankField fieldName)
    · apply (commutes_arrayMark renames).bind
      intro isArray _ _ _
      apply (commutes_defaultValue renames fieldName).bind
      intro initial _ _ _
      exact commutes_pure (Field.mapTokens change)
        { typeName, name := fieldName, isArray, defaultValue := initial }

omit renames in
theorem nameWord_of_field {first : Token} {tokens rest : List Token} {found : Field}
    (read : (field first).Reads tokens found rest) : found.name.kind = .word := by
  rcases field_sound read with ⟨_, _, spelled, _⟩
  cases spelled with
  | field _ word _ _ => exact word

theorem commutes_listedField (typeName first : Token) {earlier : List Field}
    (words : forall field, field ∈ earlier -> field.name.kind = .word) :
    Commutes change (Field.mapTokens change) (listedField typeName earlier first)
      (listedField (change typeName) (earlier.map (Field.mapTokens change)) (change first)) := by
  apply (commutes_field renames first).bind
  intro found _ _ read
  have met : ((earlier.map (Field.mapTokens change)).any fun other =>
        other.name.text == (found.mapTokens change).name.text) =
      earlier.any fun other => other.name.text == found.name.text :=
    any_name_map renames Field.name (fun _ => rfl) words (nameWord_of_field read)
  simp only [met]
  split
  · exact commutes_fail _ (.duplicateField found.name)
  · apply (commutes_emit (.field typeName found)).bind
    intro _ _ _ _
    exact commutes_pure _ found

theorem commutes_parent {typeName : Token} (word : typeName.kind = .word) :
    Commutes change (Option.map change) (parent typeName) (parent (change typeName)) := by
  apply (commutes_nextIf? renames .colon).bind
  intro found _ _ _
  cases found with
  | some colon =>
      apply (commutes_name renames .parent).bind
      intro parentName _ _ named
      have same := renames.apart parentName typeName (reads_name_iff.mp named).1 word
      simp only [same]
      split
      · exact commutes_fail _ (.ownParent typeName parentName)
      · exact commutes_pure _ (some parentName)
  | none =>
      apply commutes_front?.bind
      intro front _ _ _
      cases front with
      | some token =>
          simp only [Option.map_some, is_renamed renames]
          split
          · exact commutes_pure _ none
          · exact commutes_fail _ (.typeBodyExpected typeName (some token))
      | none => exact commutes_fail _ (.typeBodyExpected typeName none)

theorem commutes_typeDefinition (keyword : Token) :
    Commutes change (Definition.mapTokens change) (typeDefinition keyword)
      (typeDefinition (change keyword)) := by
  rw [typeDefinition_eq, typeDefinition_eq]
  apply (commutes_name renames (.definition .type)).bind
  intro typeName _ _ named
  apply (commutes_parent renames (reads_name_iff.mp named).1).bind
  intro parentName _ _ _
  apply (commutes_openBrace renames .type).bind
  intro _ _ _ _
  have fields := commutes_braced renames (fun field : Field => field.name.kind = .word) .typeMembers
    (fun _ _ _ _ _ read => nameWord_of_field (reads_listedField_iff.mp read).1)
    (fun _ first words => commutes_listedField renames typeName first words)
  apply (fields.within (.definition .type typeName)).bind
  rintro ⟨fields, closing⟩ _ _ _
  exact commutes_pure _
    (Definition.type { keyword, name := typeName, parent := parentName, fields })

theorem ofToken?_renamed (token : Token) : Keyword.ofToken? (change token) = Keyword.ofToken? token := by
  by_cases word : token.kind = .word
  · simp only [Keyword.ofToken?, Token.isWord_iff, renames.kind, word, true_and,
      renames.reserved token word "enum" (by decide), renames.reserved token word "type" (by decide)]
  · simp [Keyword.ofToken?, Token.isWord, renames.kind, word]

/-- Definitions are read from renamed tokens as from the given ones. -/
theorem commutes_definition (first : Token) :
    Commutes change (Definition.mapTokens change) (definition first) (definition (change first)) := by
  rw [definition, definition, ofToken?_renamed renames, renames.kind]
  cases Keyword.ofToken? first with
  | some keyword =>
      cases keyword with
      | enum => exact commutes_enumDefinition renames first
      | type => exact commutes_typeDefinition renames first
  | none =>
      cases first.kind with
      | word => exact commutes_fail _ (.notAKeyword first)
      | closeBrace => exact commutes_fail _ (.unmatchedBrace first)
      | _ => exact commutes_fail _ (.notADefinition first)

end Renaming

end Parser

namespace Schema

/-! ## Schemas -/

variable {change : Token -> Token}

/-- Every definition has a word as its name. -/
def NamedByWords (schema : Schema) : Prop :=
  forall definition, definition ∈ schema.definitions -> definition.name.kind = .word

theorem namedByWords_empty : empty.NamedByWords :=
  fun _ impossible => absurd impossible List.not_mem_nil

theorem nameWord_of_spelled {taken : List Token} {definition : Definition}
    (spelled : Grammar.SpellsDefinition taken definition) : definition.name.kind = .word := by
  cases spelled with
  | enum _ _ word _ _ _ _ => exact word
  | type _ _ word _ _ _ _ => exact word

theorem nameWord_of_reads {first : Token} {behind rest : List Token} {definition : Definition}
    (read : (Parser.definition first).Reads behind definition rest) :
    definition.name.kind = .word := by
  rcases Parser.reads_definition_iff.mp read with ⟨_, _, spelled, _⟩
  exact nameWord_of_spelled spelled

theorem Enters.nameWord {schema : Schema} {tokens rest : List Token} {definition : Definition}
    (entered : schema.Enters tokens definition rest) : definition.name.kind = .word := by
  rcases (enters_iff.mp entered).1 with ⟨taken, _, spelled, _⟩
  exact nameWord_of_spelled spelled

theorem namedByWords_step {schema : Schema} (words : schema.NamedByWords) (tokens : List Token) :
    (schema.step tokens).schema.NamedByWords := by
  rcases schema.step_schema_cases tokens with unchanged | ⟨definition, entered⟩
  · rw [unchanged]
    exact words
  · rw [entered.2.1]
    intro other member
    rcases List.mem_append.mp member with before | isNew
    · exact words other before
    · rw [List.mem_singleton.mp isNew]
      exact entered.nameWord

theorem mem_names_iff_any {schema : Schema} {text : String} :
    text ∈ schema.names <->
      (schema.definitions.any fun definition => definition.name.text == text) = true := by
  rw [names, List.mem_map, List.any_eq_true]
  simp only [beq_iff_eq]

theorem mem_names_map (renames : Token.IsRenaming change) {schema : Schema}
    (words : schema.NamedByWords) {name : Token} (word : name.kind = .word) :
    (change name).text ∈ (schema.mapTokens change).names <-> name.text ∈ schema.names := by
  have met : ((schema.definitions.map (Definition.mapTokens change)).any fun other =>
        other.name.text == (change name).text) =
      schema.definitions.any fun other => other.name.text == name.text :=
    Parser.any_name_map renames Definition.name (Definition.name_mapTokens change) words word
  rw [mem_names_iff_any, mem_names_iff_any, ← met]
  rfl

/-- The second step does what the first one does, with other tokens. -/
structure Step.IsRenamed (change : Token -> Token) (step changed : Step) : Prop where
  failure : forall diagnostic, step.outcome = .error diagnostic ->
    changed.outcome = .error (diagnostic.mapTokens change)
  success : forall name, step.outcome = .ok name -> Exists fun other => changed.outcome = .ok other
  schema : changed.schema = step.schema.mapTokens change
  rest : changed.rest = step.rest.map change
  events : changed.events = step.events.map (Event.mapTokens change)

theorem step_map (renames : Token.IsRenaming change) {schema : Schema} (words : schema.NamedByWords)
    (tokens : List Token) :
    (schema.step tokens).IsRenamed change ((schema.mapTokens change).step (tokens.map change)) := by
  cases tokens with
  | nil =>
      refine ⟨fun _ failed => ?_, fun name _ => ⟨none, rfl⟩, rfl, rfl, rfl⟩
      cases failed
  | cons first behind =>
      have replies := Parser.commutes_definition renames first behind
      rw [List.map_cons]
      simp only [step, replies]
      cases reply : (Parser.definition first).run behind with
      | mk outcome rest events =>
          cases outcome with
          | error diagnostic =>
              refine ⟨fun _ failed => ?_, fun name impossible => ?_, rfl, rfl, rfl⟩
              · rw [← Except.error.inj failed]
                rfl
              · cases impossible
          | ok definition =>
              have read : (Parser.definition first).Reads behind definition rest :=
                ⟨by rw [reply], by rw [reply]⟩
              have same := mem_names_map renames words (nameWord_of_reads read)
              rw [← Definition.name_mapTokens change definition] at same
              simp only [Reply.mapTokens]
              by_cases known : definition.name.text ∈ schema.names
              · simp only [define_of_known known, define_of_known (same.mpr known), Definition.name_mapTokens]
                refine ⟨fun _ failed => ?_, fun name impossible => ?_, rfl, rfl, rfl⟩
                · rw [← Except.error.inj failed]
                  rfl
                · cases impossible
              · simp only [define_of_new known, define_of_new (mt same.mp known)]
                refine ⟨fun _ failed => ?_, fun name _ => ⟨_, rfl⟩, ?_, rfl, ?_⟩
                · cases failed
                · simp [mapTokens]
                · simp [Event.mapTokens]

/-- From renamed tokens the renamed definition is entered. -/
theorem Enters.map (renames : Token.IsRenaming change) {schema : Schema}
    (words : schema.NamedByWords) {tokens rest : List Token} {definition : Definition}
    (entered : schema.Enters tokens definition rest) :
    (schema.mapTokens change).Enters (tokens.map change) (definition.mapTokens change)
      (rest.map change) := by
  have renamed := step_map renames words tokens
  rcases renamed.success _ entered.1 with ⟨name, success⟩
  have grown : ((schema.mapTokens change).step (tokens.map change)).schema =
      { definitions := (schema.mapTokens change).definitions ++ [definition.mapTokens change] } := by
    rw [renamed.schema, entered.2.1]
    simp [mapTokens]
  have left := renamed.rest
  rw [entered.2.2] at left
  refine ⟨?_, grown, left⟩
  cases tokens with
  | nil => cases entered.1
  | cons first behind =>
      rcases step_cons_success success with ⟨read, rfl, again, _⟩
      have schemas := congrArg Schema.definitions (again.2.1.symm.trans grown)
      have same : read = definition.mapTokens change := by simpa using schemas
      rw [success, same]

/-- The same extension, with other tokens. -/
def Extension.mapTokens (change : Token -> Token) (extension : Extension) : Extension where
  outcome :=
    match extension.outcome with
    | .error diagnostic => .error (diagnostic.mapTokens change)
    | .ok schema => .ok (schema.mapTokens change)
  rest := extension.rest.map change

/-- Renamed tokens extend a renamed schema as the given tokens extend the given
schema. -/
theorem extend_map (renames : Token.IsRenaming change) {schema : Schema}
    (words : schema.NamedByWords) (tokens : List Token) :
    (schema.mapTokens change).extend (tokens.map change) =
      (schema.extend tokens).mapTokens change := by
  fun_induction extend schema tokens with
  | case1 schema =>
      rw [List.map_nil, extend]
      rfl
  | case2 schema first behind step diagnostic failed =>
      have renamed := step_map renames words (first :: behind)
      rw [List.map_cons] at renamed ⊢
      rw [extend]
      simp only [renamed.failure diagnostic failed, renamed.rest]
      rfl
  | case3 schema first behind step name succeeded ih =>
      have renamed := step_map renames words (first :: behind)
      rw [List.map_cons] at renamed ⊢
      rcases renamed.success name succeeded with ⟨other, success⟩
      rw [extend]
      simp only [success, renamed.schema, renamed.rest]
      exact ih (namedByWords_step words (first :: behind))

end Schema
end TypeSchema
