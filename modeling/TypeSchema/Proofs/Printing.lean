import TypeSchema.CommandLine.Run
import TypeSchema.Proofs.Arrangement
import TypeSchema.Proofs.Declarations

namespace TypeSchema
namespace Printing

open Grammar
open CommandLine (unlines)
open Lexeme (Ends Spelling)
open Scan (Arranges)

/-!
# What is printed is spelled again

The printed text of a tree is an arrangement of tokens by which the grammar
spells that very tree.  They are not the tokens that the tree was read from:
commas come and go, and so does layout.  The argument runs from the back of the
text to its front, because only what stands behind a token decides whether it
ends there: what is printed is put in front of a text that begins with a
delimiter and is an arrangement already.
-/

variable {α : Type}

/-- The text consists of these tokens and of some layout around them. -/
def Writes (text : List Char) (tokens : List Token) : Prop :=
  Exists fun pieces => Arranges text pieces tokens

/-- The text is empty or begins with a character that continues no token. -/
def Delimited (text : List Char) : Prop :=
  forall c, c ∈ text.head? -> c = ' ' ∨ c = '\n' ∨ c = ','

/-- In front of any text of the given sort, the printed text is an arrangement
of tokens that spell the value. -/
def Prints (before : List Char -> Prop) (item : List Token -> α -> Prop) (text : String)
    (value : α) : Prop :=
  Exists fun tokens => item tokens value ∧
    forall rest later, before rest -> Writes rest later ->
      Writes (text.toList ++ rest) (tokens ++ later)

/-! ## Arrangements from the back to the front -/

theorem ends_cons {kind : Token.Kind} {c : Char} (other : Lexeme.continues kind c = false)
    (rest : List Char) : Ends kind (c :: rest) := by
  intro first ahead
  exact Option.mem_some_iff.mp ahead ▸ other

theorem delimited_cons {c : Char} (delimits : c = ' ' ∨ c = '\n' ∨ c = ',') (rest : List Char) :
    Delimited (c :: rest) := by
  intro first ahead
  exact Option.mem_some_iff.mp ahead ▸ delimits

theorem Delimited.ends {rest : List Char} (delimited : Delimited rest) (kind : Token.Kind) :
    Ends kind rest := by
  intro c ahead
  rcases delimited c ahead with rfl | rfl | rfl <;> cases kind <;> rfl

theorem writes_nil : Writes [] [] :=
  ⟨[], .nil (.nil [])⟩

theorem Writes.blank {c : Char} {rest : List Char} {tokens : List Token}
    (blank : Layout.isBlank c = true) (written : Writes rest tokens) : Writes (c :: rest) tokens := by
  rcases written with ⟨pieces, arranged⟩
  cases arranged with
  | nil passes => exact ⟨_, .nil (.cons (.blank blank) passes)⟩
  | cons passes spelled ends later => exact ⟨_, .cons (.cons (.blank blank) passes) spelled ends later⟩

theorem Writes.blanks {chars rest : List Char} {tokens : List Token}
    (blank : forall c, c ∈ chars -> Layout.isBlank c = true) (written : Writes rest tokens) :
    Writes (chars ++ rest) tokens := by
  induction chars with
  | nil => exact written
  | cons c chars ih =>
      exact (ih fun other member => blank other (List.mem_cons_of_mem _ member)).blank
        (blank c (List.mem_cons_self ..))

theorem Writes.token {token : Token} {rest : List Char} {tokens : List Token}
    (spelled : token.Spelled) (ends : Ends token.kind rest) (written : Writes rest tokens) :
    Writes (token.text.toList ++ rest) (token :: tokens) := by
  rcases written with ⟨pieces, arranged⟩
  exact ⟨_, .cons (.nil _) spelled ends arranged⟩

/-- Two words with a blank between them. -/
theorem Writes.pair {first second : Token} {rest : List Char} {tokens : List Token}
    (firstSpelled : first.Spelled) (secondSpelled : second.Spelled) (ends : Ends second.kind rest)
    (written : Writes rest tokens) :
    Writes (first.text.toList ++ ' ' :: (second.text.toList ++ rest)) (first :: second :: tokens) := by
  have behind := (written.token secondSpelled ends).blank (c := ' ') rfl
  exact behind.token firstSpelled ((delimited_cons (Or.inl rfl) _).ends _)

/-- A mark of the grammar, as a token. -/
def mark (kind : Token.Kind) (chars : List Char) : Token :=
  { kind, text := String.ofList chars }

theorem Writes.mark {kind : Token.Kind} {chars rest : List Char} {tokens : List Token}
    (spelled : Spelling kind chars) (ends : Ends kind rest) (written : Writes rest tokens) :
    Writes (chars ++ rest) (mark kind chars :: tokens) := by
  have isSpelled : (Printing.mark kind chars).Spelled := by
    simpa only [Token.Spelled, Printing.mark, String.toList_ofList] using spelled
  simpa only [Printing.mark, String.toList_ofList] using written.token isSpelled ends

theorem eq_of_spelling_openBrace {chars : List Char} (spelled : Spelling .openBrace chars) :
    chars = ['\x7b'] := by
  cases spelled
  rfl

theorem eq_of_spelling_closeBrace {chars : List Char} (spelled : Spelling .closeBrace chars) :
    chars = ['\x7d'] := by
  cases spelled
  rfl

/-! ## Lists -/

/-- Items that are printed between commas are a listing. -/
theorem prints_listing {item : List Token -> α -> Prop} {render : α -> String} {values : List α}
    (present : values ≠ [])
    (each : forall value, value ∈ values -> Prints Delimited item (render value) value) :
    Prints Delimited (Listing item) (", ".intercalate (values.map render)) values := by
  induction values with
  | nil => exact absurd rfl present
  | cons value others ih =>
      rcases each value (List.mem_cons_self ..) with ⟨taken, spelled, prepends⟩
      cases others with
      | nil =>
          refine ⟨taken ++ ([] ++ []), .cons spelled (by simp) .nil, ?_⟩
          intro rest later delimited written
          simpa using prepends rest later delimited written
      | cons second others =>
          rcases ih (by simp) (fun other member => each other (List.mem_cons_of_mem _ member)) with
            ⟨behind, listing, followed⟩
          refine ⟨taken ++ ([mark .comma [',']] ++ behind), .cons spelled (by simp [mark]) listing, ?_⟩
          intro rest later delimited written
          have tail := (followed rest later delimited written).blank (c := ' ') rfl
          have comma := Writes.mark .comma (fun _ _ => rfl) tail
          have whole := prepends _ _ (delimited_cons (by simp) _) comma
          simpa [String.intercalate_cons_cons] using whole

/-! ## Values -/

theorem prints_literal {token : Token} {kind : Scalar.Kind} (literal : IsLiteral token kind)
    (spelled : token.Spelled) :
    Prints Delimited SpellsValue (Value.scalar { kind, token }).render (.scalar { kind, token }) := by
  refine ⟨[token], .literal literal, ?_⟩
  intro rest later delimited written
  exact written.token spelled (delimited.ends _)

theorem prints_reference {enumName member : Token} (word : enumName.kind = .word)
    (plain : ¬ IsTruthValue enumName.text) (memberWord : member.kind = .word)
    (spelled : enumName.Spelled) (memberSpelled : member.Spelled) :
    Prints Delimited SpellsValue (Value.reference enumName member).render
      (.reference enumName member) := by
  refine ⟨[enumName, mark .scope [':', ':'], member], .reference word plain rfl memberWord, ?_⟩
  intro rest later delimited written
  have behind := written.token memberSpelled (delimited.ends _)
  have scope := Writes.mark .scope (fun _ _ => rfl) behind
  have whole := scope.token spelled (ends_cons (by rw [word]; rfl) _)
  simpa [Value.render, toString] using whole

theorem prints_assignment {name : Token} {value : Value} (word : name.kind = .word)
    (spelled : name.Spelled) (inner : Prints Delimited SpellsValue value.render value) :
    Prints Delimited SpellsChild (Value.assignment name value).render (.assignment name value) := by
  rcases inner with ⟨taken, valueSpelled, prepends⟩
  refine ⟨name :: mark .equals ['='] :: taken, .assignment word rfl valueSpelled, ?_⟩
  intro rest later delimited written
  have behind := (prepends rest later delimited written).blank (c := ' ') rfl
  have equals := (Writes.mark .equals (fun _ _ => rfl) behind).blank (c := ' ') rfl
  have whole := equals.token spelled ((delimited_cons (by simp) _).ends _)
  simpa [Value.render] using whole

theorem prints_compound {opening closing : Token} {children : List Value}
    (opens : opening.kind = .openBrace) (closes : closing.kind = .closeBrace)
    (openingSpelled : opening.Spelled) (closingSpelled : closing.Spelled)
    (each : forall child, child ∈ children -> Prints Delimited SpellsChild child.render child) :
    Prints Delimited SpellsValue
      (Value.compound opening closing (Value.shapeOf children) children).render
      (.compound opening closing (Value.shapeOf children) children) := by
  have openingText : opening.text.toList = ['\x7b'] :=
    eq_of_spelling_openBrace (opens ▸ openingSpelled)
  have closingText : closing.text.toList = ['\x7d'] :=
    eq_of_spelling_closeBrace (closes ▸ closingSpelled)
  have openingEnds : forall rest, Ends opening.kind rest := by
    intro rest c _
    rw [opens]
    rfl
  cases children with
  | nil =>
      refine ⟨opening :: ([] ++ [closing]), .compound opens .nil closes, ?_⟩
      intro rest later delimited written
      have closed := written.token closingSpelled (delimited.ends _)
      have whole := closed.token openingSpelled (openingEnds _)
      simpa [Value.render, openingText, closingText] using whole
  | cons first others =>
      rcases prints_listing (by simp) each with ⟨body, listing, prepends⟩
      refine ⟨opening :: (body ++ [closing]), .compound opens listing closes, ?_⟩
      intro rest later delimited written
      have closed := (written.token closingSpelled (delimited.ends _)).blank (c := ' ') rfl
      have inside := (prepends _ _ (delimited_cons (by simp) _) closed).blank (c := ' ') rfl
      have whole := inside.token openingSpelled (openingEnds _)
      simpa [Value.render, Value.renderAll_eq_map, openingText, closingText] using whole

mutual

theorem prints_value {taken : List Token} {value : Value} (derived : SpellsValue taken value)
    (spelled : forall token, token ∈ taken -> token.Spelled) :
    Prints Delimited SpellsValue value.render value := by
  cases derived with
  | literal literal => exact prints_literal literal (spelled _ (by simp))
  | reference word plain scope member =>
      exact prints_reference word plain member (spelled _ (by simp)) (spelled _ (by simp))
  | compound opens listing closes =>
      exact prints_compound opens closes (spelled _ (by simp)) (spelled _ (by simp))
        (prints_children listing fun token member => spelled token (by simp [member]))

theorem prints_child {taken : List Token} {value : Value} (derived : SpellsChild taken value)
    (spelled : forall token, token ∈ taken -> token.Spelled) :
    Prints Delimited SpellsChild value.render value := by
  cases derived with
  | assignment word equals inner =>
      exact prints_assignment word (spelled _ (by simp))
        (prints_value inner fun token member => spelled token (by simp [member]))
  | value inner =>
      rcases prints_value inner spelled with ⟨tokens, valueSpelled, prepends⟩
      exact ⟨tokens, .value valueSpelled, prepends⟩

theorem prints_children {body : List Token} {children : List Value}
    (listing : Listing SpellsChild body children)
    (spelled : forall token, token ∈ body -> token.Spelled) (child : Value)
    (member : child ∈ children) : Prints Delimited SpellsChild child.render child := by
  cases listing with
  | nil => cases member
  | cons first commas behind =>
      rcases List.mem_cons.mp member with rfl | later
      · exact prints_child first fun token inside => spelled token (by simp [inside])
      · exact prints_children behind (fun token inside => spelled token (by simp [inside])) child later

end

/-! ## Definitions -/

/-- A text that ends with a line feed may stand in front of any other. -/
def Anywhere (_ : List Char) : Prop :=
  True

theorem prints_arrayMark (field : Field) :
    Prints Delimited SpellsArrayMark field.arrayMark field.isArray := by
  rw [Field.arrayMark]
  cases field.isArray with
  | false => exact ⟨[], .absent, fun _ _ _ written => written⟩
  | true =>
      refine ⟨[mark .openBracket ['['], mark .closeBracket [']']], .present rfl rfl, ?_⟩
      intro rest later delimited written
      have closed := Writes.mark .closeBracket (fun _ _ => rfl) written
      exact Writes.mark .openBracket (fun _ _ => rfl) closed

/-- The text of a part that may be absent, with the mark that introduces it. -/
def introduced (introduction : String) (render : α -> String) : Option α -> String
  | some value => introduction ++ render value
  | none => ""

/-- A part that a blank introduces does not continue what stands before it. -/
theorem delimited_introduced (introduction : String)
    (blank : introduction.toList.head? = some ' ') (render : α -> String) (part : Option α) {rest : List Char} (delimited : Delimited rest) :
    Delimited ((introduced introduction render part).toList ++ rest) := by
  cases part with
  | none => exact delimited
  | some value =>
      rcases List.head?_eq_some_iff.mp blank with ⟨others, whole⟩
      rw [introduced, String.toList_append, whole, List.append_assoc]
      exact delimited_cons (Or.inl rfl) _

theorem render_eq (field : Field) :
    field.render =
      field.typeName.text ++ " " ++ field.name.text ++ field.arrayMark ++
        introduced " = " Value.render field.defaultValue := by
  rw [Field.render]
  cases field.defaultValue with
  | none => simp [introduced, toString]
  | some value => simp [introduced, toString, String.append_assoc]

theorem prints_default {taken : List Token} {initial : Option Value}
    (derived : SpellsDefault taken initial) (spelled : forall token, token ∈ taken -> token.Spelled) :
    Prints Delimited SpellsDefault (introduced " = " Value.render initial) initial := by
  cases derived with
  | absent => exact ⟨[], .absent, fun _ _ _ written => written⟩
  | present equals inner =>
      rcases prints_value inner (fun token member => spelled token (by simp [member])) with
        ⟨tokens, valueSpelled, prepends⟩
      refine ⟨mark .equals ['='] :: tokens, .present rfl valueSpelled, ?_⟩
      intro rest later delimited written
      have behind := (prepends rest later delimited written).blank (c := ' ') rfl
      have whole := (Writes.mark .equals (fun _ _ => rfl) behind).blank (c := ' ') rfl
      simpa [introduced] using whole

/-- What stands behind the name of a field does not continue it. -/
theorem ends_arrayMark (field : Field) {rest : List Char} (delimited : Delimited rest) :
    Ends .word (field.arrayMark.toList ++ rest) := by
  rw [Field.arrayMark]
  cases field.isArray with
  | false => exact delimited.ends .word
  | true => exact ends_cons rfl _

theorem prints_field {taken : List Token} {field : Field} (derived : SpellsField taken field)
    (spelled : forall token, token ∈ taken -> token.Spelled) :
    Prints Delimited SpellsField field.render field := by
  cases derived with
  | @field typeName name _ _ isArray initial typeWord nameWord _ initialDerived =>
      rcases prints_default initialDerived (fun token inside => spelled token (by simp [inside])) with
        ⟨initialTokens, initialIsSpelled, prependsInitial⟩
      rcases prints_arrayMark { typeName, name, isArray, defaultValue := initial } with
        ⟨markTokens, markIsSpelled, prependsMark⟩
      refine ⟨typeName :: name :: (markTokens ++ initialTokens),
        .field typeWord nameWord markIsSpelled initialIsSpelled, ?_⟩
      intro rest later delimited written
      have behindMark := prependsInitial rest later delimited written
      have delimitedMark := delimited_introduced " = " rfl Value.render initial delimited
      have behindName := prependsMark _ _ delimitedMark behindMark
      have nameEnds := ends_arrayMark { typeName, name, isArray, defaultValue := initial } delimitedMark
      have whole := behindName.pair (spelled typeName (by simp)) (spelled name (by simp))
        (nameWord ▸ nameEnds)
      simpa [render_eq] using whole

/-- A line is a text of its own, and may be set in. -/
theorem Prints.line {item : List Token -> α -> Prop} {text : String} {value : α}
    (prints : Prints Delimited item text value) {indent : String}
    (blank : forall c, c ∈ indent.toList -> Layout.isBlank c = true) :
    Prints Anywhere item (unlines [indent ++ text]) value := by
  rcases prints with ⟨tokens, spelled, prepends⟩
  refine ⟨tokens, spelled, ?_⟩
  intro rest later _ written
  have fed := written.blank (c := '\n') rfl
  have line := prepends _ _ (delimited_cons (by simp) _) fed
  have whole := line.blanks blank
  simpa [unlines] using whole

/-- Fields on lines of their own are a listing without commas. -/
theorem prints_fields {body : List Token} {fields : List Field}
    (listing : Listing SpellsField body fields)
    (spelled : forall token, token ∈ body -> token.Spelled) :
    Prints Anywhere (Listing SpellsField)
      (unlines (fields.map fun field => "    " ++ field.render)) fields := by
  induction listing with
  | nil => exact ⟨[], .nil, fun _ _ _ written => written⟩
  | cons first commas behind ih =>
      have indented : forall c, c ∈ "    ".toList -> Layout.isBlank c = true := by
        intro c member
        have spaces : "    ".toList = List.replicate 4 ' ' := rfl
        rw [spaces] at member
        rw [List.eq_of_mem_replicate member]
        rfl
      have field := prints_field first fun token inside => spelled token (by simp [inside])
      rcases field.line indented with ⟨tokens, fieldSpelled, prepends⟩
      rcases ih (fun token inside => spelled token (by simp [inside])) with
        ⟨others, othersSpelled, prependsOthers⟩
      refine ⟨tokens ++ ([] ++ others), .cons fieldSpelled (by simp) othersSpelled, ?_⟩
      intro rest later _ written
      have whole := prepends _ _ trivial (prependsOthers rest later trivial written)
      simpa [unlines] using whole

theorem prints_member {member : Token} (word : member.kind = .word) (spelled : member.Spelled) :
    Prints Delimited SpellsMember member.text member :=
  ⟨[member], .member word, fun _ _ delimited written => written.token spelled (delimited.ends _)⟩

theorem mem_of_listing_members {body members : List Token}
    (listing : Listing SpellsMember body members) {member : Token} (inside : member ∈ members) :
    member.kind = .word ∧ member ∈ body := by
  induction listing with
  | nil => cases inside
  | cons first commas behind ih =>
      cases first with
      | member word =>
          rcases List.mem_cons.mp inside with rfl | later
          · exact ⟨word, by simp⟩
          · exact ⟨(ih later).1, by simp [(ih later).2]⟩

theorem prints_parent {ancestry : List Token} {parent : Option Token}
    (derived : SpellsParent ancestry parent)
    (spelled : forall token, token ∈ ancestry -> token.Spelled) :
    Prints Delimited SpellsParent (introduced " : " Token.text parent) parent := by
  cases derived with
  | absent => exact ⟨[], .absent, fun _ _ _ written => written⟩
  | @present colon parent kind word =>
      refine ⟨[mark .colon [':'], parent], .present rfl word, ?_⟩
      intro rest later delimited written
      have behind := (written.token (spelled parent (by simp)) (delimited.ends _)).blank (c := ' ') rfl
      have whole := (Writes.mark .colon (ends_cons rfl _) behind).blank (c := ' ') rfl
      simpa [introduced] using whole

theorem lines_enum_eq {definition : EnumDefinition} (spelling : definition.keyword.text = "enum") :
    definition.lines =
      [definition.keyword.text ++ " " ++ definition.name.text ++ " \x7b " ++
        ", ".intercalate (definition.members.map Token.text) ++ " \x7d"] := by
  simp [EnumDefinition.lines, spelling, String.append_assoc]

theorem prints_enum {keyword name : Token} {members : List Token} (word : keyword.kind = .word)
    (spelling : keyword.text = "enum") (nameWord : name.kind = .word) (present : members ≠ [])
    (keywordSpelled : keyword.Spelled) (nameSpelled : name.Spelled)
    (each : forall member, member ∈ members -> Prints Delimited SpellsMember member.text member) :
    Prints Anywhere SpellsDefinition
      (unlines (Definition.enum { keyword, name, members }).lines)
      (.enum { keyword, name, members }) := by
  rcases prints_listing present each with ⟨tokens, membersSpelled, prepends⟩
  refine ⟨keyword :: name :: mark .openBrace ['\x7b'] :: (tokens ++ [mark .closeBrace ['\x7d']]),
    .enum word spelling nameWord rfl membersSpelled present rfl, ?_⟩
  intro rest later _ written
  have fed := written.blank (c := '\n') rfl
  have closed := (Writes.mark .closeBrace (fun _ _ => rfl) fed).blank (c := ' ') rfl
  have body := (prepends _ _ (delimited_cons (Or.inl rfl) _) closed).blank (c := ' ') rfl
  have opened := (Writes.mark .openBrace (fun _ _ => rfl) body).blank (c := ' ') rfl
  have whole := opened.pair keywordSpelled nameSpelled ((delimited_cons (Or.inl rfl) _).ends _)
  simpa [Definition.lines, lines_enum_eq, spelling, unlines] using whole

theorem lines_type_eq {definition : TypeDefinition} (spelling : definition.keyword.text = "type") :
    definition.lines =
      [definition.keyword.text ++ " " ++ definition.name.text ++
        introduced " : " Token.text definition.parent ++ " \x7b"] ++
        definition.fields.map (fun field => "    " ++ field.render) ++ ["\x7d"] := by
  rw [TypeDefinition.lines, spelling]
  cases definition.parent with
  | none => simp [introduced, toString]
  | some parent => simp [introduced, toString, String.append_assoc]

theorem prints_type {keyword name : Token} {parent : Option Token} {fields : List Field}
    (word : keyword.kind = .word) (spelling : keyword.text = "type") (nameWord : name.kind = .word)
    (keywordSpelled : keyword.Spelled) (nameSpelled : name.Spelled)
    (printsParent : Prints Delimited SpellsParent (introduced " : " Token.text parent) parent)
    (printsFields : Prints Anywhere (Listing SpellsField)
      (unlines (fields.map fun field => "    " ++ field.render)) fields) :
    Prints Anywhere SpellsDefinition
      (unlines (Definition.type { keyword, name, parent, fields }).lines)
      (.type { keyword, name, parent, fields }) := by
  rcases printsParent with ⟨ancestry, parentSpelled, prependsParent⟩
  rcases printsFields with ⟨tokens, fieldsSpelled, prependsFields⟩
  refine ⟨keyword :: name :: (ancestry ++ mark .openBrace ['\x7b'] ::
      (tokens ++ [mark .closeBrace ['\x7d']])),
    .type word spelling nameWord parentSpelled rfl fieldsSpelled rfl, ?_⟩
  intro rest later _ written
  have fed := written.blank (c := '\n') rfl
  have closed := Writes.mark .closeBrace (fun _ _ => rfl) fed
  have body := (prependsFields _ _ trivial closed).blank (c := '\n') rfl
  have opened := (Writes.mark .openBrace (fun _ _ => rfl) body).blank (c := ' ') rfl
  have behindName := prependsParent _ _ (delimited_cons (Or.inl rfl) _) opened
  have whole := behindName.pair keywordSpelled nameSpelled
    ((delimited_introduced " : " rfl Token.text parent (delimited_cons (Or.inl rfl) _)).ends _)
  simpa [Definition.lines, lines_type_eq, spelling, unlines] using whole

theorem prints_definition {taken : List Token} {definition : Definition}
    (derived : SpellsDefinition taken definition)
    (spelled : forall token, token ∈ taken -> token.Spelled) :
    Prints Anywhere SpellsDefinition (unlines definition.lines) definition := by
  cases derived with
  | @enum keyword name _ _ body members word spelling nameWord _ listing present _ =>
      apply prints_enum word spelling nameWord present (spelled keyword (by simp))
        (spelled name (by simp))
      intro member inside
      have found := mem_of_listing_members listing inside
      exact prints_member found.1 (spelled member (by simp [found.2]))
  | @type keyword name _ _ ancestry body _ _ word spelling nameWord parentDerived _ listing _ =>
      apply prints_type word spelling nameWord (spelled keyword (by simp)) (spelled name (by simp))
      · exact prints_parent parentDerived fun token inside => spelled token (by simp [inside])
      · exact prints_fields listing fun token inside => spelled token (by simp [inside])

theorem prints_definitions {tokens : List Token} {definitions : List Definition}
    (declares : Schema.Declares tokens definitions)
    (spelled : forall token, token ∈ tokens -> token.Spelled) :
    Prints Anywhere Schema.Declares (unlines (definitions.flatMap Definition.lines)) definitions := by
  induction declares with
  | nil => exact ⟨[], .nil, fun _ _ _ written => written⟩
  | cons derived admissible declares ih =>
      rcases prints_definition derived (fun token inside => spelled token (by simp [inside])) with
        ⟨taken, definitionSpelled, prepends⟩
      rcases ih (fun token inside => spelled token (by simp [inside])) with
        ⟨behind, declared, prependsOthers⟩
      refine ⟨taken ++ behind, .cons definitionSpelled admissible declared, ?_⟩
      intro rest later _ written
      have whole := prepends _ _ trivial (prependsOthers rest later trivial written)
      simpa [unlines] using whole

/-- The printed text of a schema scans to tokens that declare the schema. -/
theorem declares_printed {tokens : List Token} {schema : Schema}
    (declares : Schema.Declares tokens schema.definitions)
    (spelled : forall token, token ∈ tokens -> token.Spelled) :
    Exists fun printed => Exists fun found => Schema.Declares printed schema.definitions ∧
      Scan.tokens (unlines schema.lines) = .ok found ∧
      found.map Token.unplaced = printed.map Token.unplaced := by
  rcases prints_definitions declares spelled with ⟨printed, declared, prepends⟩
  rcases prepends [] [] trivial writes_nil with ⟨pieces, arranged⟩
  rw [List.append_nil, List.append_nil] at arranged
  rcases Scan.tokens_of_arranges arranged with ⟨found, scanned, same⟩
  exact ⟨printed, found, declared, scanned, same⟩

end Printing
end TypeSchema
