import TypeSchema.Proofs.Lookup
import TypeSchema.Proofs.Reading

namespace TypeSchema

/-!
# Definitions as lists of what they hold

An enum and a type are read by pushing members and fields one after another, and a
name is refused if the index of what has been read holds it.  An index says no more
than the names it was made of do.  A definition can therefore be read as well by
first listing what stands between its braces, where an item is compared with the
items before it, and making a definition of the list.
-/

/-! ## What a definition consists of -/

/-- The index of an enum follows from the members. -/
theorem EnumDefinition.ext_members {left right : EnumDefinition} (keyword : left.keyword = right.keyword)
    (name : left.name = right.name) (members : left.members = right.members) : left = right := by
  rcases left with ⟨_, _, _, _, rfl⟩
  rcases right with ⟨_, _, _, _, rfl⟩
  cases keyword
  cases name
  cases members
  rfl

/-- The index of a type follows from the fields. -/
theorem TypeDefinition.ext_fields {left right : TypeDefinition} (keyword : left.keyword = right.keyword)
    (name : left.name = right.name) (parent : left.parent = right.parent)
    (fields : left.fields = right.fields) : left = right := by
  rcases left with ⟨_, _, _, _, _, rfl⟩
  rcases right with ⟨_, _, _, _, _, rfl⟩
  cases keyword
  cases name
  cases parent
  cases fields
  rfl

theorem EnumDefinition.isSome_ordinal? (definition : EnumDefinition) (text : String) :
    (definition.ordinal? text).isSome = definition.members.any fun member => member.text == text := by
  rw [Bool.eq_iff_iff, Option.isSome_iff_ne_none, ordinal?, definition.indexed, ne_eq,
    Index.find?_of_eq_none_iff, not_not, List.mem_map, List.any_eq_true]
  simp only [beq_iff_eq]

theorem TypeDefinition.isSome_field? (definition : TypeDefinition) (text : String) :
    (definition.field? text).isSome = definition.fields.any fun field => field.name.text == text := by
  rw [Bool.eq_iff_iff, Option.isSome_iff_ne_none, field?, definition.indexed, ne_eq,
    Index.item?_of_eq_none_iff, not_not, List.mem_map, List.any_eq_true]
  simp only [beq_iff_eq]

namespace Parser

variable {α σ τ : Type}

/-! ## Lists that are read alike -/

theorem run_map (change : α -> σ) (parser : Parser α) (tokens : List Token) :
    (change <$> parser).run tokens =
      (parser.run tokens).andThen fun value rest => { outcome := .ok (change value), rest } :=
  rfl

theorem within_map (context : Context) (change : α -> σ) (parser : Parser α) :
    within context (change <$> parser) = change <$> within context parser := by
  apply ext
  intro tokens
  simp only [run_map, within, Reply.andThen]
  cases (parser.run tokens).outcome <;> rfl

/-- If one reader of items does what the other does, as seen through a view of what
has been made, then the lists are read alike, seen through this view. -/
theorem gather_view {view : σ -> τ} {item : σ -> Token -> Parser σ} {viewed : τ -> Token -> Parser τ}
    (alike : forall made first, viewed (view made) first = view <$> item made first)
    (list : BraceList) (made : σ) (tokens : List Token) :
    gather list viewed (view made) tokens =
      (gather list item made tokens).andThen fun (all, closing) rest =>
        { outcome := .ok (view all, closing), rest } := by
  -- The loop goes on behind an item and its commas, so the induction is on the number of tokens.
  induction size : tokens.length using Nat.strongRecOn generalizing tokens made with
  | ind size ih =>
      cases tokens with
      | nil => rw [gather_nil, gather_nil]; rfl
      | cons token rest =>
          rw [List.length_cons] at size
          by_cases closing : token.kind = .closeBrace
          · rw [gather_closeBrace list viewed _ closing, gather_closeBrace list item _ closing]
            rfl
          · rw [gather_item list viewed _ closing, gather_item list item _ closing, alike, run_map,
              Reply.andThen_assoc, Reply.andThen_assoc]
            have taken := (item made token).length_rest_le rest
            have fewer := (afterCommas_suffix ((item made token).run rest).rest).length_le
            rw [Reply.andThen, Reply.andThen]
            split
            · rfl
            · next grown succeeded =>
                have later := ih _ (by omega) grown (afterCommas ((item made token).run rest).rest) rfl
                simp only [Reply.andThen] at later ⊢
                simp only [later, List.nil_append]

theorem gathered_view {view : σ -> τ} {item : σ -> Token -> Parser σ} {viewed : τ -> Token -> Parser τ}
    (alike : forall made first, viewed (view made) first = view <$> item made first)
    (list : BraceList) (made : σ) :
    gathered list viewed (view made) =
      (fun (all, closing) => (view all, closing)) <$> gathered list item made :=
  ext fun tokens => gather_view alike list made tokens

/-! ## Members and fields in lists -/

/-- A member of an enum, told the members before it. -/
def listedMember (enumName : Token) (earlier : List Token) (member : Token) : Parser Token := do
  if !member.is .word then fail (.memberExpected member)
  else if earlier.any (·.text == member.text) then fail (.duplicateMember member)
  else if isBlankName member.text then fail (.blankMember member)
  else
    emit (.member enumName member earlier.length)
    return member

/-- A field of a type, told the fields before it. -/
def listedField (typeName : Token) (earlier : List Field) (first : Token) : Parser Field := do
  let found <- field first
  if earlier.any (·.name.text == found.name.text) then fail (.duplicateField found.name)
  else
    emit (.field typeName found)
    return found

/-- The reader of members pushes what is listed. -/
theorem enumMember_eq (keyword enumName : Token) (earlier : List Token) (first : Token) :
    enumMember { keyword, name := enumName, members := earlier } first =
      (fun members => { keyword, name := enumName, members }) <$>
        appended (listedMember enumName) earlier first := by
  rw [enumMember, EnumDefinition.isSome_ordinal?, appended, listedMember]
  split
  · rfl
  · split
    · rfl
    · split
      · rfl
      · have pushed : EnumDefinition.push { keyword, name := enumName, members := earlier } first =
            { keyword, name := enumName, members := earlier ++ [first] } :=
          EnumDefinition.ext_members rfl rfl rfl
        rw [pushed]
        rfl

theorem typeMember_eq (keyword typeName : Token) (parent : Option Token) (earlier : List Field)
    (first : Token) :
    typeMember { keyword, name := typeName, parent, fields := earlier } first =
      (fun fields => { keyword, name := typeName, parent, fields }) <$>
        appended (listedField typeName) earlier first := by
  rw [typeMember, appended, listedField]
  simp only [map_bind, bind_assoc]
  congr 1
  funext found
  rw [TypeDefinition.isSome_field?]
  split
  · rfl
  · have pushed : TypeDefinition.push { keyword, name := typeName, parent, fields := earlier } found =
        { keyword, name := typeName, parent, fields := earlier ++ [found] } :=
      TypeDefinition.ext_fields rfl rfl rfl rfl
    rw [pushed]
    rfl

/-- An enum is read by listing its members. -/
theorem enumDefinition_eq (keyword : Token) :
    enumDefinition keyword = (do
      let enumName <- name (.definition .enum)
      let _ <- openBrace .enum
      let (members, _) <- within (.definition .enum enumName)
        (braced .enumMembers (listedMember enumName))
      if members.isEmpty then fail (.noMembers enumName)
      else return .enum { keyword, name := enumName, members }) := by
  rw [enumDefinition]
  congr 1
  funext enumName
  congr 1
  funext _
  have listed := gathered_view (enumMember_eq keyword enumName) .enumMembers []
  rw [EnumDefinition.fresh, listed, within_map, bind_map_left]
  rfl

/-- A type is read by listing its fields. -/
theorem typeDefinition_eq (keyword : Token) :
    typeDefinition keyword = (do
      let typeName <- name (.definition .type)
      let parentName <- parent typeName
      let _ <- openBrace .type
      let (fields, _) <- within (.definition .type typeName)
        (braced .typeMembers (listedField typeName))
      return .type { keyword, name := typeName, parent := parentName, fields }) := by
  rw [typeDefinition]
  congr 1
  funext typeName
  congr 1
  funext parentName
  congr 1
  funext _
  have listed := gathered_view (typeMember_eq keyword typeName parentName) .typeMembers []
  rw [TypeDefinition.fresh, listed, within_map, bind_map_left]
  rfl

end Parser
end TypeSchema
