import TypeSchema.Proofs.Listed
import TypeSchema.Schema

namespace TypeSchema

/-!
# Indices are kept

Enums, types and schemas grow by items that are pushed to the end of a list, each
with its place noted in an index.  A push by itself may note a second place under a
name; whoever pushes has asked the index before.  Every reader of members and fields
does, and so does every step, so each of them hands on an index that fits the names
if it was given one.
-/

/-- The index holds the places of the members, and nothing else. -/
def EnumDefinition.IsIndexed (definition : EnumDefinition) : Prop :=
  definition.index.Fits (definition.members.map Token.text)

/-- The index holds the places of the fields, and nothing else. -/
def TypeDefinition.IsIndexed (definition : TypeDefinition) : Prop :=
  definition.index.Fits (definition.fields.map fun field => field.name.text)

def Definition.IsIndexed : Definition -> Prop
  | enum definition => definition.IsIndexed
  | type definition => definition.IsIndexed

/-! ## Pushing -/

theorem EnumDefinition.IsIndexed.push {definition : EnumDefinition} (indexed : definition.IsIndexed)
    {member : Token} (isNew : definition.ordinal? member.text = none) :
    (definition.push member).IsIndexed :=
  Index.Fits.push indexed isNew

theorem TypeDefinition.IsIndexed.push {definition : TypeDefinition} (indexed : definition.IsIndexed)
    {field : Field} (isNew : definition.field? field.name.text = none) :
    (definition.push field).IsIndexed :=
  Index.Fits.push indexed ((Lookup.item?_eq_none_iff indexed).mp isNew)

/-! ## Reading -/

namespace Parser

variable {tokens rest : List Token}

/-- A member that is read has a new name, and is pushed. -/
theorem pushed_of_enumMember {read grown : EnumDefinition} {first : Token}
    (reads : (enumMember read first).Reads tokens grown rest) :
    read.ordinal? first.text = none ∧ grown = read.push first := by
  rw [enumMember] at reads
  split at reads
  · exact (reads_fail_iff.mp reads).elim
  · split at reads
    · exact (reads_fail_iff.mp reads).elim
    · next unknown =>
        split at reads
        · exact (reads_fail_iff.mp reads).elim
        · rcases reads_bind_iff.mp reads with ⟨_, _, _, made⟩
          exact ⟨Option.not_isSome_iff_eq_none.mp unknown, (reads_pure_iff.mp made).1⟩

/-- A field that is read has a new name, and is pushed. -/
theorem pushed_of_typeMember {read grown : TypeDefinition} {first : Token}
    (reads : (typeMember read first).Reads tokens grown rest) :
    Exists fun field => read.field? field.name.text = none ∧ grown = read.push field := by
  rcases reads_bind_iff.mp reads with ⟨found, _, _, later⟩
  split at later
  · exact (reads_fail_iff.mp later).elim
  · next unknown =>
      rcases reads_bind_iff.mp later with ⟨_, _, _, made⟩
      exact ⟨found, Option.not_isSome_iff_eq_none.mp unknown, (reads_pure_iff.mp made).1⟩

theorem isIndexed_enumMember {read grown : EnumDefinition} {first : Token} (indexed : read.IsIndexed)
    (reads : (enumMember read first).Reads tokens grown rest) : grown.IsIndexed := by
  rcases pushed_of_enumMember reads with ⟨isNew, rfl⟩
  exact indexed.push isNew

theorem isIndexed_typeMember {read grown : TypeDefinition} {first : Token} (indexed : read.IsIndexed)
    (reads : (typeMember read first).Reads tokens grown rest) : grown.IsIndexed := by
  rcases pushed_of_typeMember reads with ⟨field, isNew, rfl⟩
  exact indexed.push isNew

theorem isIndexed_enumDefinition {keyword : Token} {definition : Definition}
    (reads : (enumDefinition keyword).Reads tokens definition rest) : definition.IsIndexed := by
  simp only [enumDefinition, reads_bind_iff, reads_within_iff] at reads
  rcases reads with ⟨enumName, _, _, _, _, _, ⟨read, closing⟩, _, listRead, made⟩
  have start : (EnumDefinition.fresh keyword enumName).IsIndexed := Index.fits_empty
  have indexed : read.IsIndexed := gathered_invariant isIndexed_enumMember start listRead
  split at made
  · exact (reads_fail_iff.mp made).elim
  · rw [(reads_pure_iff.mp made).1]
    exact indexed

theorem isIndexed_typeDefinition {keyword : Token} {definition : Definition}
    (reads : (typeDefinition keyword).Reads tokens definition rest) : definition.IsIndexed := by
  simp only [typeDefinition, reads_bind_iff, reads_within_iff] at reads
  rcases reads with ⟨typeName, _, _, parent, _, _, _, _, _, ⟨read, closing⟩, _, listRead, made⟩
  have start : (TypeDefinition.fresh keyword typeName parent).IsIndexed :=
    Index.fits_empty
  have indexed : read.IsIndexed := gathered_invariant isIndexed_typeMember start listRead
  rw [(reads_pure_iff.mp made).1]
  exact indexed

theorem isIndexed_definition {first : Token} {read : Definition}
    (reads : (definition first).Reads tokens read rest) : read.IsIndexed := by
  rw [definition] at reads
  split at reads
  · exact isIndexed_enumDefinition reads
  · exact isIndexed_typeDefinition reads
  · split at reads <;> exact (reads_fail_iff.mp reads).elim

end Parser

/-! ## Steps -/

namespace Schema

/-- The index holds the places of the definitions, and within each of them the
places of its members or fields. -/
structure IsIndexed (schema : Schema) : Prop where
  names : schema.index.Fits schema.names
  inside : forall definition, definition ∈ schema.definitions -> definition.IsIndexed

theorem isIndexed_empty : empty.IsIndexed :=
  ⟨Index.fits_empty, fun _ impossible => absurd impossible List.not_mem_nil⟩

theorem isIndexed_define {schema extended : Schema} {definition : Definition}
    (indexed : schema.IsIndexed) (inside : definition.IsIndexed)
    (defined : schema.define definition = .ok extended) : extended.IsIndexed := by
  rw [define] at defined
  split at defined
  · cases defined
  · next unknown =>
      rw [← Except.ok.inj defined]
      constructor
      case names => exact Index.Fits.push indexed.names (Option.not_isSome_iff_eq_none.mp unknown)
      case inside =>
        intro other member
        rcases List.mem_append.mp member with before | isLast
        · exact indexed.inside other before
        · rw [List.mem_singleton.mp isLast]
          exact inside

theorem isIndexed_step {schema : Schema} (indexed : schema.IsIndexed) (tokens : List Token) :
    (schema.step tokens).schema.IsIndexed := by
  cases tokens with
  | nil => exact indexed
  | cons first behind =>
      simp only [step]
      split
      · exact indexed
      · next definition read =>
          split
          · exact indexed
          · next extended defined =>
              exact isIndexed_define indexed (Parser.isIndexed_definition ⟨read, rfl⟩) defined

end Schema
end TypeSchema
