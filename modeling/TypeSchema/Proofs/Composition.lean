import TypeSchema.Proofs.Listed

namespace TypeSchema
namespace Parser

/-!
# Properties of all readers

Every reader of the grammar is put together from a few primitives in a few
ways.  A property that the primitives have, and that lasts where parsers are
put together, is a property of every reader; the rules of the grammar need not
be looked at again for it.
-/

/-- A property of parsers that the primitives have and that lasts where parsers
are put together. -/
structure Compositional (property : forall {α : Type}, Parser α -> Prop) : Prop where
  pure : forall {α : Type} (value : α), property (pure value : Parser α)
  /-- Whoever reads tokens has left the lexical errors behind. -/
  fail : forall {α : Type} {cause : Cause}, cause.category ≠ .lexical ->
    property (fail cause : Parser α)
  emit : forall event, property (emit event)
  next? : property next?
  front? : property front?
  bind : forall {α β : Type} {parser : Parser α} {next : α -> Parser β}, property parser ->
    (forall value, property (next value)) -> property (parser >>= next)
  within : forall {α : Type} {parser : Parser α} (context : Context), property parser ->
    property (within context parser)
  braced : forall {α : Type} {list : BraceList} {item : List α -> Token -> Parser α},
    (forall earlier first, property (item earlier first)) -> property (braced list item)
  /-- It is enough to look at values of each depth. -/
  value : forall {first}, (forall depth, property (valueOfDepth depth first)) ->
    property (Parser.value first)

namespace Compositional

variable {property : forall {α : Type}, Parser α -> Prop}
  (compositional : Compositional property)
include compositional

theorem nextIf? (kind : Token.Kind) : property (nextIf? kind) := by
  refine compositional.bind ?_ fun isAhead => ?_
  · exact compositional.bind compositional.front? fun found => compositional.pure _
  · split
    · exact compositional.next?
    · exact compositional.pure _

theorem name (slot : NameSlot) : property (name slot) := by
  refine compositional.bind compositional.next? fun found => ?_
  split
  · split
    · exact compositional.pure _
    · exact compositional.fail nofun
  · exact compositional.fail nofun

theorem openBrace (keyword : Keyword) : property (openBrace keyword) := by
  refine compositional.bind compositional.next? fun found => ?_
  split
  · split
    · exact compositional.pure _
    · exact compositional.fail nofun
  · exact compositional.fail nofun

/-! ## Values -/

section Values

variable {nested : Token -> Parser Value} (inner : forall first, property (nested first))
include inner

theorem childWith (first : Token) : property (childWith nested first) := by
  rw [Parser.childWith]
  split
  · refine compositional.bind (compositional.nextIf? .equals) fun found => ?_
    split
    · refine compositional.bind compositional.next? fun next => ?_
      split
      · exact compositional.bind (inner _) fun value => compositional.pure _
      · exact compositional.fail (by simp [Cause.category])
    · exact inner first
  · exact inner first

theorem compoundWith (opening : Token) : property (compoundWith nested opening) := by
  refine compositional.within .compound (compositional.bind ?_ fun read => ?_)
  · exact compositional.braced fun _ first => compositional.childWith inner first
  · rcases read with ⟨children, closing⟩
    simp only
    split
    · exact compositional.fail nofun
    · exact compositional.bind (compositional.emit _) fun _ => compositional.pure _

theorem valueWith (first : Token) : property (valueWith nested first) := by
  rw [Parser.valueWith]
  split
  · exact compositional.compoundWith inner first
  · exact compositional.pure _
  · exact compositional.pure _
  · exact compositional.pure _
  · split
    · exact compositional.pure _
    · refine compositional.bind (compositional.nextIf? .scope) fun found => ?_
      split
      · exact compositional.bind (compositional.name _) fun member => compositional.pure _
      · exact compositional.fail (by simp [Cause.category])
  · exact compositional.fail (by simp [Cause.category])

end Values

theorem valueOfDepth (depth : Nat) (first : Token) : property (valueOfDepth depth first) := by
  induction depth generalizing first with
  | zero =>
      refine compositional.valueWith (fun token => ?_) first
      exact compositional.fail nofun
  | succ depth ih => exact compositional.valueWith ih first

theorem anyValue (first : Token) : property (Parser.value first) :=
  compositional.value fun depth => compositional.valueOfDepth depth first

/-! ## Definitions -/

theorem listedMember (enumName first : Token) (earlier : List Token) :
    property (listedMember enumName earlier first) := by
  rw [Parser.listedMember]
  split
  · exact compositional.fail (by simp [Cause.category])
  · split
    · exact compositional.fail (by simp [Cause.category])
    · split
      · exact compositional.fail (by simp [Cause.category])
      · exact compositional.bind (compositional.emit _) fun _ => compositional.pure _

theorem enumDefinition (keyword : Token) : property (enumDefinition keyword) := by
  rw [enumDefinition_eq]
  refine compositional.bind (compositional.name _) fun enumName => ?_
  refine compositional.bind (compositional.openBrace _) fun _ => ?_
  refine compositional.bind (compositional.within _ ?_) fun read => ?_
  · exact compositional.braced fun earlier first => compositional.listedMember enumName first earlier
  · rcases read with ⟨members, closing⟩
    simp only
    split
    · exact compositional.fail (by simp [Cause.category])
    · exact compositional.pure _

theorem arrayMark : property arrayMark := by
  refine compositional.bind (compositional.nextIf? .openBracket) fun opening => ?_
  split
  · exact compositional.pure _
  · refine compositional.bind (compositional.nextIf? .closeBracket) fun closing => ?_
    split
    · exact compositional.pure _
    · refine compositional.bind compositional.front? fun found => ?_
      split
      · exact compositional.fail nofun
      · exact compositional.fail nofun

theorem defaultValue (fieldName : Token) : property (defaultValue fieldName) := by
  refine compositional.bind (compositional.nextIf? .equals) fun equals => ?_
  split
  · exact compositional.pure _
  · refine compositional.bind compositional.next? fun found => ?_
    split
    · exact compositional.bind (compositional.anyValue _) fun value => compositional.pure _
    · exact compositional.fail nofun

theorem field (first : Token) : property (field first) := by
  rw [Parser.field]
  split
  · exact compositional.fail nofun
  · refine compositional.bind (compositional.name _) fun fieldName => ?_
    split
    · exact compositional.fail nofun
    · refine compositional.bind compositional.arrayMark fun isArray => ?_
      exact compositional.bind (compositional.defaultValue fieldName) fun initial =>
        compositional.pure _

theorem listedField (typeName first : Token) (earlier : List Field) :
    property (listedField typeName earlier first) := by
  refine compositional.bind (compositional.field first) fun found => ?_
  split
  · exact compositional.fail nofun
  · exact compositional.bind (compositional.emit _) fun _ => compositional.pure _

theorem parent (typeName : Token) : property (parent typeName) := by
  refine compositional.bind (compositional.nextIf? .colon) fun colon => ?_
  split
  · refine compositional.bind (compositional.name _) fun parentName => ?_
    split
    · exact compositional.fail nofun
    · exact compositional.pure _
  · refine compositional.bind compositional.front? fun found => ?_
    split
    · split
      · exact compositional.pure _
      · exact compositional.fail nofun
    · exact compositional.fail nofun

theorem typeDefinition (keyword : Token) : property (typeDefinition keyword) := by
  rw [typeDefinition_eq]
  refine compositional.bind (compositional.name _) fun typeName => ?_
  refine compositional.bind (compositional.parent typeName) fun parentName => ?_
  refine compositional.bind (compositional.openBrace _) fun _ => ?_
  refine compositional.bind (compositional.within _ ?_) fun read => compositional.pure _
  exact compositional.braced fun earlier first => compositional.listedField typeName first earlier

theorem definition (first : Token) : property (Parser.definition first) := by
  rw [Parser.definition]
  split
  · exact compositional.enumDefinition first
  · exact compositional.typeDefinition first
  · split <;> exact compositional.fail nofun

end Compositional

end Parser
end TypeSchema
