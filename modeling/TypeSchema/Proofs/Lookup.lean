import Mathlib.Data.List.Induction
import Mathlib.Data.List.Nodup
import TypeSchema.Definition

namespace TypeSchema

/-!
# Looking up by name

An index fits a list of names if it holds the place of each of them and no other
place.  It does so in the beginning, when there are neither names nor places, and
it goes on to do so when a name that it does not hold is entered behind the others.
Names are then distinct, and every name leads to the one item that has it.
-/

namespace Index

variable {α : Type} {index : Index} {names : List String} {text : String} {place : Nat}

/-! ## Indices that fit -/

/-- The index holds the place of every name, and nothing else. -/
def Fits (index : Index) (names : List String) : Prop :=
  forall text place, index.find? text = some place <-> names[place]? = some text

theorem fits_empty : Fits {} [] := by
  intro text place
  simp [find?]

theorem Fits.lt_length (fits : index.Fits names) (held : index.find? text = some place) :
    place < names.length :=
  (List.getElem?_eq_some_iff.mp ((fits text place).mp held)).1

theorem Fits.find?_eq_none_iff (fits : index.Fits names) :
    index.find? text = none <-> text ∉ names := by
  rw [List.mem_iff_getElem?, not_exists, Option.eq_none_iff_forall_ne_some]
  exact forall_congr' fun place => not_congr (fits text place)

/-- What stands at a place is as it was before, or it is the last name at the last
place. -/
theorem getElem?_concat_eq_some_iff {name : String} :
    (names ++ [name])[place]? = some text <->
      names[place]? = some text ∨ place = names.length ∧ text = name := by
  rcases Nat.lt_trichotomy place names.length with before | rfl | behind
  · rw [List.getElem?_append_left before]
    exact (or_iff_left fun here => Nat.ne_of_lt before here.1).symm
  · simp only [List.getElem?_concat_length, List.getElem?_length, Option.some_inj, reduceCtorEq,
      true_and, false_or, eq_comm]
  · have longer : (names ++ [name]).length ≤ place := by
      rw [List.length_append, List.length_singleton]
      exact behind
    rw [List.getElem?_eq_none longer, List.getElem?_eq_none (Nat.le_of_lt behind)]
    exact (or_iff_left fun here => Nat.ne_of_gt behind here.1).symm

/-- An index that fits goes on to fit when a new name is entered. -/
theorem Fits.insert (fits : index.Fits names) {name : String} (isNew : index.find? name = none) :
    (index.insert name names.length).Fits (names ++ [name]) := by
  intro text place
  rw [find?_insert, getElem?_concat_eq_some_iff]
  by_cases same : text = name
  · subst same
    have absent := fits.find?_eq_none_iff.mp isNew
    rw [if_pos rfl, Option.some_inj, or_iff_right fun found => absent (List.mem_of_getElem? found)]
    exact ⟨fun here => ⟨here.symm, rfl⟩, fun here => here.1.symm⟩
  · rw [if_neg same, fits text place, or_iff_left fun here => same here.2]

/-- The same for items that have names. -/
theorem Fits.push {name : α -> String} {items : List α} (fits : index.Fits (items.map name)) {item : α}
    (isNew : index.find? (name item) = none) :
    (index.insert (name item) items.length).Fits ((items ++ [item]).map name) := by
  have grown := fits.insert isNew
  rw [List.length_map] at grown
  rw [List.map_append, List.map_singleton]
  exact grown

/-- Two places of one name are the same, since the index holds only one of them. -/
theorem Fits.nodup (fits : index.Fits names) : names.Nodup := by
  rw [List.nodup_iff_getElem?_ne_getElem?]
  intro first second before inside same
  have held := (fits names[second] second).mpr (List.getElem?_eq_getElem inside)
  have again := (fits names[second] first).mpr (same.trans (List.getElem?_eq_getElem inside))
  rw [held] at again
  exact absurd (Option.some.inj again) (Nat.ne_of_gt before)

/-! ## Indices of given names -/

/-- The place under a name is one of a name that was entered. -/
theorem getElem?_of_find?_of (held : (of names).find? text = some place) :
    names[place]? = some text := by
  -- From the end, where a name is entered: `find?_insert` then says what its entry changes.
  induction names using List.reverseRecOn with
  | nil => cases held
  | append_singleton names name ih =>
      rw [of_append, find?_insert] at held
      split at held
      · next same => exact getElem?_concat_eq_some_iff.mpr (Or.inr ⟨(Option.some.inj held).symm, same⟩)
      · exact getElem?_concat_eq_some_iff.mpr (Or.inl (ih held))

theorem find?_of_eq_none_iff : (of names).find? text = none <-> text ∉ names := by
  induction names using List.reverseRecOn with
  | nil => exact iff_of_true rfl List.not_mem_nil
  | append_singleton names name ih =>
      rw [of_append, find?_insert, List.mem_append, List.mem_singleton, not_or, ← ih]
      split
      · next same => simp [same]
      · next other => simp [other]

/-- Names that are exchanged one for one are held at the same places. -/
theorem find?_of_map {change : String -> String} (injective : Function.Injective change) :
    (of (names.map change)).find? (change text) = (of names).find? text := by
  induction names using List.reverseRecOn with
  | nil => rfl
  | append_singleton names name ih =>
      rw [List.map_append, List.map_singleton, of_append, of_append, find?_insert, find?_insert, ih,
        List.length_map]
      simp only [injective.eq_iff]

/-! ## Items under their names -/

/-- An item that is entered behind the others is found under its name. -/
theorem item?_insert_self (index : Index) (items : List α) (item : α) (name : String) :
    (index.insert name items.length).item? (items ++ [item]) name = some item := by
  rw [item?, find?_insert, if_pos rfl, Option.bind_some, List.getElem?_concat_length]

theorem item?_of_eq_none_iff {name : α -> String} {items : List α} :
    (of (items.map name)).item? items text = none <-> text ∉ items.map name := by
  rw [← find?_of_eq_none_iff, item?, Option.bind_eq_none_iff]
  constructor
  · intro missing
    rw [Option.eq_none_iff_forall_ne_some]
    intro place held
    have named := getElem?_of_find?_of held
    rw [List.getElem?_map, missing place held] at named
    cases named
  · intro nothing place held
    rw [nothing] at held
    cases held

end Index

namespace Lookup

variable {α : Type} {name : α -> String} {items : List α} {index : Index}

/-- Items under distinct names, an index that holds the places of these names and no
others, and a lookup that finds the item of a name: the one item that has it, and no
item only where none has it. -/
structure Answers (name : α -> String) (items : List α) (index : Index)
    (find? : String -> Option α) : Prop where
  distinct : (items.map name).Nodup
  noted : forall text (place : Nat), index.find? text = some place <->
    items[place]?.map name = some text
  inside : forall text place, index.find? text = some place -> place < items.length
  found : forall text item, find? text = some item <-> item ∈ items ∧ name item = text
  missing : forall text, find? text = none <-> forall item, item ∈ items -> name item ≠ text
  own : forall (place : Nat) item, items[place]? = some item -> find? (name item) = some item

theorem item?_eq_some_iff (fits : index.Fits (items.map name)) {text : String} {item : α} :
    index.item? items text = some item <-> item ∈ items ∧ name item = text := by
  rw [Index.item?, Option.bind_eq_some_iff]
  constructor
  · rintro ⟨place, held, at_⟩
    have named := (fits text place).mp held
    rw [List.getElem?_map, at_] at named
    exact ⟨List.mem_of_getElem? at_, Option.some.inj named⟩
  · rintro ⟨member, rfl⟩
    rcases List.mem_iff_getElem?.mp member with ⟨place, at_⟩
    have named : (items.map name)[place]? = some (name item) := by
      rw [List.getElem?_map, at_, Option.map_some]
    exact ⟨place, (fits (name item) place).mpr named, at_⟩

theorem item?_eq_none_iff (fits : index.Fits (items.map name)) {text : String} :
    index.item? items text = none <-> index.find? text = none := by
  rw [Index.item?, Option.bind_eq_none_iff]
  constructor
  · intro missing
    rw [Option.eq_none_iff_forall_ne_some]
    intro place held
    have inside := fits.lt_length held
    rw [List.length_map] at inside
    exact absurd inside (Nat.not_lt.mpr (List.getElem?_eq_none_iff.mp (missing place held)))
  · intro nothing place held
    rw [nothing] at held
    cases held

theorem answers_of_fits (fits : index.Fits (items.map name)) :
    Answers name items index (index.item? items) where
  distinct := fits.nodup
  noted text place := by rw [fits text place, List.getElem?_map]
  inside text place held := List.length_map name ▸ fits.lt_length held
  found text item := item?_eq_some_iff fits
  missing text := by
    rw [Option.eq_none_iff_forall_ne_some]
    constructor
    · intro nowhere item member same
      exact nowhere item ((item?_eq_some_iff fits).mpr ⟨member, same⟩)
    · intro other item found
      rcases (item?_eq_some_iff fits).mp found with ⟨member, same⟩
      exact other item member same
  own place item at_ := (item?_eq_some_iff fits).mpr ⟨List.mem_of_getElem? at_, rfl⟩

end Lookup
end TypeSchema
