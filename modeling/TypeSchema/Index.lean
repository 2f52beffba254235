namespace TypeSchema

/-!
# Indices

Items with names are kept in the order in which they were entered, and beside
them an index: it holds, under each name, the place of the item.  Whoever enters
an item enters its place, and whoever looks for a name asks the index and goes to
the place it holds.  A name that is entered again takes the later place.
-/

/-- Places under names, the latest entry first. -/
structure Index where
  entries : List (String × Nat) := []
  deriving DecidableEq, Repr

namespace Index

/-- The place that is held under a name. -/
def find? (index : Index) (name : String) : Option Nat :=
  index.entries.lookup name

/-- Whether a place is held under a name. -/
def contains (index : Index) (name : String) : Bool :=
  (index.find? name).isSome

/-- Enter a place under a name. -/
def insert (index : Index) (name : String) (place : Nat) : Index :=
  { entries := (name, place) :: index.entries }

/-- The index of names that were entered one after another. -/
def of (names : List String) : Index :=
  names.zipIdx.foldl (fun index (name, place) => index.insert name place) {}

/-- The item at the place that is held under a name. -/
def item? {α : Type} (index : Index) (items : List α) (name : String) : Option α :=
  (index.find? name).bind fun place => items[place]?

theorem find?_insert (index : Index) (name other : String) (place : Nat) :
    (index.insert name place).find? other = if other = name then some place else index.find? other := by
  rw [find?, insert, List.lookup_cons]
  split
  · next same => rw [if_pos (beq_iff_eq.mp same)]
  · next different => rw [if_neg (beq_eq_false_iff_ne.mp different), find?]

/-- To enter a name behind all others is to enter its place, which is their
number. -/
theorem of_append (names : List String) (name : String) :
    of (names ++ [name]) = (of names).insert name names.length := by
  rw [of, List.zipIdx_append, List.foldl_append]
  simp [of]

/-- The same for items that have names. -/
theorem of_push {α : Type} (name : α -> String) (items : List α) (item : α) :
    of ((items ++ [item]).map name) = (of (items.map name)).insert (name item) items.length := by
  rw [List.map_append, List.map_singleton, of_append, List.length_map]

end Index
end TypeSchema
