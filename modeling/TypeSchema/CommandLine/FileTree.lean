namespace TypeSchema
namespace CommandLine

/-!
# File trees

A file tree is a file system as data, so that a run can be followed without a
disk.  A place in it is the list of names that lead there from the root.  A
path is walked name by name, from the root if it starts with a slash and from
the working directory otherwise.  Every step starts in a directory: an empty
name or a single dot stays there, two dots lead to the directory around it,
and any other name leads to what bears it.  A path through a file or through
nothing therefore leads nowhere, even if it comes back behind it.
-/

/-- What is found under a path. -/
inductive Entry where
  | missing
  | directory
  | file (contents : ByteArray)

/-- The working directory and the entries of a file system, each with its
place.  Of several entries at one place the last counts. -/
structure FileTree where
  home : List String := []
  entries : List (List String × Entry) := []

namespace FileTree

/-- The places that the tree speaks of. -/
def places (tree : FileTree) : List (List String) :=
  tree.home :: tree.entries.map Prod.fst

/-- What is found at a place.  A place that leads on to another is a
directory. -/
def find (tree : FileTree) (place : List String) : Entry :=
  match tree.entries.reverse.lookup place with
  | some entry => entry
  | none => if tree.places.any place.isPrefixOf then .directory else .missing

/-- Go on from a place by one name of a path. -/
def walk (tree : FileTree) (place : List String) (name : String) : Option (List String) :=
  match tree.find place with
  | .directory =>
      if name = "" ∨ name = "." then some place
      else if name = ".." then some place.dropLast
      else some (place ++ [name])
  | _ => none

/-- What a path leads to.  The empty path leads nowhere. -/
def lookUp (tree : FileTree) (path : String) : Entry :=
  if path = "" then .missing
  else
    let start := if path.startsWith "/" then [] else tree.home
    match (path.splitOn "/").foldlM tree.walk start with
    | some place => tree.find place
    | none => .missing

end FileTree
end CommandLine
end TypeSchema
