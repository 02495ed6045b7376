import ArtifactResolver.Panic
import ArtifactResolver.Variable.Path

/-!
# The tree of variables

All variables of the environment together make one tree of tables and lists with their values at the
leaves. A variable makes way for itself: what stands on its path and is not of the kind that a step
needs gives way to a table or a list, and a list that is too short for a place gets unset items, at
its end or, for a place that is counted from the end, at its start.
-/

namespace ArtifactResolver.Variable

/-- A part of the tree. -/
inductive Node where
  /-- Nothing. -/
  | unset
  /-- The value of a variable. -/
  | text (value : String)
  /-- A table, its entries in the order in which they were made. -/
  | table (entries : List (String × Node))
  /-- A list. -/
  | list (items : List Node)

namespace Node

/-- The entries of a table; nothing else has any. -/
def entries : Node → List (String × Node)
  | .table entries => entries
  | _ => []

/-- The items of a list; nothing else has any. -/
def items : Node → List Node
  | .list items => items
  | _ => []

/-- The entry of a table with a name. -/
def entry (n : Node) (name : String) : Node := (n.entries.lookup name).getD .unset

/-- Binds a name to a part of the tree, in the place of what it was bound to. -/
def bind (name : String) (inner : Node) : List (String × Node) → List (String × Node)
  | [] => [(name, inner)]
  | first :: rest =>
    if first.1 = name then (name, inner) :: rest else first :: bind name inner rest

/-- The number of items that a list needs to have a place. -/
def needed (i : Int) : Nat := if i < 0 then i.natAbs else i.natAbs + 1

/-- The most items that a list can have: an item takes 96 bytes, and a list at most half of all the
addresses that a word can hold. -/
def maxItems : Nat := Word.half / 96

/-- What a list panics with that would have too many items. -/
def tooManyItems : Panic := ⟨"capacity overflow"⟩

/-- The items of a list, with unset ones added until it has a place. -/
def extend (i : Int) (items : List Node) : List Node :=
  let added := List.replicate (needed i - items.length) .unset
  if i < 0 then added ++ items else items ++ added

/-- A place in a list, counted from its start. -/
def position (i : Int) (length : Nat) : Nat := if i < 0 then length - i.natAbs else i.natAbs

/-- Puts a value at the end of a path. -/
def put (value : String) : List Step → Node → Except Panic Node
  | [], _ => .ok (.text value)
  | .key name :: path, n => do
    return .table (bind name (← put value path (n.entry name)) n.entries)
  | .index i :: path, n => do
    if maxItems < needed i then throw tooManyItems
    let items := extend i n.items
    let place := position i items.length
    return .list (items.set place (← put value path (items.getD place .unset)))

/-- The tree of the variables of an environment, of which some are none of the library's. -/
def ofEnvironment (environment : List (String × String)) : Except Panic Node :=
  environment.foldlM (fun n (name, value) =>
    match path? name with
    | some path => put value path n
    | none => .ok n) (.table [])

end Node
end ArtifactResolver.Variable
