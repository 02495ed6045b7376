import ArtifactResolver.Files.Tree

/-!
# Changes between file trees

What has to be done to the files of one tree to get those of another, in an order in which it can be
done: what is gone goes first, the inner places before those around them, and what is new comes
after that, the outer places before those within them.
-/

namespace ArtifactResolver.Files

/-- A change of what stands at a place. -/
inductive Change where
  /-- The file there goes. -/
  | removeFile (place : Place)
  /-- The directory there, which is empty by then, goes. -/
  | removeDirectory (place : Place)
  /-- A directory comes. -/
  | makeDirectory (place : Place)
  /-- A file comes, or the one there gets this content. -/
  | writeFile (place : Place) (content : Bytes)
deriving DecidableEq, Repr

namespace Change

/-- The place of a change. -/
def place : Change → Place
  | removeFile place => place
  | removeDirectory place => place
  | makeDirectory place => place
  | writeFile place _ => place

/-- The change by which an entry goes. -/
def removal (place : Place) : Entry → Change
  | .file .. => removeFile place
  | .directory => removeDirectory place

/-- The change by which an entry comes. -/
def addition (place : Place) : Entry → Change
  | .file content _ => writeFile place content
  | .directory => makeDirectory place

end Change

namespace Tree

/-- Whether an entry can take the place of another without that one being removed first. -/
def replaces (new : Option Entry) (old : Entry) : Bool :=
  match old, new with
  | .file .., some (.file ..) => true
  | .directory, some .directory => true
  | _, _ => false

/-- The entries of a tree, the outer places before those within them. -/
def outerFirst (t : Tree) : List (Place × Entry) :=
  t.entries.mergeSort fun a b => a.1.length ≤ b.1.length

/-- The changes that lead from one tree to another. -/
def changesTo (before after : Tree) : List Change :=
  let gone := before.outerFirst.reverse.filter fun entry =>
    !replaces (after.entryAt? entry.1) entry.2
  let new := after.outerFirst.filter fun entry => before.entryAt? entry.1 ≠ some entry.2
  gone.map (fun entry => Change.removal entry.1 entry.2) ++
    new.map fun entry => Change.addition entry.1 entry.2

end Tree
end ArtifactResolver.Files
