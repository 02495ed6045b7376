import ArtifactResolver.Toml.Error
import ArtifactResolver.Toml.Reader

/-!
# Documents

Reading a whole document: the statements of its text, put together to one table.
-/

namespace ArtifactResolver.Toml

/-- The table that the statements of a document make up, none if they contradict each other. -/
def ofStatements? (statements : List Statement) : Option (List (String × Value)) :=
  (statements.foldlM Draft.add {}).map fun draft => entriesToValues draft.root

/-- Reads a document. -/
def parse (text : String) : Except Error (List (String × Value)) :=
  match (statements? text.toList).bind ofStatements? with
  | some entries => .ok entries
  | none => .error .malformed

end ArtifactResolver.Toml
