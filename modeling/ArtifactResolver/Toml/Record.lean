import ArtifactResolver.Toml.Error
import ArtifactResolver.Toml.Value

/-!
# Records

Reading a value as a record of named fields. The fields are read in the order in which the document
gives them, so that the first one that does not fit decides the error; keys that are not fields are
passed over. Only then are fields that the document does not give looked for. Instead of a table, an
array may give the fields without their names, in the order in which the record declares them.
-/

namespace ArtifactResolver.Toml

/-- Reads text. -/
def Value.text : Value → Except Error String
  | .string text => .ok text
  | _ => .error .wrongType

/-- Reads a truth value. -/
def Value.truth : Value → Except Error Bool
  | .boolean truth => .ok truth
  | _ => .error .wrongType

/-- Reads an array, each item by the given reader. -/
def Value.list {α : Type} (item : Value → Except Error α) : Value → Except Error (List α)
  | .array items => items.mapM item
  | _ => .error .wrongType

/-- The fields of a record, and how each of them is read. -/
structure Fields (α : Type) where
  /-- The names of the fields in the order in which they are declared. -/
  names : List String
  /-- How many of them an array has to give. -/
  needed : Nat
  /-- The record before any field is read. -/
  blank : α
  /-- The record after the field of a name was read. -/
  read : String → Value → α → Except Error α

namespace Fields

variable {α : Type}

/-- Reads fields in the given order. -/
def readAll (f : Fields α) (entries : List (String × Value)) : Except Error α :=
  entries.foldlM (fun record entry => f.read entry.1 entry.2 record) f.blank

/-- Reads a record from a value. A date counts as a table without any of the fields. -/
def ofValue (f : Fields α) : Value → Except Error α
  | .table entries => f.readAll entries
  | .array items => do
    let record ← f.readAll (f.names.zip items)
    if items.length < f.needed then .error .wrongType else return record
  | .datetime _ => return f.blank
  | _ => .error .wrongType

end Fields

/-- The value of a field that has to be there. -/
def required {α : Type} (name : String) : Option α → Except Error α
  | some a => .ok a
  | none => .error (.missingField name)

end ArtifactResolver.Toml
