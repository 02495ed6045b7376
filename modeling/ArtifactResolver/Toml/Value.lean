/-!
# TOML values

The values that a document is made of. Numbers with a fraction and dates are kept as they are
written: nothing that this library reads from a document is one, it only has to know that they are
there.
-/

namespace ArtifactResolver.Toml

/-- A value. -/
inductive Value where
  /-- Text. -/
  | string (text : String)
  /-- A whole number. -/
  | integer (number : Int)
  /-- A number with a fraction or an exponent, or one of the special ones, as written. -/
  | float (literal : String)
  /-- A truth value. -/
  | boolean (truth : Bool)
  /-- A date, a time, or both, as written. -/
  | datetime (literal : String)
  /-- A sequence of values. -/
  | array (items : List Value)
  /-- Values by key, in the order in which the keys were given. -/
  | table (entries : List (String × Value))

end ArtifactResolver.Toml
