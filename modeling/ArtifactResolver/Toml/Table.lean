import ArtifactResolver.Toml.Value

/-!
# Tables under construction

While a document is read, a table may still grow: a header may reopen a table that so far was only
implied by longer headers, and a dotted key may add to a table that only dotted keys have made.
Every table under construction therefore knows where it comes from, and every step either is allowed
by the origins of the tables that it passes through or makes the document malformed.
-/

namespace ArtifactResolver.Toml

/-- Where a table comes from. -/
inductive Origin where
  /-- It has a header of its own. -/
  | header
  /-- It was implied by the header of another table. -/
  | implied
  /-- It was made by a dotted key. -/
  | dotted
deriving DecidableEq, Repr

/-- A value, or a table under construction. -/
inductive Node where
  /-- A value, which cannot grow. -/
  | leaf (v : Value)
  /-- A table. -/
  | table (origin : Origin) (entries : List (String × Node))
  /-- The tables of an array of tables, the last one first. -/
  | tables (last : List (String × Node)) (earlier : List (List (String × Node)))

/-- The entries of a table under construction, in the order in which they were made. -/
abbrev Entries := List (String × Node)

/-- Binds a key that is bound already to another node, in its place. -/
def Entries.replace (key : String) (node : Node) : Entries → Entries
  | [] => []
  | entry :: rest =>
    if entry.1 = key then (key, node) :: rest else entry :: Entries.replace key node rest

/-- Changes the table at the end of a path. Tables that the path names and that do not exist are
made on the way, as dotted ones if `byKey`, as implied ones otherwise; of an array of tables the
last one is meant. A dotted key may not lead through a table that has a header. -/
def Entries.change (byKey : Bool) (step : Origin → Entries → Option Entries) :
    List String → Origin → Entries → Option Entries
  | [], origin, entries => step origin entries
  | key :: path, _, entries =>
    match entries.lookup key with
    | none => do
      let made := if byKey then Origin.dotted else .implied
      let inner ← Entries.change byKey step path made []
      return entries ++ [(key, .table made inner)]
    | some (.leaf _) => none
    | some (.table origin inner) =>
      if byKey && origin = .header then none
      else do
        let inner ← Entries.change byKey step path origin inner
        return entries.replace key (.table origin inner)
    | some (.tables last earlier) => do
      let last ← Entries.change byKey step path .header last
      return entries.replace key (.tables last earlier)

/-- Assigns a value to a dotted key of a table. The last table on the way has to be one that dotted
keys made, unless it is the table itself, and the key has to be new there. -/
def Entries.assign (path : List String) (v : Value) (origin : Origin) (entries : Entries) :
    Option Entries := do
  let key ← path.getLast?
  let assignHere (origin : Origin) (inner : Entries) : Option Entries :=
    if (origin == .dotted) == (path.length == 1) then none
    else if (inner.lookup key).isSome then none
    else some (inner ++ [(key, .leaf v)])
  Entries.change true assignHere path.dropLast origin entries

/-- Opens the table of a header. A table that was only implied so far moves to the end of the table
that holds it. -/
def Entries.openTable (path : List String) (entries : Entries) : Option Entries := do
  let key ← path.getLast?
  let openHere (_ : Origin) (inner : Entries) : Option Entries :=
    match inner.lookup key with
    | none => some (inner ++ [(key, .table .header [])])
    | some (.table .implied own) =>
      some ((inner.filter fun entry => entry.1 ≠ key) ++ [(key, .table .header own)])
    | _ => none
  Entries.change false openHere path.dropLast .header entries

/-- Adds a table to the array of tables of a header. -/
def Entries.openElement (path : List String) (entries : Entries) : Option Entries := do
  let key ← path.getLast?
  let openHere (_ : Origin) (inner : Entries) : Option Entries :=
    match inner.lookup key with
    | none => some (inner ++ [(key, .tables [] [])])
    | some (.tables last earlier) => some (inner.replace key (.tables [] (last :: earlier)))
    | _ => none
  Entries.change false openHere path.dropLast .header entries

mutual

/-- The value that a node has become. -/
def Node.toValue : Node → Value
  | .leaf v => v
  | .table _ entries => .table (entriesToValues entries)
  | .tables last earlier => .array (tablesToValues earlier [.table (entriesToValues last)])

/-- The entries of a table, each with the value that its node has become. -/
def entriesToValues : List (String × Node) → List (String × Value)
  | [] => []
  | (key, node) :: rest => (key, node.toValue) :: entriesToValues rest

/-- The tables of an array, the last one first, in front of the values behind them. -/
def tablesToValues : List (List (String × Node)) → List Value → List Value
  | [], behind => behind
  | entries :: earlier, behind =>
    tablesToValues earlier (.table (entriesToValues entries) :: behind)

end

/-- A statement of a document. -/
inductive Statement where
  /-- The header of a table. -/
  | header (path : List String)
  /-- The header of a table in an array of tables. -/
  | element (path : List String)
  /-- The assignment of a value to a dotted key. -/
  | assign (path : List String) (v : Value)

/-- A document under construction. -/
structure Draft where
  /-- The entries of the document itself. -/
  root : Entries := []
  /-- The path of the table that assignments go to. -/
  current : List String := []

/-- The document after one more statement. -/
def Draft.add (d : Draft) : Statement → Option Draft
  | .header path => (d.root.openTable path).map (⟨·, path⟩)
  | .element path => (d.root.openElement path).map (⟨·, path⟩)
  | .assign path v =>
    (Entries.change false (Entries.assign path v) d.current .header d.root).map (⟨·, d.current⟩)

/-- The table that assignments make up, none if they contradict each other. -/
def ofAssignments? (assignments : List (List String × Value)) : Option (List (String × Value)) :=
  (assignments.foldlM (fun entries a => Entries.assign a.1 a.2 .header entries) []).map
    entriesToValues

end ArtifactResolver.Toml
