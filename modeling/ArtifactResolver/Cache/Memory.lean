import ArtifactResolver.Cache.Store
import ArtifactResolver.Lens

/-!
# A cache in memory

Entries with the times at which they were written, by a clock that moves only when it is told to.
Any access can be made to fail, for one key or for all of them.
-/

namespace ArtifactResolver.Cache

/-- The ways in which an entry is accessed. -/
inductive Access where
  /-- Reading its content. -/
  | read
  /-- Writing its content. -/
  | write
  /-- Asking for its age. -/
  | age
deriving DecidableEq, Repr

/-- An entry in memory. -/
structure MemoryEntry where
  /-- The content of the entry. -/
  content : Bytes
  /-- When it was written, in milliseconds. -/
  written : Nat
deriving DecidableEq, Repr

/-- A cache in memory. -/
structure Memory where
  /-- The entries by key. -/
  entries : List (Key × MemoryEntry) := []
  /-- The time in milliseconds. -/
  now : Nat := 0
  /-- The causes for which accesses fail, by access and key; without a key, for every key. -/
  faults : List ((Access × Option Key) × String) := []

namespace Memory

/-- Why an access fails, if it does. A fault for the key itself takes precedence over one for every
key. -/
def fault? (m : Memory) (access : Access) (key : Key) : Option String :=
  (m.faults.lookup (access, some key)).or (m.faults.lookup (access, none))

/-- Makes an access fail for the given cause, or no longer fail. -/
def setFault (m : Memory) (access : Access) (key : Option Key) (cause : Option String) : Memory :=
  let others := m.faults.filter fun fault => fault.1 ≠ (access, key)
  { m with faults := (cause.map fun text => ((access, key), text)).toList ++ others }

/-- The result of an access, unless it is made to fail. -/
def guarded {α : Type} (m : Memory) (access : Access) (key : Key) (result : α) :
    Except CacheError α :=
  match m.fault? access key with
  | some text => .error (.io (.other text))
  | none => .ok result

/-- Binds a key to an entry that is written now. -/
def insert (m : Memory) (key : Key) (content : Bytes) : Memory :=
  { m with entries := (key, ⟨content, m.now⟩) :: m.entries.filter fun entry => entry.1 ≠ key }

/-- The store in memory. -/
def store : Store Memory where
  read m key := m.guarded .read key ((m.entries.lookup key).map (·.content))
  age m key := m.guarded .age key ((m.entries.lookup key).map fun entry => ⟨m.now - entry.written⟩)
  write m key content :=
    match m.fault? .write key with
    | some text => (.error (.io (.other text)), m)
    | none => (.ok (), m.insert key content)
  path key := "/cache/" ++ key.text

end Memory

/-- A store that keeps its entries in a part of the environment. -/
def Store.within {σ τ : Type} (l : Lens σ τ) (s : Store τ) : Store σ where
  read env := s.read (l.get env)
  age env := s.age (l.get env)
  write env key content :=
    let (result, part) := s.write (l.get env) key content
    (result, l.set part env)
  path := s.path

end ArtifactResolver.Cache
