import ArtifactResolver.Environment

/-!
# Stores as maps

A store is a map with write times if there are a clock and a map behind it that account for all that
it does: reading gives what the map holds, the age of an entry is the time since it was written, and
writing succeeds and changes one entry. It need be so only in the environments that can occur.
-/

namespace ArtifactResolver

namespace Cache

variable {σ : Type}

/-- A map with write times, as it is in every environment that can occur. -/
structure View (σ : Type) where
  /-- The environments that can occur. -/
  occurs : σ → Prop
  /-- The time in milliseconds. -/
  now : σ → Nat
  /-- The content of the entry of a key, and the time at which it was written. -/
  entry : σ → Key → Option (Bytes × Nat)

/-- The store is a map with write times, and its writes succeed. -/
structure Store.Shows (s : Store σ) (v : View σ) : Prop where
  read_eq : ∀ {e}, v.occurs e → ∀ key, s.read e key = .ok ((v.entry e key).map (·.1))
  age_eq : ∀ {e}, v.occurs e → ∀ key,
    s.age e key = .ok ((v.entry e key).map fun found => ⟨v.now e - found.2⟩)
  write_eq : ∀ {e}, v.occurs e → ∀ key bytes, (s.write e key bytes).1 = .ok ()
  occurs_write : ∀ {e}, v.occurs e → ∀ key bytes, v.occurs (s.write e key bytes).2
  entry_write : ∀ {e}, v.occurs e → ∀ key bytes other, v.entry (s.write e key bytes).2 other =
    if other = key then some (bytes, v.now e) else v.entry e other

namespace View

variable (v : View σ)

/-- The content of the entry of a key, if it is trusted at its age. -/
def fresh (e : σ) (trust : Trust) (key : Key) : Option Bytes :=
  match v.entry e key with
  | some (bytes, written) => if trust.isFresh ⟨v.now e - written⟩ then some bytes else none
  | none => none

/-- The map has no entries. -/
structure Empty (e : σ) : Prop where
  occurs : v.occurs e
  entry_eq : ∀ key, v.entry e key = none

/-- Time passes, and nothing happens to the entries. -/
structure Later (e e' : σ) : Prop where
  occurs : v.occurs e'
  now_le : v.now e ≤ v.now e'
  entry_eq : ∀ key, v.entry e' key = v.entry e key

variable {v} {e : σ} {trust : Trust} {key : Key} {bytes : Bytes}

theorem entry_of_fresh (h : v.fresh e trust key = some bytes) :
    ∃ written, v.entry e key = some (bytes, written) := by
  unfold fresh at h
  split at h
  · next found written hentry =>
    split at h
    · exact ⟨written, by rw [hentry, Option.some.inj h]⟩
    · cases h
  · cases h

theorem fresh_always : v.fresh e .always key = (v.entry e key).map (·.1) := by
  unfold fresh
  rcases v.entry e key with _ | ⟨bytes, written⟩ <;> rfl

end View

namespace Store.Shows

variable {s : Store σ} {v : View σ} {e : σ} {trust : Trust} {key : Key}

theorem readFresh_eq (hs : s.Shows v) (h : v.occurs e) :
    s.readFresh e trust key = .ok (v.fresh e trust key) := by
  rw [Store.readFresh, hs.age_eq h, hs.read_eq h, View.fresh]
  rcases v.entry e key with _ | ⟨bytes, written⟩
  · rfl
  · show (if trust.isFresh ⟨v.now e - written⟩ = true then _ else _) = _
    by_cases hf : trust.isFresh ⟨v.now e - written⟩ = true
    · simp [hf]
    · simp [hf]
      rfl

theorem hasFresh_eq (hs : s.Shows v) (h : v.occurs e) :
    s.hasFresh e trust key = .ok (v.fresh e trust key).isSome := by
  rw [Store.hasFresh, hs.age_eq h, View.fresh]
  rcases v.entry e key with _ | ⟨bytes, written⟩
  · rfl
  · show Except.ok _ = _
    by_cases hf : trust.isFresh ⟨v.now e - written⟩ = true <;> simp [hf]

end Store.Shows

/-! ## The store in memory -/

namespace Memory

theorem lookup_insert (m : Memory) (key other : Key) (content : Bytes) :
    (m.insert key content).entries.lookup other =
      if other = key then some ⟨content, m.now⟩ else m.entries.lookup other := by
  have hfilter : ∀ entries : List (Key × MemoryEntry), other ≠ key →
      (entries.filter fun entry => entry.1 ≠ key).lookup other = entries.lookup other := by
    intro entries hne
    induction entries with
    | nil => rfl
    | cons entry rest ih =>
      obtain ⟨k, content⟩ := entry
      by_cases hk : k = key
      · have hother : (other == k) = false := by simpa [hk] using hne
        rw [List.filter_cons_of_neg (by simp [hk]), ih, List.lookup_cons, hother]
      · rw [List.filter_cons_of_pos (by simp [hk]), List.lookup_cons, List.lookup_cons, ih]
  rw [insert, List.lookup_cons]
  by_cases h : other = key
  · simp [h]
  · rw [hfilter m.entries h, beq_false_of_ne h, if_neg h]

theorem fault?_of_faults {m : Memory} (h : m.faults = []) (access : Access) (key : Key) :
    m.fault? access key = none := by
  simp [fault?, h]

/-- The entries in memory, as long as no access is made to fail. -/
def view : View Memory where
  occurs m := m.faults = []
  now m := m.now
  entry m key := (m.entries.lookup key).map fun found => (found.content, found.written)

theorem store_shows : store.Shows view where
  read_eq h key := by
    simp [store, view, guarded, fault?_of_faults h, Function.comp_def]
  age_eq h key := by
    simp [store, view, guarded, fault?_of_faults h, Function.comp_def]
  write_eq h key bytes := by simp [store, fault?_of_faults h]
  occurs_write h key bytes := by simpa [store, view, fault?_of_faults h, insert] using h
  entry_write h key bytes other := by
    simp only [store, view, fault?_of_faults h, lookup_insert]
    by_cases hk : other = key <;> simp [hk]

end Memory
end Cache

namespace Environment

/-- The entries in the memory of an environment with the given sites. -/
def view (sites : List Site) : Cache.View Environment where
  occurs e := Cache.Memory.view.occurs e.memory ∧ e.sites = sites
  now e := Cache.Memory.view.now e.memory
  entry e := Cache.Memory.view.entry e.memory

theorem memoryStore_read (e : Environment) (key : Cache.Key) : memoryStore.read e key =
    e.memory.guarded .read key ((e.memory.entries.lookup key).map (·.content)) := rfl

theorem memoryStore_age (e : Environment) (key : Cache.Key) : memoryStore.age e key =
    e.memory.guarded .age key
      ((e.memory.entries.lookup key).map fun entry => ⟨e.memory.now - entry.written⟩) := rfl

theorem memoryStore_shows (sites : List Site) : memoryStore.Shows (view sites) where
  read_eq h key := Cache.Memory.store_shows.read_eq h.1 key
  age_eq h key := Cache.Memory.store_shows.age_eq h.1 key
  write_eq h key bytes := Cache.Memory.store_shows.write_eq h.1 key bytes
  occurs_write h key bytes := ⟨Cache.Memory.store_shows.occurs_write h.1 key bytes, h.2⟩
  entry_write h key bytes other := Cache.Memory.store_shows.entry_write h.1 key bytes other

/-- The environment after some time in which nothing else happens. -/
def after (millis : Nat) (e : Environment) : Environment :=
  { e with memory := { e.memory with now := e.memory.now + millis } }

theorem later_after {sites : List Site} {e : Environment} (h : (view sites).occurs e)
    (millis : Nat) : (view sites).Later e (e.after millis) where
  occurs := h
  now_le := Nat.le_add_right _ _
  entry_eq _ := rfl

end Environment
end ArtifactResolver
