import ArtifactResolver.Proofs.Availability

/-!
# What a lookup leaves behind

The cache is written in one place only: after the site has returned content that can be read. So a
lookup that ends without a value leaves every entry as it was, with its content and its time, and
one that ends with a value changes no entry but its own. The local half and the half that takes the
place of the remote one offline change nothing at all.
-/

namespace ArtifactResolver

variable {σ α : Type}

/-- Writes are all or nothing: one that succeeds changes the entry of its key, and one that fails
changes none. -/
structure Cache.Store.Atomic (s : Cache.Store σ) (v : Cache.View σ) : Prop where
  occurs_write : ∀ {e key bytes}, v.occurs e → v.occurs (s.write e key bytes).2
  entry_write : ∀ {e key bytes}, v.occurs e → (s.write e key bytes).1 = .ok () →
    ∀ other, v.entry (s.write e key bytes).2 other =
      if other = key then some (bytes, v.now e) else v.entry e other
  entry_of_error : ∀ {e key bytes error}, v.occurs e → (s.write e key bytes).1 = .error error →
    ∀ other, v.entry (s.write e key bytes).2 other = v.entry e other

/-- A write changes no entry but that of its key, whether it succeeds or not. -/
theorem Cache.Store.Atomic.entry_of_ne {s : Cache.Store σ} {v : Cache.View σ} (hs : s.Atomic v)
    {e : σ} (he : v.occurs e) {key other : Cache.Key} (hne : other ≠ key) (bytes : Bytes) :
    v.entry (s.write e key bytes).2 other = v.entry e other := by
  cases hw : (s.write e key bytes).1 with
  | ok _ => rw [hs.entry_write he hw, if_neg hne]
  | error error => exact hs.entry_of_error he hw other

namespace Repository

variable {r : Repository σ} {q : Query α} {v : Cache.View σ} {env env' : σ}
  {calls calls' : List Call} {result : Except Panic (Outcome α)}

namespace RemoteCourse

variable (h : r.RemoteCourse q env calls (result, env', calls'))
include h

theorem calls_eq :
    calls' = calls ∨ ∃ call, r.call? q = some call ∧ calls' = calls ++ [call] := by
  cases h with
  | idle => exact Or.inl rfl
  | reused => exact Or.inl rfl
  | answered hc => exact Or.inr ⟨_, hc, rfl⟩
  | kept hc => exact Or.inr ⟨_, hc, rfl⟩

variable (hs : r.store.Atomic v) (he : v.occurs env)
include hs he

/-- Entries of other keys are out of reach. -/
theorem entry_of_ne {key : Cache.Key} (hne : key ≠ r.key q) :
    v.entry env' key = v.entry env key := by
  cases h with
  | kept => exact hs.entry_of_ne he hne _
  | _ => rfl

/-- Where the lookup has no value, its entry is left as it was, too. Content is written before the
outcome is known, but then it is the write that failed. -/
theorem entry_of_unresolved (hu : ∀ value, result ≠ .ok (.resolved value)) (key : Cache.Key) :
    v.entry env' key = v.entry env key := by
  cases h with
  | @kept _ bytes value _ _ _ _ =>
    cases hw : (r.store.write env (r.key q) bytes).1 with
    | ok _ => exact absurd (congrArg Except.ok (keptOutcome_of_write hw value)) (hu value)
    | error error => exact hs.entry_of_error he hw key
  | _ => rfl

/-- What is recorded is what the site has just returned, and it is the value of the lookup. -/
theorem recorded {key : Cache.Key} (hchanged : v.entry env' key ≠ v.entry env key) :
    key = r.key q ∧ ∃ bytes value, r.siteContent env q = .ok (.ok (some bytes)) ∧
      r.readBack q bytes = .ok value ∧ result = .ok (.resolved value) ∧
      v.entry env' key = some (bytes, v.now env) := by
  have hkey : key = r.key q := by
    by_contra hne
    exact hchanged (h.entry_of_ne hs he hne)
  subst hkey
  cases h with
  | @kept _ bytes value _ _ hb hv =>
    cases hw : (r.store.write env (r.key q) bytes).1 with
    | error error => exact absurd (hs.entry_of_error he hw _) hchanged
    | ok _ =>
      have hvalue := keptOutcome_of_write hw value
      have hentry := hs.entry_write he hw (r.key q)
      rw [if_pos rfl] at hentry
      exact ⟨rfl, bytes, value, hb, hv, congrArg Except.ok hvalue, hentry⟩
  | _ => exact absurd rfl hchanged

end RemoteCourse

/-- What a lookup may do to the cache and to the site, in a world in which the entries are those of
a map with write times. -/
structure Effects (r : Repository σ) (v : Cache.View σ) (q : Query α) (w : World σ) : Prop where
  /-- The local half only looks. -/
  locally : ∃ o, r.localHalf.answer q w = .ok o w
  /-- So does the half that takes the place of the remote one. -/
  offline : ∃ o, r.member.offline.remoteHalf.answer q w = .ok o w
  /-- A lookup that is missing, fails, is left open or panics leaves every entry as it was. -/
  unresolved : ∀ {result w'}, (r.remoteHalf.answer q).finish w = (result, w') →
    (∀ value, result ≠ .ok (.resolved value)) → ∀ key, v.entry w'.env key = v.entry w.env key
  /-- A lookup with a value leaves every entry but its own as it was, and calls at most once. -/
  resolved : ∀ {value w'}, r.remoteHalf.answer q w = .ok (.resolved value) w' →
    (∀ key, key ≠ r.key q → v.entry w'.env key = v.entry w.env key) ∧
      (w'.calls = w.calls ∨ ∃ call, r.call? q = some call ∧ w'.calls = w.calls ++ [call])
  /-- An entry that changes holds from now on what the site returned, which can be read and is the
  value of the lookup. -/
  recorded : ∀ {result w' key}, (r.remoteHalf.answer q).finish w = (result, w') →
    v.entry w'.env key ≠ v.entry w.env key →
      key = r.key q ∧ ∃ bytes value, r.siteContent w.env q = .ok (.ok (some bytes)) ∧
        r.readBack q bytes = .ok value ∧ result = .ok (.resolved value) ∧
        v.entry w'.env key = some (bytes, v.now w.env)

/-- A failure leaves the cache as it was, and a value changes its own entry only, whatever the
repository, its cache and its site are. -/
theorem effects (r : Repository σ) {v : Cache.View σ} (hs : r.store.Atomic v) (q : Query α)
    {w : World σ} (hw : v.occurs w.env) : r.Effects v q w := by
  have hcourse : ∀ {result w'}, (r.remoteHalf.answer q).finish w = (result, w') →
      r.RemoteCourse q w.env w.calls (result, w'.env, w'.calls) := by
    intro result w' hended
    have h := r.remoteHalf_course q w
    rwa [Action.seen_eq_finish, hended] at h
  refine ⟨⟨_, r.localHalf_answer q w⟩, ⟨_, offlineHalf_answer q w⟩, ?_, ?_, ?_⟩
  · intro result w' hended hu
    exact (hcourse hended).entry_of_unresolved hs hw hu
  · intro value w' hresolved
    have hended : (r.remoteHalf.answer q).finish w = (.ok (.resolved value), w') := by
      rw [Action.finish, hresolved]
    exact ⟨fun _ hne => (hcourse hended).entry_of_ne hs hw hne, (hcourse hended).calls_eq⟩
  · intro result w' key hended hchanged
    exact (hcourse hended).recorded hs hw hchanged

end Repository

/-! ## A full disk -/

namespace Environment

/-- A write to the memory of an environment that is made to fail changes nothing. -/
theorem memoryStore_atomic : memoryStore.Atomic anyView where
  occurs_write _ := trivial
  entry_write {e key bytes} _ h other := by
    cases hfault : e.memory.fault? .write key with
    | some text =>
      simp [memoryStore, Cache.Store.within, Cache.Memory.store, memoryLens, hfault] at h
    | none =>
      change ((memoryStore.write e key bytes).2.memory.entries.lookup other).map _ = _
      rw [memory_of_write hfault, Cache.Memory.lookup_insert]
      by_cases hother : other = key
      · rw [if_pos hother, if_pos hother]
        rfl
      · rw [if_neg hother, if_neg hother]
        rfl
  entry_of_error {e key bytes error} _ h other := by
    cases hfault : e.memory.fault? .write key with
    | some text => simp [memoryStore, Cache.Store.within, Cache.Memory.store, memoryLens, hfault]
    | none =>
      simp [memoryStore, Cache.Store.within, Cache.Memory.store, memoryLens, hfault] at h

/-- A world in which a record is cached, the disk is full, and the site has an artifact. -/
def fullWorld : World Environment where
  env :=
    { memory :=
        { entries := [(repositoryA.key sourcesQuery, ⟨[1], 0⟩)], now := 1000,
          faults := [((.write, none), "no space left")] }
      sites := [{ resources := [("g/m/1/m-1.jar", [1, 2, 3])] }] }

/-- How a download ends in that world. -/
def fullEnded : Except Panic (Outcome Located) × World Environment :=
  (repositoryA.remoteHalf.answer (.artifact sampleArtifact)).finish fullWorld

theorem fullEnded_result : fullEnded.1 = .ok (.failed
    (.cache sampleArtifact.display "a" (.io (.other "no space left")))) := by
  cbv

theorem fullEnded_calls : fullEnded.2.calls = [⟨.fetch, "a", "g/m/1/m-1.jar"⟩] := by
  cbv

/-- An artifact that cannot be kept is downloaded in vain, and the cache stays as it was, with the
record that is in it. -/
theorem full_disk_unchanged :
    fullEnded.2.calls = [⟨.fetch, "a", "g/m/1/m-1.jar"⟩] ∧
      anyView.entry fullWorld.env (repositoryA.key sourcesQuery) = some ([1], 0) ∧
      ∀ key, anyView.entry fullEnded.2.env key = anyView.entry fullWorld.env key := by
  have heffects := repositoryA.effects memoryStore_atomic (.artifact sampleArtifact)
    (w := fullWorld) trivial
  have hended : (repositoryA.remoteHalf.answer (.artifact sampleArtifact)).finish fullWorld =
    (fullEnded.1, fullEnded.2) := rfl
  refine ⟨fullEnded_calls, ?_, heffects.unresolved hended ?_⟩
  · simp [anyView, view, Cache.Memory.view, fullWorld]
  · intro value hresolved
    rw [fullEnded_result] at hresolved
    cases hresolved

end Environment
end ArtifactResolver
