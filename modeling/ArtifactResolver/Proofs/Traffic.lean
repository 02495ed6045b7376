import Mathlib.Logic.Function.Basic
import Mathlib.Logic.Relation
import ArtifactResolver.Proofs.Accesses
import ArtifactResolver.Proofs.Effects

/-!
# Lookups that are under way together

Any number of lookups are under way at the same time, and make their accesses in any order. Only
those of the remote halves that have one key exclude each other, as each of them makes its accesses
with the lock. Here is what a single one of them does to what they share, and what can become of it
while the others go on as they please.
-/

namespace ArtifactResolver

open Function

variable {σ : Type}

/-- Whatever is read of the store is what is in it, writes are all or nothing, and the clock does
not go back. Writes may fail. -/
structure Cache.Store.Steady (s : Cache.Store σ) (v : Cache.View σ) : Prop extends s.Atomic v where
  read_eq : ∀ {e}, v.occurs e → ∀ key, s.read e key = .ok ((v.entry e key).map (·.1))
  age_eq : ∀ {e}, v.occurs e → ∀ key,
    s.age e key = .ok ((v.entry e key).map fun found => ⟨v.now e - found.2⟩)
  now_le : ∀ {e}, v.occurs e → ∀ key bytes, v.now e ≤ v.now (s.write e key bytes).2

theorem Cache.Store.Shows.steady {σ : Type} {s : Cache.Store σ} {v : Cache.View σ} (hs : s.Shows v)
    (hnow : ∀ e key bytes, v.now e ≤ v.now (s.write e key bytes).2) : s.Steady v where
  occurs_write he := hs.occurs_write he _ _
  entry_write he _ := hs.entry_write he _ _
  entry_of_error he herror := by cases (hs.write_eq he _ _).symm.trans herror
  read_eq := hs.read_eq
  age_eq := hs.age_eq
  now_le _ := hnow _

/-- An entry that is trusted was trusted when it was younger. -/
theorem Trust.isFresh_of_le {trust : Trust} {age age' : Duration} (h : age.millis ≤ age'.millis)
    (hf : trust.isFresh age' = true) : trust.isFresh age = true := by
  cases trust with
  | always => rfl
  | within window =>
    simp only [isFresh, decide_eq_true_eq] at hf ⊢
    omega

/-! ## Lookups under way -/

/-- An attempt to write an entry: what was to be written, when, and whether that succeeded. -/
structure Attempt where
  bytes : Bytes
  time : Nat
  success : Bool

/-- How far a lookup has come. -/
inductive Progress (α : Type) where
  /-- It waits for the lock. -/
  | waiting
  /-- It makes its accesses; these are the ones that are left. -/
  | running (rest : Pending α)
  /-- It has ended. -/
  | ended (result : Except Panic (Outcome α))

/-- A lookup by the local or the remote half of a repository, with the calls and the writes that it
has made so far. -/
structure Flight (σ : Type) where
  {α : Type}
  repository : Repository σ
  query : Query α
  remote : Bool
  progress : Progress α
  calls : List Call
  writes : List Attempt

namespace Flight

def key (l : Flight σ) : Cache.Key := l.repository.key l.query

/-- How long the entry of the lookup is trusted. -/
def trust (l : Flight σ) : Trust := l.repository.rules.trust l.query.kind

/-- The lookup makes its accesses with the lock of its key. -/
def Locks : Flight σ → Prop
  | ⟨_, _, true, .running _, _, _⟩ => True
  | _ => False

theorem Locks.exists_running {l : Flight σ} (h : l.Locks) :
    ∃ (α : Type) (r : Repository σ) (q : Query α) (rest : Pending α) (calls : List Call)
      (writes : List Attempt), l = ⟨r, q, true, .running rest, calls, writes⟩ := by
  obtain ⟨r, q, remote, progress, calls, writes⟩ := l
  cases remote with
  | false => cases h
  | true =>
    cases progress with
    | running rest => exact ⟨_, r, q, rest, calls, writes, rfl⟩
    | waiting => cases h
    | ended result => cases h

theorem not_locks_of_ended {l : Flight σ} {result : Except Panic (Outcome l.α)}
    (h : l.progress = .ended result) : ¬ l.Locks := by
  intro hlocks
  obtain ⟨_, _, _, _, _, _, rfl⟩ := hlocks.exists_running
  cases h

theorem not_locks_of_waiting {l : Flight σ} (h : l.progress = .waiting) : ¬ l.Locks := by
  intro hlocks
  obtain ⟨_, _, _, _, _, _, rfl⟩ := hlocks.exists_running
  cases h

end Flight

/-- A world with the lookups that are under way in it, or have been, by their numbers. -/
structure Traffic (σ : Type) where
  world : World σ
  flight : Nat → Option (Flight σ)

/-- The attempt that an access makes, if it is a write. -/
def Pending.attempts {α : Type} (rest : Pending α) (v : Cache.View σ) (r : Repository σ)
    (key : Cache.Key) (e : σ) : List Attempt :=
  rest.content?.toList.map fun bytes =>
    ⟨bytes, v.now e, (r.store.write e key bytes).1.isOk⟩

theorem Pending.attempts_of_none {α : Type} {rest : Pending α} (h : rest.content? = none)
    (v : Cache.View σ) (r : Repository σ) (key : Cache.Key) (e : σ) :
    rest.attempts v r key e = [] := by
  rw [attempts, h]
  rfl

/-- What one lookup does next. It need not be there yet. -/
inductive Flight.Move (repositories : List (Repository σ)) (v : Cache.View σ) (w : World σ) :
    Option (Flight σ) → Flight σ → World σ → Prop where
  /-- A lookup by a local half comes. It needs no lock. -/
  | look {α : Type} {r : Repository σ} {q : Query α} (hr : r ∈ repositories) :
      Move repositories v w none ⟨r, q, false, .running (r.pendingLocal q), [], []⟩ w
  /-- A lookup by a remote half comes. -/
  | come {α : Type} {r : Repository σ} {q : Query α} (hr : r ∈ repositories) :
      Move repositories v w none ⟨r, q, true, .waiting, [], []⟩ w
  /-- There is nothing to ask the site for, so the lookup ends without the lock. -/
  | pass {α : Type} {r : Repository σ} {q : Query α} {calls : List Call} {writes : List Attempt}
      (hc : r.call? q = none) :
      Move repositories v w (some ⟨r, q, true, .waiting, calls, writes⟩)
        ⟨r, q, true, .ended (.ok .unset), calls, writes⟩ w
  /-- The lookup makes an access. -/
  | access {α : Type} {r : Repository σ} {q : Query α} {remote : Bool} {rest rest' : Pending α}
      {calls : List Call} {writes : List Attempt} {w' : World σ}
      (hs : rest.step r (r.key q) w = .ok rest' w') :
      Move repositories v w (some ⟨r, q, remote, .running rest, calls, writes⟩)
        ⟨r, q, remote, .running rest', calls ++ w'.calls.drop w.calls.length,
          writes ++ rest.attempts v r (r.key q) w.env⟩ w'
  /-- The lookup panics with an access, which gives the lock back. -/
  | panic {α : Type} {r : Repository σ} {q : Query α} {remote : Bool} {rest : Pending α}
      {calls : List Call} {writes : List Attempt} {w' : World σ} {panic : Panic}
      (hs : rest.step r (r.key q) w = .error panic w') :
      Move repositories v w (some ⟨r, q, remote, .running rest, calls, writes⟩)
        ⟨r, q, remote, .ended (.error panic), calls ++ w'.calls.drop w.calls.length, writes⟩ w'
  /-- The lookup ends, and gives the lock back. -/
  | finish {α : Type} {r : Repository σ} {q : Query α} {remote : Bool} {o : Outcome α}
      {calls : List Call} {writes : List Attempt} :
      Move repositories v w (some ⟨r, q, remote, .running (.done o), calls, writes⟩)
        ⟨r, q, remote, .ended (.ok o), calls, writes⟩ w

namespace Traffic

/-- What may happen next. -/
inductive Step (repositories : List (Repository σ)) (v : Cache.View σ) (s : Traffic σ) :
    Traffic σ → Prop where
  /-- One of the lookups goes on. -/
  | move {i : Nat} {l : Flight σ} {w' : World σ}
      (hm : Flight.Move repositories v s.world (s.flight i) l w') :
      Step repositories v s ⟨w', update s.flight i (some l)⟩
  /-- A lookup that waits gets the lock, which no other lookup with its key has. -/
  | lock {i : Nat} {α : Type} {r : Repository σ} {q : Query α} {calls : List Call}
      {writes : List Attempt} (hi : s.flight i = some ⟨r, q, true, .waiting, calls, writes⟩)
      (hc : r.call? q ≠ none)
      (hfree : ∀ j l, s.flight j = some l → l.Locks → l.key ≠ r.key q) :
      Step repositories v s ⟨s.world,
        update s.flight i (some ⟨r, q, true, .running (r.pendingRemote q), calls, writes⟩)⟩
  /-- Time passes, and the sites change as they please, but nothing happens to the entries. -/
  | outside {e : σ} (hl : v.Later s.world.env e) :
      Step repositories v s ⟨{ s.world with env := e }, s.flight⟩

/-- What can be reached by such steps. -/
def Reach (repositories : List (Repository σ)) (v : Cache.View σ) (s s' : Traffic σ) : Prop :=
  Relation.ReflTransGen (Step repositories v) s s'

end Traffic

/-! ## Lookups of one request -/

section Request

variable {α β : Type} {q : Query α} {q' : Query β} (h : q.request = q'.request)
include h

theorem Query.kind_of_request : q.kind = q'.kind := by
  cases q <;> cases q' <;> first | rfl | cases h

/-- What is asked for says of which type the value is. -/
theorem Query.type_of_request : α = β := by
  cases q <;> cases q' <;> first | rfl | cases h

/-- The content of the entry is read in one way. The metadata of companions counts only for the
module version that it is about. -/
theorem Repository.readBack_of_request (r : Repository σ) : HEq (r.readBack q) (r.readBack q') := by
  cases q with
  | versions s => cases q' <;> first | rfl | cases h
  | metadata c =>
    cases q' with
    | metadata c' =>
      obtain rfl := Cache.Request.descriptor.inj h
      rfl
    | _ => cases h
  | artifacts m category =>
    cases q' with
    | artifacts m' category' =>
      obtain ⟨hm, _⟩ := Cache.Request.artifactSet.inj h
      rw [readBack, readBack, hm]
    | _ => cases h
  | artifact a =>
    cases q' with
    | artifact a' =>
      obtain rfl := Cache.Request.artifact.inj h
      rfl
    | _ => cases h

theorem Repository.reads_of_request (r : Repository σ) {bytes : Bytes} {value : α}
    (hread : r.readBack q bytes = .ok value) : ∃ value', r.readBack q' bytes = .ok value' := by
  obtain rfl := Query.type_of_request h
  rw [eq_of_heq (r.readBack_of_request h)] at hread
  exact ⟨value, hread⟩

theorem Repository.call_of_request (r : Repository σ) (hc : r.call? q ≠ none) :
    r.call? q' ≠ none := by
  cases q' with
  | artifacts m' category' =>
    cases q with
    | artifacts m category =>
      obtain ⟨_, rfl⟩ := Cache.Request.artifactSet.inj h
      simpa [call?, Category.candidate?] using hc
    | _ => cases h
  | _ => exact Option.some_ne_none _

end Request

/-! ## What one lookup does -/

/-- An outcome that goes with an attempt: if that succeeded, it is the value that was written. -/
def Attempt.Explains {α : Type} (x : Attempt) (r : Repository σ) (q : Query α) (o : Outcome α) :
    Prop :=
  x.success = true → ∃ value, r.readBack q x.bytes = .ok value ∧ o = .resolved value

/-- An access of a lookup that saves is no write, or it is its only one, and explains what the
lookup comes to. -/
theorem Pending.Saves.step {α : Type} {r : Repository σ} {q : Query α} {w w' : World σ}
    {rest rest' : Pending α} (h : rest.Saves r q) (v : Cache.View σ)
    (hs : rest.step r (r.key q) w = .ok rest' w') :
    rest.attempts v r (r.key q) w.env = [] ∧ rest'.Saves r q ∨
      ∃ x, rest.attempts v r (r.key q) w.env = [x] ∧ rest'.Closing (x.Explains r q) := by
  cases hcontent : rest.content? with
  | none =>
    obtain ⟨w'', _, ⟨panic, herror⟩ | ⟨rest'', hok, hnext⟩⟩ :=
      Pending.step_cases r (r.key q) w hcontent
    · cases hs.symm.trans herror
    · obtain ⟨rfl, rfl⟩ := EStateM.Result.ok.inj (hs.symm.trans hok)
      exact Or.inl ⟨Pending.attempts_of_none hcontent v r _ _, hnext h⟩
  | some bytes =>
    obtain ⟨next, rfl⟩ := Pending.eq_write_of_content hcontent
    obtain ⟨value, hread, hdone, hfailed⟩ := h
    rw [Pending.step_write] at hs
    obtain ⟨rfl, rfl⟩ := EStateM.Result.ok.inj hs
    refine Or.inr ⟨⟨bytes, v.now w.env, (r.store.write w.env (r.key q) bytes).1.isOk⟩, rfl, ?_⟩
    generalize (r.store.write w.env (r.key q) bytes).1 = result
    cases result with
    | ok _ => exact hdone.mono fun o ho _ => ⟨value, hread, ho⟩
    | error e =>
      refine (hfailed e).mono fun o _ hsuccess => ?_
      cases hsuccess

namespace Flight

/-- The lookup writes at most once, and with the lock, and has not done so before it has it. -/
def Sound : Flight σ → Prop
  | ⟨_, _, remote, .waiting, calls, writes⟩ => remote = true ∧ calls = [] ∧ writes = []
  | ⟨_, _, false, .running rest, _, writes⟩ => writes = [] ∧ rest.Quiet
  | ⟨r, q, true, .running rest, _, writes⟩ => r.call? q ≠ none ∧
      (writes = [] ∧ rest.Saves r q ∨ ∃ x, writes = [x] ∧ rest.Closing (x.Explains r q))
  | ⟨r, q, _, .ended result, _, writes⟩ => writes = [] ∨ r.call? q ≠ none ∧
      ∃ x o, writes = [x] ∧ result = .ok o ∧ x.Explains r q o

/-- The outcome of a lookup when the content of the entry reads as a value. -/
def outcome {α : Type} (q : Query α) (remote : Bool) (value : α) : Outcome α :=
  if remote then .resolved value else Repository.localOutcome q value

/-- The lookup has called no site and written nothing, and with an entry of this content that is
trusted it does not come to that. -/
def Served (bytes : Bytes) : Flight σ → Prop
  | ⟨r, q, remote, progress, calls, writes⟩ => calls = [] ∧ writes = [] ∧ r.call? q ≠ none ∧
      ∃ value, r.readBack q bytes = .ok value ∧
        match progress with
        | .waiting => True
        | .running rest => rest.Reuses (r.rules.trust q.kind) bytes (outcome q remote value)
        | .ended result => result = .ok (outcome q remote value)

namespace Move

variable {repositories : List (Repository σ)} {v : Cache.View σ} {w w' : World σ}
  {before : Option (Flight σ)} {l l' : Flight σ} {bytes : Bytes}

theorem same (hm : Move repositories v w (some l) l' w') :
    l.repository = l'.repository ∧ l.key = l'.key ∧ l.trust = l'.trust := by
  cases hm <;> exact ⟨rfl, rfl, rfl⟩

theorem mem (hm : Move repositories v w before l' w')
    (hb : ∀ l, before = some l → l.repository ∈ repositories) : l'.repository ∈ repositories := by
  cases hm with
  | look hr => exact hr
  | come hr => exact hr
  | _ =>
    have hr := hb _ rfl
    exact hr

/-- Nobody comes to a lock in this way. -/
theorem locks (hm : Move repositories v w before l' w') (hl : l'.Locks) :
    ∃ l, before = some l ∧ l.Locks := by
  cases hm with
  | @access _ _ _ remote =>
    cases remote with
    | true => exact ⟨_, rfl, trivial⟩
    | false => cases hl
  | look => cases hl
  | come => cases hl
  | pass => cases hl
  | @panic _ _ _ remote => cases remote <;> cases hl
  | @finish _ _ _ remote => cases remote <;> cases hl

/-- Who has ended does nothing any more. -/
theorem not_ended (hm : Move repositories v w (some l) l' w')
    (result : Except Panic (Outcome l.α)) : l.progress ≠ .ended result := by
  intro hended
  cases hm <;> cases hended

/-- What a lookup does keeps it sound. -/
theorem sound (hm : Move repositories v w before l' w')
    (hb : ∀ l, before = some l → l.Sound) : l'.Sound := by
  cases hm with
  | @look _ r q _ => exact ⟨rfl, r.pendingLocal_quiet q⟩
  | come => exact ⟨rfl, rfl, rfl⟩
  | pass => exact Or.inl (hb _ rfl).2.2
  | @access _ r q remote rest rest' calls writes _ hs =>
    have hsound := hb _ rfl
    cases remote with
    | false =>
      obtain ⟨rfl, hquiet⟩ := hsound
      obtain ⟨rest'', w'', hs', hquiet', _⟩ := hquiet.step r (r.key q) w
      obtain ⟨rfl, rfl⟩ := EStateM.Result.ok.inj (hs.symm.trans hs')
      exact ⟨Pending.attempts_of_none hquiet.content_eq v r _ _, hquiet'⟩
    | true =>
      obtain ⟨hc, ⟨rfl, hsaves⟩ | ⟨x, rfl, hclosing⟩⟩ := hsound
      · rcases hsaves.step v hs with ⟨ha, hsaves'⟩ | ⟨x, ha, hclosing⟩
        · exact ⟨hc, Or.inl ⟨ha, hsaves'⟩⟩
        · exact ⟨hc, Or.inr ⟨x, ha, hclosing⟩⟩
      · obtain ⟨rest'', w'', hs', hclosing', _⟩ := hclosing.step r (r.key q) w
        obtain ⟨rfl, rfl⟩ := EStateM.Result.ok.inj (hs.symm.trans hs')
        refine ⟨hc, Or.inr ⟨x, ?_, hclosing'⟩⟩
        rw [Pending.attempts_of_none hclosing.content_eq]
        rfl
  | @panic _ r q remote rest _ _ _ _ hs =>
    have hsound := hb _ rfl
    cases remote with
    | false => exact Or.inl hsound.1
    | true =>
      obtain ⟨hc, ⟨hw, _⟩ | ⟨x, _, hclosing⟩⟩ := hsound
      · exact Or.inl hw
      · obtain ⟨_, _, hs', _⟩ := hclosing.step r (r.key q) w
        cases hs.symm.trans hs'
  | @finish _ _ _ remote o =>
    have hsound := hb _ rfl
    cases remote with
    | false => exact Or.inl hsound.1
    | true =>
      obtain ⟨hc, ⟨hw, _⟩ | ⟨x, hw, hclosing⟩⟩ := hsound
      · exact Or.inl hw
      · exact Or.inr ⟨hc, x, o, hw, rfl, hclosing⟩

/-- A lookup leaves the environment and its attempts as they are, or it has the lock and writes its
entry for the first time. -/
theorem env (hm : Move repositories v w before l' w') (hb : ∀ l, before = some l → l.Sound) :
    (w'.env = w.env ∧ (l'.writes = [] ∨ ∃ l, before = some l ∧ l.writes = l'.writes)) ∨
      ∃ l bytes, before = some l ∧ l.Locks ∧ l.writes = [] ∧ (∀ bytes', ¬ l.Served bytes') ∧
        w'.env = (l.repository.store.write w.env l.key bytes).2 ∧
        l'.writes =
          [⟨bytes, v.now w.env, (l.repository.store.write w.env l.key bytes).1.isOk⟩] := by
  cases hm with
  | look => exact Or.inl ⟨rfl, Or.inl rfl⟩
  | come => exact Or.inl ⟨rfl, Or.inl rfl⟩
  | pass => exact Or.inl ⟨rfl, Or.inr ⟨_, rfl, rfl⟩⟩
  | finish => exact Or.inl ⟨rfl, Or.inr ⟨_, rfl, rfl⟩⟩
  | @panic _ r q remote rest _ _ _ _ hs =>
    cases hcontent : rest.content? with
    | some bytes =>
      obtain ⟨next, rfl⟩ := Pending.eq_write_of_content hcontent
      cases hs.symm.trans (Pending.step_write r (r.key q) bytes next w)
    | none =>
      obtain ⟨w'', he, ⟨panic, herror⟩ | ⟨rest'', hok, _⟩⟩ :=
        Pending.step_cases r (r.key q) w hcontent
      · obtain ⟨_, rfl⟩ := EStateM.Result.error.inj (hs.symm.trans herror)
        exact Or.inl ⟨he, Or.inr ⟨_, rfl, rfl⟩⟩
      · cases hs.symm.trans hok
  | @access _ r q remote rest rest' calls writes _ hs =>
    cases hcontent : rest.content? with
    | none =>
      obtain ⟨w'', he, ⟨panic, herror⟩ | ⟨rest'', hok, _⟩⟩ :=
        Pending.step_cases r (r.key q) w hcontent
      · cases hs.symm.trans herror
      · obtain ⟨_, rfl⟩ := EStateM.Result.ok.inj (hs.symm.trans hok)
        refine Or.inl ⟨he, Or.inr ⟨_, rfl, ?_⟩⟩
        dsimp only
        rw [Pending.attempts_of_none hcontent, List.append_nil]
    | some bytes =>
      obtain ⟨next, rfl⟩ := Pending.eq_write_of_content hcontent
      rw [Pending.step_write] at hs
      obtain ⟨rfl, rfl⟩ := EStateM.Result.ok.inj hs
      have hsound := hb _ rfl
      cases remote with
      | false => exact hsound.2.elim
      | true =>
        obtain ⟨_, ⟨rfl, _⟩ | ⟨_, _, hclosing⟩⟩ := hsound
        · refine Or.inr ⟨_, bytes, rfl, trivial, rfl, ?_, rfl, rfl⟩
          rintro bytes' ⟨_, _, _, value, _, hreuses⟩
          exact hreuses
        · exact hclosing.elim

/-- A lookup that is served goes on to be served by an entry that is trusted. -/
theorem served (hm : Move repositories v w (some l) l' w') (h : l.Served bytes) {age : Duration}
    (hage : l.repository.store.age w.env l.key = .ok (some age)) (hf : l.trust.isFresh age = true)
    (hread : l.repository.store.read w.env l.key = .ok (some bytes)) : l'.Served bytes := by
  cases hm with
  | pass hc =>
    obtain ⟨_, _, hcall, _⟩ := h
    exact absurd hc hcall
  | @access _ r q remote rest rest' calls writes _ hs =>
    obtain ⟨rfl, rfl, hcall, value, hvalue, hreuses⟩ := h
    obtain ⟨rest'', w'', hs', hreuses', _, hcalls⟩ := hreuses.step hage hf hread
    obtain ⟨rfl, rfl⟩ := EStateM.Result.ok.inj (hs.symm.trans hs')
    refine ⟨?_, ?_, hcall, value, hvalue, hreuses'⟩
    · rw [hcalls, List.drop_length]
      rfl
    · exact Pending.attempts_of_none hreuses.content_eq v r _ _
  | panic hs =>
    obtain ⟨_, _, _, value, _, hreuses⟩ := h
    obtain ⟨_, _, hs', _⟩ := hreuses.step hage hf hread
    cases hs.symm.trans hs'
  | finish =>
    obtain ⟨hcalls, hwrites, hcall, value, hvalue, hreuses⟩ := h
    exact ⟨hcalls, hwrites, hcall, value, hvalue, congrArg Except.ok hreuses⟩

end Move

/-- There is something to ask the site for, and this content can be read. -/
def Readable (l : Flight σ) (bytes : Bytes) : Prop :=
  l.repository.call? l.query ≠ none ∧ ∃ value, l.repository.readBack l.query bytes = .ok value

/-- A lookup that comes when there is an entry is served by it. -/
theorem Move.served_of_new {repositories : List (Repository σ)} {v : Cache.View σ} {w w' : World σ}
    {l : Flight σ} {bytes : Bytes} (hm : Move repositories v w none l w') (h : l.Readable bytes) :
    l.Served bytes := by
  obtain ⟨hcall, value, hread⟩ := h
  cases hm with
  | look => exact ⟨rfl, rfl, hcall, value, hread, Repository.pendingLocal_reuses hread⟩
  | come => exact ⟨rfl, rfl, hcall, value, hread, trivial⟩

theorem served_of_lock {α : Type} {r : Repository σ} {q : Query α} {bytes : Bytes}
    (h : Readable ⟨r, q, true, .waiting, [], []⟩ bytes) :
    Served bytes ⟨r, q, true, .running (r.pendingRemote q), [], []⟩ := by
  obtain ⟨hcall, value, hread⟩ := h
  exact ⟨rfl, rfl, hcall, value, hread, Repository.pendingRemote_reuses hread⟩

theorem served_of_waiting {l : Flight σ} {bytes : Bytes} (hs : l.Sound)
    (hl : l.progress = .waiting) (h : l.Readable bytes) : l.Served bytes := by
  obtain ⟨r, q, remote, progress, calls, writes⟩ := l
  obtain rfl : progress = .waiting := hl
  obtain ⟨_, hcalls, hwrites⟩ := hs
  obtain ⟨hcall, value, hread⟩ := h
  exact ⟨hcalls, hwrites, hcall, value, hread, trivial⟩

/-- What a sound lookup has written can be read. -/
theorem Sound.readable {l : Flight σ} (h : l.Sound) {x : Attempt} (hx : x ∈ l.writes)
    (hok : x.success = true) : l.Readable x.bytes := by
  obtain ⟨r, q, remote, progress, calls, writes⟩ := l
  have hexplained : ∀ {o}, r.call? q ≠ none → x.Explains r q o →
      Readable ⟨r, q, remote, progress, calls, writes⟩ x.bytes := by
    intro o hcall hexplains
    obtain ⟨value, hvalue, _⟩ := hexplains hok
    exact ⟨hcall, value, hvalue⟩
  cases progress with
  | waiting =>
    obtain ⟨_, _, rfl⟩ := h
    cases hx
  | running rest =>
    cases remote with
    | false =>
      obtain ⟨rfl, _⟩ := h
      cases hx
    | true =>
      obtain ⟨hcall, ⟨rfl, _⟩ | ⟨x', rfl, hclosing⟩⟩ := h
      · cases hx
      · obtain rfl := List.mem_singleton.1 hx
        obtain ⟨o, ho⟩ := hclosing.exists
        exact hexplained hcall ho
  | ended result =>
    obtain rfl | ⟨hcall, x', o, rfl, _, ho⟩ := h
    · cases hx
    · obtain rfl := List.mem_singleton.1 hx
      exact hexplained hcall ho

section Key

variable {repositories : List (Repository σ)} (hnames : (repositories.map (·.name)).Nodup)
  {l l' : Flight σ} (hl : l.repository ∈ repositories) (hl' : l'.repository ∈ repositories)
  (hkey : l.key = l'.key)
include hnames hl hl' hkey

/-- Of repositories with names of their own, lookups with one key are for the same. -/
theorem of_key : l.repository = l'.repository ∧ l.query.request = l'.query.request := by
  rw [key, key, Repository.key_eq, Repository.key_eq] at hkey
  obtain ⟨hname, hrequest⟩ := Cache.Key.ofRequest_injective hkey
  exact ⟨List.inj_on_of_nodup_map hnames hl hl' hname, hrequest⟩

theorem trust_of_key : l.trust = l'.trust := by
  obtain ⟨hr, hrequest⟩ := of_key hnames hl hl' hkey
  rw [trust, trust, hr, Query.kind_of_request hrequest]

theorem Readable.of_key {bytes : Bytes} (h : l.Readable bytes) : l'.Readable bytes := by
  obtain ⟨hr, hrequest⟩ := Flight.of_key hnames hl hl' hkey
  obtain ⟨hcall, value, hread⟩ := h
  rw [hr] at hcall hread
  exact ⟨Repository.call_of_request hrequest _ hcall,
    Repository.reads_of_request hrequest _ hread⟩

end Key

end Flight

/-! ## Lookups that go on alone -/

namespace Traffic

variable {repositories : List (Repository σ)} {v : Cache.View σ} {s : Traffic σ} {i : Nat}
  {α : Type} {r : Repository σ} {q : Query α} {remote : Bool} {rest : Pending α}
  {calls : List Call} {writes : List Attempt}

/-- While all others pause, a lookup can come to this end. -/
def CanEnd (repositories : List (Repository σ)) (v : Cache.View σ) (s : Traffic σ) (i : Nat)
    (r : Repository σ) (q : Query α) (remote : Bool)
    (ended : Except Panic (Outcome α) × World σ) : Prop :=
  ∃ calls writes, Reach repositories v s
    ⟨ended.2, update s.flight i (some ⟨r, q, remote, .ended ended.1, calls, writes⟩)⟩

theorem flight_of_update {f : Nat → Option (Flight σ)} {j : Nat} {l l₁ : Flight σ}
    (h : update f i (some l) j = some l₁) : j = i ∧ l₁ = l ∨ j ≠ i ∧ f j = some l₁ := by
  by_cases hj : j = i
  · subst hj
    rw [update_self] at h
    exact Or.inl ⟨rfl, (Option.some.inj h).symm⟩
  · rw [update_of_ne hj] at h
    exact Or.inr ⟨hj, h⟩

theorem Step.of_move {before : Option (Flight σ)} {l : Flight σ} {w' : World σ}
    (hi : s.flight i = before) (hm : Flight.Move repositories v s.world before l w') :
    Step repositories v s ⟨w', update s.flight i (some l)⟩ := by
  subst hi
  exact .move hm

theorem CanEnd.after {x : Option (Flight σ)} {w : World σ}
    {ended : Except Panic (Outcome α) × World σ}
    (hs : Step repositories v s ⟨w, update s.flight i x⟩)
    (h : CanEnd repositories v ⟨w, update s.flight i x⟩ i r q remote ended) :
    CanEnd repositories v s i r q remote ended := by
  obtain ⟨calls, writes, hreach⟩ := h
  rw [update_idem] at hreach
  exact ⟨calls, writes, .head hs hreach⟩

theorem canEnd_of_access
    (hi : s.flight i = some ⟨r, q, remote, .running rest, calls, writes⟩)
    (h : ∀ rest' s' calls' writes', rest.step r (r.key q) s.world = .ok rest' s'.world →
      s'.flight i = some ⟨r, q, remote, .running rest', calls', writes'⟩ →
        CanEnd repositories v s' i r q remote ((rest'.run r (r.key q)).finish s'.world)) :
    CanEnd repositories v s i r q remote ((rest.run r (r.key q)).finish s.world) := by
  rw [Action.finish, Pending.run_eq_step, Action.bind_apply]
  cases hs : rest.step r (r.key q) s.world with
  | ok rest' w' =>
    exact .after (.of_move hi (.access hs)) (h rest' ⟨w', _⟩ _ _ hs (update_self ..))
  | error panic w' => exact ⟨_, _, .single (.of_move hi (.panic hs))⟩

/-- By itself, a lookup that is under way makes all its accesses, like the half that is asked. -/
theorem canEnd_of_running (hi : s.flight i = some ⟨r, q, remote, .running rest, calls, writes⟩) :
    CanEnd repositories v s i r q remote ((rest.run r (r.key q)).finish s.world) := by
  induction rest generalizing s calls writes with
  | done o => exact ⟨_, _, .single (.of_move hi .finish)⟩
  | age next ih =>
    refine canEnd_of_access hi fun rest' s' calls' writes' hs hi' => ?_
    obtain ⟨rfl, _⟩ := EStateM.Result.ok.inj hs
    exact ih _ hi'
  | read next ih =>
    refine canEnd_of_access hi fun rest' s' calls' writes' hs hi' => ?_
    obtain ⟨rfl, _⟩ := EStateM.Result.ok.inj hs
    exact ih _ hi'
  | log level text next ih =>
    refine canEnd_of_access hi fun rest' s' calls' writes' hs hi' => ?_
    obtain ⟨rfl, _⟩ := EStateM.Result.ok.inj hs
    exact ih hi'
  | write bytes next ih =>
    refine canEnd_of_access hi fun rest' s' calls' writes' hs hi' => ?_
    rw [Pending.step_write] at hs
    obtain ⟨rfl, _⟩ := EStateM.Result.ok.inj hs
    exact ih _ hi'
  | fetch location next ih =>
    refine canEnd_of_access hi fun rest' s' calls' writes' hs hi' => ?_
    obtain ⟨answer, rfl⟩ := Action.eq_of_bind_return hs
    exact ih _ hi'
  | probe location next ih =>
    refine canEnd_of_access hi fun rest' s' calls' writes' hs hi' => ?_
    obtain ⟨answer, rfl⟩ := Action.eq_of_bind_return hs
    exact ih _ hi'

/-- By itself, a lookup that comes while nobody has its lock does what the half does that is asked:
it ends so, with the same calls, and leaves the same environment. -/
theorem canEnd_as_half (hr : r ∈ repositories) (hi : s.flight i = none)
    (hfree : ∀ j l, s.flight j = some l → l.Locks → l.key ≠ r.key q) (remote : Bool) :
    ∃ ended, CanEnd repositories v s i r q remote ended ∧
      ((if remote then r.remoteHalf else r.localHalf).answer q).seen s.world =
        (ended.1, ended.2.env, ended.2.calls) := by
  cases remote with
  | false =>
    have hlook : Step repositories v s _ := .of_move hi (.look (q := q) hr)
    refine ⟨_, .after hlook (canEnd_of_running (update_self ..)), ?_⟩
    rw [← Action.seen_eq_finish, if_neg Bool.false_ne_true, r.localHalf_eq_run]
  | true =>
    have hcome : Step repositories v s _ := .of_move hi (.come (q := q) hr)
    rw [if_pos rfl, r.remoteHalf_eq_run]
    cases hc : r.call? q with
    | none =>
      have hpass : CanEnd repositories v
          ⟨s.world, update s.flight i (some ⟨r, q, true, .waiting, [], []⟩)⟩ i r q true
            (.ok .unset, s.world) :=
        ⟨_, _, .single (.of_move (update_self ..) (.pass hc))⟩
      exact ⟨_, .after hcome hpass, rfl⟩
    | some call =>
      have hcall : r.call? q ≠ none := hc ▸ Option.some_ne_none call
      have hstill : ∀ j l, update s.flight i (some ⟨r, q, true, .waiting, [], []⟩) j = some l →
          l.Locks → l.key ≠ r.key q := by
        intro j l hj hlocks
        rcases flight_of_update hj with ⟨_, rfl⟩ | ⟨_, hold⟩
        · exact absurd hlocks (Flight.not_locks_of_waiting rfl)
        · exact hfree j l hold hlocks
      have hlock : Step repositories v ⟨s.world, update s.flight i _⟩ _ :=
        .lock (update_self ..) hcall hstill
      refine ⟨_, .after hcome (.after hlock (canEnd_of_running (update_self ..))), ?_⟩
      rw [← Action.seen_eq_finish, Action.withLock_seen]
      exact Pending.unaware_run _ _ _ rfl rfl

end Traffic
end ArtifactResolver
