import ArtifactResolver.Proofs.ProbeRecord
import ArtifactResolver.Proofs.Repository.Local

/-!
# What the remote half answers

Every lookup that the metadata does not answer is, for the remote half, a call to the site that ends
with the content of an entry or without it: the file that was fetched, or the record of the probe.
The half answers from the entry if that became usable in the meantime, and otherwise from what the
site has; and it changes the environment only by keeping the content that it answers with. That is
so whatever the store does.
-/

namespace ArtifactResolver

variable {σ α β : Type}

/-! ## Sites -/

namespace Transport

/-- What a reply of the site is to the caller. -/
def settled (t : Transport σ) (location : String) :
    Reply α → Except Panic (Except TransportError α)
  | .panics text =>
    match t.limit with
    | none => .error ⟨text⟩
    | some _ => .ok (.error (.interrupted location))
  | .answers delay answer =>
    match t.limit with
    | none => .ok answer
    | some limit =>
      if limit.millis ≤ delay.millis then .ok (.error (.timedOut location limit)) else .ok answer

/-- The site always replies in the same way for the same location. -/
structure Static (t : Transport σ) (occurs : σ → Prop) : Prop where
  fetch_eq : ∀ {e e'}, occurs e → occurs e' → t.fetch e = t.fetch e'
  probe_eq : ∀ {e e'}, occurs e → occurs e' → t.probe e = t.probe e'

theorem await_apply (t : Transport σ) (location : String) (reply : Reply α) (w : World σ) :
    ∃ w', w'.env = w.env ∧ w'.calls = w.calls ∧
      t.await location reply w = Action.ofExcept (t.settled location reply) w' := by
  unfold await settled
  cases reply with
  | panics text => cases t.limit <;> exact ⟨w, rfl, rfl, rfl⟩
  | answers delay answer =>
    cases t.limit with
    | none => exact ⟨w, rfl, rfl, rfl⟩
    | some limit =>
      by_cases h : limit.millis ≤ delay.millis
      · simp only [h, if_true, Action.bind_apply, Action.log_apply]
        exact ⟨{ w with log := w.log ++ [⟨.warn, _⟩] }, rfl, rfl, rfl⟩
      · simp only [h, if_false]
        exact ⟨w, rfl, rfl, rfl⟩

theorem fetchFor_apply (t : Transport σ) (repository location : String) (w : World σ) :
    ∃ w', w'.env = w.env ∧ w'.calls = w.calls ++ [⟨.fetch, repository, location⟩] ∧
      t.fetchFor repository location w =
        Action.ofExcept (t.settled location (t.fetch w.env location)) w' := by
  obtain ⟨w', he, hc, h⟩ := t.await_apply location (t.fetch w.env location)
    { w with calls := w.calls ++ [⟨.fetch, repository, location⟩] }
  exact ⟨w', he, hc, h⟩

theorem probeFor_apply (t : Transport σ) (repository location : String) (w : World σ) :
    ∃ w', w'.env = w.env ∧ w'.calls = w.calls ++ [⟨.probe, repository, location⟩] ∧
      t.probeFor repository location w =
        Action.ofExcept (t.settled location (t.probe w.env location)) w' := by
  obtain ⟨w', he, hc, h⟩ := t.await_apply location (t.probe w.env location)
    { w with calls := w.calls ++ [⟨.probe, repository, location⟩] }
  exact ⟨w', he, hc, h⟩

end Transport

/-- Where the metadata does not answer, there is a file to probe for. -/
theorem Query.candidate_of_undeclared {m : Metadata} {category : Category}
    (h : (artifacts m category).declared? = none) :
    ∃ candidate, category.candidate? m.coordinate m.extension = some candidate := by
  cases category with
  | configuration name =>
    simp only [declared?] at h
    split at h <;> cases h
  | documentation => exact ⟨_, rfl⟩
  | sources => exact ⟨_, rfl⟩

namespace Repository

/-! ## What a site has -/

/-- What fetching a file from the site ends with. -/
def fetched (r : Repository σ) (env : σ) (location : String) :
    Except Panic (Except TransportError (Option Bytes)) :=
  r.transport.settled location (r.transport.fetch env location)

/-- What a probe for a file at the site ends with. -/
def probed (r : Repository σ) (env : σ) (location : String) :
    Except Panic (Except TransportError Bool) :=
  r.transport.settled location (r.transport.probe env location)

/-- What the call to the site ends with: the content of the entry of a lookup, or none. That of a
probe is the record of what it found. -/
def siteContent (r : Repository σ) (env : σ) :
    Query α → Except Panic (Except TransportError (Option Bytes))
  | .versions s => r.fetched env (r.format.listingLocation s)
  | .metadata c => r.fetched env (r.format.descriptorLocation c)
  | .artifacts m category =>
    match category.candidate? m.coordinate m.extension with
    | none => .ok (.ok none)
    | some candidate =>
      let location := r.format.artifactLocation candidate
      (r.transport.settled location (r.transport.probe env location)).map fun answer =>
        answer.map fun found => some (ProbeRecord.encode (if found then [candidate] else []))
  | .artifact a => r.fetched env (r.format.artifactLocation a)

/-- The answer that the site has to a lookup. -/
def siteAnswer (r : Repository σ) (env : σ) (q : Query α) : Except Panic (Outcome α) :=
  (r.siteContent env q).map fun
    | .ok (some bytes) => r.answerOf q (.ok (some bytes))
    | .ok none => .missing
    | .error e => .failed (.transport q.operation q.entrySubject r.name e)

theorem siteAnswer_of_content {r : Repository σ} {env : σ} {q : Query α} {bytes : Bytes}
    (h : r.siteContent env q = .ok (.ok (some bytes))) :
    r.siteAnswer env q = .ok (r.answerOf q (.ok (some bytes))) := by
  rw [siteAnswer, h]
  rfl

/-- The site has a value if it has content that can be read. -/
theorem siteAnswer_eq_resolved_iff {r : Repository σ} {env : σ} {q : Query α} {value : α} :
    r.siteAnswer env q = .ok (.resolved value) ↔
      ∃ bytes, r.siteContent env q = .ok (.ok (some bytes)) ∧ r.readBack q bytes = .ok value := by
  rw [siteAnswer]
  rcases r.siteContent env q with p | e | _ | bytes
  · simp [Except.map]
  · simp [Except.map, Outcome.failed, Outcome.resolved]
  · simp [Except.map, Outcome.missing, Outcome.resolved]
  · simp [Except.map, answerOf_eq_resolved_iff]

/-- The call by which the site is asked whether it has an artifact. -/
def probeCall (r : Repository σ) (a : Artifact) : Call :=
  ⟨.probe, r.name, r.format.artifactLocation a⟩

/-- The call that a lookup leads to, none if there is nothing to ask the site for. -/
def call? (r : Repository σ) : Query α → Option Call
  | .versions s => some ⟨.fetch, r.name, r.format.listingLocation s⟩
  | .metadata c => some ⟨.fetch, r.name, r.format.descriptorLocation c⟩
  | .artifacts m category => (category.candidate? m.coordinate m.extension).map r.probeCall
  | .artifact a => some ⟨.fetch, r.name, r.format.artifactLocation a⟩

section Candidate

variable {m : Metadata} {category : Category} {candidate : Artifact}
  (hc : category.candidate? m.coordinate m.extension = some candidate)
include hc

theorem call?_of_candidate (r : Repository σ) :
    r.call? (.artifacts m category) = some (r.probeCall candidate) := by
  rw [call?, hc]
  rfl

theorem siteContent_of_candidate (r : Repository σ) (env : σ) :
    r.siteContent env (.artifacts m category) =
      (r.probed env (r.format.artifactLocation candidate)).map fun answer =>
        answer.map fun found => some (ProbeRecord.encode (if found then [candidate] else [])) := by
  simp only [siteContent, hc, probed]

end Candidate

/-- Where the metadata does not answer, there is something to ask the site for. -/
theorem call?_of_undeclared {q : Query α} (hd : q.declared? = none) (r : Repository σ) :
    ∃ call, r.call? q = some call := by
  cases q with
  | artifacts m category =>
    obtain ⟨candidate, hcandidate⟩ := Query.candidate_of_undeclared hd
    exact ⟨_, r.call?_of_candidate hcandidate⟩
  | _ => exact ⟨_, rfl⟩

/-- The artifacts that a probe has found are read back from its record. -/
theorem decode_encode_candidate {c : Coordinate} {category : Category} {extension : String}
    {candidate : Artifact} (h : category.candidate? c extension = some candidate) (found : Bool) :
    ProbeRecord.decode c (ProbeRecord.encode (if found then [candidate] else [])) =
      .ok (if found then [candidate] else []) := by
  have hmodule : candidate.module = c := by
    obtain ⟨convention, _, rfl⟩ := Option.map_eq_some_iff.1 h
    rfl
  rw [ProbeRecord.decode_encode]
  cases found with
  | false => rfl
  | true => simp [Ascending.ofList, Ascending.insertAll, Ascending.insert, ← hmodule]

/-! ## The remote half -/

/-- The value of the entry of a lookup, if it is there, trusted and can be read. -/
def usable? (r : Repository σ) (env : σ) (q : Query α) : Option α :=
  match r.trusted env q with
  | .ok (some bytes) => (r.readBack q bytes).toOption
  | _ => none

/-- The outcome of a lookup with a value from the site. Only an artifact has to be kept for it. -/
def keptOutcome (r : Repository σ) (env : σ) (q : Query α) (bytes : Bytes) (value : α) :
    Outcome α :=
  match q, (r.store.write env (r.key q) bytes).1 with
  | .artifact a, .error e => .failed (.cache a.display r.name e)
  | _, _ => .resolved value

theorem resolved_of_kept {r : Repository σ} {env : σ} {q : Query α} {bytes : Bytes}
    {value value' : α} (h : r.keptOutcome env q bytes value = .resolved value') :
    value = value' := by
  cases q with
  | artifact a =>
    cases hw : (r.store.write env (r.key (.artifact a)) bytes).1 with
    | error e =>
      simp only [keptOutcome, hw] at h
      cases h
    | ok _ =>
      simp only [keptOutcome, hw] at h
      exact Outcome.resolved_injective h
  | _ => exact Outcome.resolved_injective h

/-- The courses that a lookup can take in the remote half, whatever the store does: how it ends, the
environment that it leaves, and the calls that were made by then. -/
inductive RemoteCourse (r : Repository σ) (q : Query α) (env : σ) (calls : List Call) :
    Except Panic (Outcome α) × σ × List Call → Prop where
  /-- There is nothing to ask for. -/
  | idle (hc : r.call? q = none) : RemoteCourse r q env calls (.ok .unset, env, calls)
  /-- There is a value in the cache by now. -/
  | reused {call : Call} {value : α} (hc : r.call? q = some call)
      (hv : r.usable? env q = some value) :
      RemoteCourse r q env calls (.ok (.resolved value), env, calls)
  /-- The site is called, and has no value. -/
  | answered {call : Call} (hc : r.call? q = some call) (hn : r.usable? env q = none)
      (hu : ∀ value, r.siteAnswer env q ≠ .ok (.resolved value)) :
      RemoteCourse r q env calls (r.siteAnswer env q, env, calls ++ [call])
  /-- The site is called, and has a value, whose content is written to the cache. -/
  | kept {call : Call} {bytes : Bytes} {value : α} (hc : r.call? q = some call)
      (hn : r.usable? env q = none) (hb : r.siteContent env q = .ok (.ok (some bytes)))
      (hv : r.readBack q bytes = .ok value) :
      RemoteCourse r q env calls (.ok (r.keptOutcome env q bytes value),
        (r.store.write env (r.key q) bytes).2, calls ++ [call])

namespace RemoteCourse

variable {r : Repository σ} {q : Query α} {env env' : σ} {calls calls' : List Call} {call : Call}
  (hc : r.call? q = some call) (hn : r.usable? env q = none) (he : env' = env)
  (hcalls : calls' = calls ++ [call])
include hc hn he hcalls

theorem of_answer {answer : Except Panic (Outcome α)} (ha : r.siteAnswer env q = answer)
    (hu : ∀ value, answer ≠ .ok (.resolved value)) :
    r.RemoteCourse q env calls (answer, env', calls') := by
  subst ha he hcalls
  exact .answered hc hn hu

theorem of_panic {p : Panic} (h : r.siteContent env q = .error p) :
    r.RemoteCourse q env calls (.error p, env', calls') := by
  refine of_answer hc hn he hcalls ?_ (by simp)
  rw [siteAnswer, h]
  rfl

theorem of_error {e : TransportError} (h : r.siteContent env q = .ok (.error e)) :
    r.RemoteCourse q env calls
      (.ok (.failed (.transport q.operation q.entrySubject r.name e)), env', calls') := by
  refine of_answer hc hn he hcalls ?_ (by simp [Outcome.resolved, Outcome.failed])
  rw [siteAnswer, h]
  rfl

theorem of_missing (h : r.siteContent env q = .ok (.ok none)) :
    r.RemoteCourse q env calls (.ok .missing, env', calls') := by
  refine of_answer hc hn he hcalls ?_ (by simp [Outcome.resolved, Outcome.missing])
  rw [siteAnswer, h]
  rfl

theorem of_unread {bytes : Bytes} {e : ParseError}
    (h : r.siteContent env q = .ok (.ok (some bytes))) (hread : r.readBack q bytes = .error e) :
    r.RemoteCourse q env calls
      (.ok (.failed (.parse q.entrySubject r.name e)), env', calls') := by
  refine of_answer hc hn he hcalls ?_ (by simp [Outcome.resolved, Outcome.failed])
  rw [siteAnswer_of_content h, answerOf, hread]

end RemoteCourse

/-- Looking at the cache once more finds the value that can be used. -/
theorem recheck_apply {r : Repository σ} {q : Query α} {w : World σ}
    (ht : r.trusted w.env q = r.store.readFresh w.env (r.rules.trust q.kind) (r.key q)) :
    r.recheck (r.key q) q.kind (r.readBack q) w = .ok (r.usable? w.env q) w := by
  rw [recheck, Action.bind_apply, Action.env_apply, usable?, ht]
  dsimp only
  rcases r.store.readFresh w.env (r.rules.trust q.kind) (r.key q) with e | _ | bytes <;> rfl

theorem put_apply (s : Cache.Store σ) (key : Cache.Key) (bytes : Bytes) (w : World σ) :
    s.put key bytes w =
      .ok (s.write w.env key bytes).1 { w with env := (s.write w.env key bytes).2 } := by
  rw [Cache.Store.put, Action.bind_apply, Action.env_apply]
  rfl

/-- Keeping content may fail, but then the failure is logged and nothing else. -/
theorem keep_apply (r : Repository σ) (key : Cache.Key) (bytes : Bytes) (w : World σ) :
    ∃ w', r.keep key bytes w = .ok () w' ∧ w'.env = (r.store.write w.env key bytes).2 ∧
      w'.calls = w.calls := by
  rw [keep, Action.bind_apply, put_apply]
  dsimp only
  cases (r.store.write w.env key bytes).1 <;> exact ⟨_, rfl, rfl, rfl⟩

section Remote

variable {r : Repository σ} {w : World σ}

theorem of_kept {r : Repository σ} {q : Query α} {env env' : σ} {calls calls' : List Call}
    {call : Call} (hc : r.call? q = some call) (hn : r.usable? env q = none) {bytes : Bytes}
    {value : α} (hb : r.siteContent env q = .ok (.ok (some bytes)))
    (hv : r.readBack q bytes = .ok value) {o : Outcome α}
    (ho : r.keptOutcome env q bytes value = o)
    (he : env' = (r.store.write env (r.key q) bytes).2) (hcalls : calls' = calls ++ [call]) :
    r.RemoteCourse q env calls (.ok o, env', calls') := by
  subst ho he hcalls
  exact .kept hc hn hb hv

/-- The lock has no part in the course of a lookup. -/
theorem course_of_locked {q : Query α} {key : Cache.Key} {body : Action σ (Outcome α)}
    (h : ∀ w', r.RemoteCourse q w'.env w'.calls (body.seen w')) :
    r.RemoteCourse q w.env w.calls ((Action.withLock key body).seen w) := by
  rw [Action.withLock_seen]
  exact h (Action.lockedWorld key w)

theorem fetchAndParse_course {q : Query α} {location : String}
    (hc : r.call? q = some ⟨.fetch, r.name, location⟩)
    (hq : ∀ env, r.siteContent env q = r.fetched env location)
    (ht : ∀ env, r.trusted env q = r.store.readFresh env (r.rules.trust q.kind) (r.key q))
    (hk : ∀ env bytes value, r.keptOutcome env q bytes value = .resolved value) :
    r.RemoteCourse q w.env w.calls ((r.fetchAndParse q.operation (r.key q) q.kind location
      q.entrySubject (r.readBack q)).seen w) := by
  rw [fetchAndParse]
  refine course_of_locked fun w₁ => ?_
  rw [Action.seen, Answering.outcome_bind, Action.bind_apply, recheck_apply (ht w₁.env)]
  cases hu : r.usable? w₁.env q with
  | some value => exact .reused hc hu
  | none =>
    obtain ⟨w₂, he, hcalls, hfetch⟩ := r.transport.fetchFor_apply r.name location w₁
    dsimp only
    rw [Answering.outcome_bind, Action.bind_apply, hfetch]
    have hsite := hq w₁.env
    rw [fetched] at hsite
    rcases hreply : r.transport.settled location (r.transport.fetch w₁.env location) with
      p | e | _ | bytes <;> rw [hreply] at hsite
    · exact .of_panic hc hu he hcalls hsite
    · exact .of_error hc hu he hcalls hsite
    · exact .of_missing hc hu he hcalls hsite
    · cases hread : r.readBack q bytes with
      | error e =>
        simp only [Action.ofExcept, Action.pure_apply, hread, Answering.outcome_write]
        exact .of_unread hc hu he hcalls hsite hread
      | ok value =>
        obtain ⟨w₃, hkeep, he₃, hcalls₃⟩ := r.keep_apply (r.key q) bytes w₂
        simp only [Action.ofExcept, Action.pure_apply, hread, Answering.outcome_bind,
          Answering.outcome_write, Action.bind_apply, hkeep]
        exact of_kept hc hu hsite hread (hk _ _ _) (he ▸ he₃) (hcalls₃.trans hcalls)

theorem probeArtifacts_course (m : Metadata) (category : Category) :
    r.RemoteCourse (.artifacts m category) w.env w.calls
      ((r.probeArtifacts m category).seen w) := by
  rw [probeArtifacts]
  cases hcandidate : category.candidate? m.coordinate m.extension with
  | none => exact .idle (by rw [call?, hcandidate]; rfl)
  | some candidate =>
    have hc := r.call?_of_candidate hcandidate
    refine course_of_locked fun w₁ => ?_
    have hrecheck := recheck_apply (r := r) (q := .artifacts m category) (w := w₁) rfl
    change r.recheck (.artifactSet r.name m.coordinate category) .artifact
      (ProbeRecord.decode m.coordinate) w₁ = _ at hrecheck
    rw [Action.seen, Answering.outcome_bind, Action.bind_apply, hrecheck]
    cases hu : r.usable? w₁.env (.artifacts m category) with
    | some value => exact .reused hc hu
    | none =>
      have hsite := r.siteContent_of_candidate hcandidate w₁.env
      rw [probed] at hsite
      obtain ⟨w₂, he, hcalls, hprobe⟩ := r.transport.probeFor_apply r.name
        (r.format.artifactLocation candidate) w₁
      dsimp only
      rw [Answering.outcome_bind, Action.bind_apply, hprobe]
      rcases hreply : r.transport.settled (r.format.artifactLocation candidate)
        (r.transport.probe w₁.env (r.format.artifactLocation candidate)) with p | e | found <;>
        rw [hreply] at hsite
      · exact .of_panic hc hu he hcalls hsite
      · exact .of_error hc hu he hcalls hsite
      · obtain ⟨w₃, hkeep, he₃, hcalls₃⟩ := r.keep_apply (r.key (.artifacts m category))
          (ProbeRecord.encode (if found then [candidate] else [])) w₂
        change r.keep (.artifactSet r.name m.coordinate category) _ w₂ = _ at hkeep
        simp only [Action.ofExcept, Action.pure_apply, Answering.outcome_bind,
          Answering.outcome_write, Action.bind_apply, hkeep]
        exact of_kept hc hu hsite (decode_encode_candidate hcandidate found) rfl (he ▸ he₃)
          (hcalls₃.trans hcalls)

theorem fetchInto_course {a : Artifact} (hn : r.usable? w.env (.artifact a) = none) (w₁ : World σ)
    (he₁ : w₁.env = w.env) (hcalls₁ : w₁.calls = w.calls) :
    r.RemoteCourse (.artifact a) w.env w.calls
      ((downloadArtifact.fetchInto r a (r.key (.artifact a))).outcome.seen w₁) := by
  rw [← he₁] at hn ⊢
  rw [← hcalls₁]
  have hc : r.call? (.artifact a) = some ⟨.fetch, r.name, r.format.artifactLocation a⟩ := rfl
  obtain ⟨w₂, he, hcalls, hfetch⟩ := r.transport.fetchFor_apply r.name (r.format.artifactLocation a)
    w₁
  have hsite : r.siteContent w₁.env (.artifact a) = r.transport.settled
      (r.format.artifactLocation a) (r.transport.fetch w₁.env (r.format.artifactLocation a)) := rfl
  rw [downloadArtifact.fetchInto, Action.seen, Answering.outcome_bind, Action.bind_apply, hfetch]
  rcases hreply : r.transport.settled (r.format.artifactLocation a)
    (r.transport.fetch w₁.env (r.format.artifactLocation a)) with p | e | _ | bytes <;>
    rw [hreply] at hsite
  · exact .of_panic hc hn he hcalls hsite
  · exact .of_error hc hn he hcalls hsite
  · exact .of_missing hc hn he hcalls hsite
  · simp only [Action.ofExcept, Action.pure_apply, Answering.outcome_bind, Action.bind_apply,
      put_apply, he]
    cases hwrite : (r.store.write w₁.env (r.key (.artifact a)) bytes).1 with
    | ok _ => exact of_kept hc hn hsite rfl (by simp only [keptOutcome, hwrite]; rfl) rfl hcalls
    | error e => exact of_kept hc hn hsite rfl (by simp only [keptOutcome, hwrite]; rfl) rfl hcalls

theorem downloadArtifact_course (a : Artifact) :
    r.RemoteCourse (.artifact a) w.env w.calls ((r.downloadArtifact a).seen w) := by
  rw [downloadArtifact]
  refine course_of_locked fun w₁ => ?_
  have hc : r.call? (.artifact a) = some ⟨.fetch, r.name, r.format.artifactLocation a⟩ := rfl
  rw [Action.seen, Answering.outcome_bind, Action.bind_apply, Action.env_apply]
  dsimp only
  rcases hfresh : r.store.hasFresh w₁.env r.rules.artifacts (.artifact r.name a) with e | _ | _
  · have hn : r.usable? w₁.env (.artifact a) = none := by
      simp [usable?, trusted, key, Query.kind, Rules.trust, hfresh, Except.map]
    rw [show r.cachedArtifact w₁.env a = .error e by rw [cachedArtifact, hfresh]; rfl]
    exact fetchInto_course hn { w₁ with log := w₁.log ++ [_] } rfl rfl
  · have hn : r.usable? w₁.env (.artifact a) = none := by
      simp [usable?, trusted, key, Query.kind, Rules.trust, hfresh, Except.map]
    rw [show r.cachedArtifact w₁.env a = .ok none by rw [cachedArtifact, hfresh]; rfl]
    exact fetchInto_course hn w₁ rfl rfl
  · have hv : r.usable? w₁.env (.artifact a) = some ⟨a, r.store.path (.artifact r.name a)⟩ := by
      simp [usable?, trusted, key, Query.kind, Rules.trust, hfresh, Except.map, readBack,
        Except.toOption]
    rw [show r.cachedArtifact w₁.env a = .ok (some ⟨a, r.store.path (.artifact r.name a)⟩) by
      rw [cachedArtifact, hfresh]; rfl]
    exact .reused hc hv

/-- A lookup takes one of these courses in the remote half. -/
theorem remoteHalf_course (r : Repository σ) (q : Query α) (w : World σ) :
    r.RemoteCourse q w.env w.calls ((r.remoteHalf.answer q).seen w) := by
  cases q with
  | versions s =>
    exact fetchAndParse_course (q := .versions s) rfl (fun _ => rfl) (fun _ => rfl) fun _ _ _ => rfl
  | metadata c =>
    exact fetchAndParse_course (q := .metadata c) rfl (fun _ => rfl) (fun _ => rfl) fun _ _ _ => rfl
  | artifacts m category => exact probeArtifacts_course m category
  | artifact a => exact downloadArtifact_course a

/-- No call is taken back. -/
theorem remoteHalf_calls (r : Repository σ) (q : Query α) (w : World σ) :
    ∃ calls, ((r.remoteHalf.answer q).finish w).2.calls = w.calls ++ calls := by
  have hcourse := r.remoteHalf_course q w
  generalize hseen : (r.remoteHalf.answer q).seen w = seen at hcourse
  rw [Action.seen_eq_finish] at hseen
  cases hcourse <;> simp only [Prod.mk.injEq] at hseen <;> rw [hseen.2.2]
  · exact ⟨[], (List.append_nil _).symm⟩
  · exact ⟨[], (List.append_nil _).symm⟩
  · exact ⟨_, rfl⟩
  · exact ⟨_, rfl⟩

end Remote

end Repository
end ArtifactResolver
