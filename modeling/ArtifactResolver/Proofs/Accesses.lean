import ArtifactResolver.Proofs.Availability

/-!
# Lookups by their accesses

A lookup looks at its entry, calls the site and writes its entry, one access after the other, and
between two of them others may go on. Here a lookup is the tree of the accesses that are still to
come, each with what is done with its result. To make all accesses at once is what the two halves of
a repository do.
-/

namespace ArtifactResolver

variable {σ α : Type}

/-- What is left of a lookup: the next access, and what follows for every result of it. -/
inductive Pending (α : Type) where
  /-- The outcome is known. -/
  | done (o : Outcome α)
  /-- The age of the entry is asked for. -/
  | age (next : Except CacheError (Option Duration) → Pending α)
  /-- The entry is read. -/
  | read (next : Except CacheError (Option Bytes) → Pending α)
  /-- The site is asked for a file. -/
  | fetch (location : String) (next : Except TransportError (Option Bytes) → Pending α)
  /-- The site is asked whether it has a file. -/
  | probe (location : String) (next : Except TransportError Bool → Pending α)
  /-- The entry is written. -/
  | write (bytes : Bytes) (next : Except CacheError Unit → Pending α)
  /-- A line is added to the log. -/
  | log (level : Level) (text : String) (next : Pending α)

namespace Pending

/-- Makes the next access, to the entry of the key or to the site. -/
def step (r : Repository σ) (key : Cache.Key) : Pending α → Action σ (Pending α)
  | done o => return done o
  | age next => do return next (r.store.age (← Action.env) key)
  | read next => do return next (r.store.read (← Action.env) key)
  | fetch location next => do return next (← r.transport.fetchFor r.name location)
  | probe location next => do return next (← r.transport.probeFor r.name location)
  | write bytes next => do return next (← r.store.put key bytes)
  | log level text next => do
    Action.log level text
    return next

/-- Makes all accesses. -/
def run (r : Repository σ) (key : Cache.Key) : Pending α → Action σ (Outcome α)
  | done o => return o
  | age next => do run r key (next (r.store.age (← Action.env) key))
  | read next => do run r key (next (r.store.read (← Action.env) key))
  | fetch location next => do run r key (next (← r.transport.fetchFor r.name location))
  | probe location next => do run r key (next (← r.transport.probeFor r.name location))
  | write bytes next => do run r key (next (← r.store.put key bytes))
  | log level text next => do
    Action.log level text
    run r key next

variable {r : Repository σ} {key : Cache.Key} {w : World σ}

@[simp] theorem run_done (o : Outcome α) : (done o).run r key w = .ok o w := rfl

@[simp] theorem run_age (next : Except CacheError (Option Duration) → Pending α) :
    (age next).run r key w = (next (r.store.age w.env key)).run r key w := rfl

@[simp] theorem run_read (next : Except CacheError (Option Bytes) → Pending α) :
    (read next).run r key w = (next (r.store.read w.env key)).run r key w := rfl

@[simp] theorem run_log (level : Level) (text : String) (next : Pending α) :
    (log level text next).run r key w =
      next.run r key { w with log := w.log ++ [⟨level, text⟩] } := rfl

/-- To make all accesses is to make the next one and then all others. -/
theorem run_eq_step (rest : Pending α) (w : World σ) :
    rest.run r key w = (rest.step r key >>= run r key) w := by
  cases rest with
  | fetch location next =>
    rw [run, step, Action.bind_apply, Action.bind_apply, Action.bind_apply]
    cases r.transport.fetchFor r.name location w <;> rfl
  | probe location next =>
    rw [run, step, Action.bind_apply, Action.bind_apply, Action.bind_apply]
    cases r.transport.probeFor r.name location w <;> rfl
  | write bytes next =>
    rw [run, step, Action.bind_apply, Action.bind_apply, Action.bind_apply]
    cases r.store.put key bytes w <;> rfl
  | _ => rfl

theorem unaware_put (bytes : Bytes) : (r.store.put key bytes).Unaware := by
  intro w w' he hc
  rw [Action.seen, Action.seen, Repository.put_apply, Repository.put_apply, he, hc]

theorem unaware_run (rest : Pending α) : (rest.run r key).Unaware := by
  induction rest with
  | done o => exact Action.unaware_pure o
  | age next ih => exact Action.unaware_env.bind fun _ => ih _
  | read next ih => exact Action.unaware_env.bind fun _ => ih _
  | log level text next ih => exact (Action.unaware_log level text).bind fun _ => ih
  | write bytes next ih => exact (unaware_put bytes).bind fun _ => ih _
  | fetch location next ih =>
    have hfetch : (r.transport.fetchFor r.name location).Unaware :=
      Action.unaware_call (fun e => r.transport.settled location (r.transport.fetch e location))
        (r.transport.fetchFor_apply r.name location)
    exact hfetch.bind fun _ => ih _
  | probe location next ih =>
    have hprobe : (r.transport.probeFor r.name location).Unaware :=
      Action.unaware_call (fun e => r.transport.settled location (r.transport.probe e location))
        (r.transport.probeFor_apply r.name location)
    exact hprobe.bind fun _ => ih _

end Pending

namespace Repository

variable (r : Repository σ)

/-! ## The lookups -/

/-- Looks at the content of an entry that is trusted. That of an artifact does not count. -/
def look : Query α → (Except CacheError (Option Bytes) → Pending α) → Pending α
  | .versions _, next => .read next
  | .metadata _, next => .read next
  | .artifacts _ _, next => .read next
  | .artifact _, next => next (.ok (some []))

/-- Looks at the entry of a lookup as far as it is trusted at its age. -/
def consult (q : Query α) (next : Except CacheError (Option Bytes) → Pending α) : Pending α :=
  .age fun
    | .ok (some age) => if (r.rules.trust q.kind).isFresh age then look q next else next (.ok none)
    | .ok none => next (.ok none)
    | .error e => next (.error e)

/-- The accesses of the local half. -/
def pendingLocal (q : Query α) : Pending α :=
  match q.declared? with
  | some o => .done o
  | none => r.consult q fun found => .done (r.answerOf q found)

/-- What follows on the write of the content that was read as a value. -/
def afterWrite : (q : Query α) → α → Except CacheError Unit → Pending α
  | .artifact a, value, .ok _ =>
    .log .info s!"Downloaded {a.display} from {r.name}" (.done (.resolved value))
  | .artifact a, _, .error e => .done (.failed (.cache a.display r.name e))
  | .versions _, value, .ok _ => .done (.resolved value)
  | .metadata _, value, .ok _ => .done (.resolved value)
  | .artifacts _ _, value, .ok _ => .done (.resolved value)
  | q, value, .error e =>
    .log .warn s!"Could not cache {(r.key q).text}: {e.message}" (.done (.resolved value))

/-- What follows when the site has answered: content that can be read is kept. -/
def afterCall (q : Query α) (answer : Except TransportError (Option Bytes)) : Pending α :=
  match answer with
  | .error e => .done (.failed (.transport q.operation q.entrySubject r.name e))
  | .ok none => .done .missing
  | .ok (some bytes) =>
    match r.readBack q bytes with
    | .ok value => .write bytes (r.afterWrite q value)
    | .error e => .done (.failed (.parse q.entrySubject r.name e))

/-- Calls the site. What a probe has found is the content of its record. -/
def callSite : Query α → Pending α
  | .versions s => .fetch (r.format.listingLocation s) (r.afterCall (.versions s))
  | .metadata c => .fetch (r.format.descriptorLocation c) (r.afterCall (.metadata c))
  | .artifacts m category =>
    match category.candidate? m.coordinate m.extension with
    | none => .done .unset
    | some candidate =>
      .probe (r.format.artifactLocation candidate) fun answer =>
        r.afterCall (.artifacts m category) (answer.map fun found =>
          some (ProbeRecord.encode (if found then [candidate] else [])))
  | .artifact a => .fetch (r.format.artifactLocation a) (r.afterCall (.artifact a))

/-- Calls the site although there may be an entry, as it cannot be read. Of an artifact that is
worth a line of the log. -/
def callAnyway (e : CacheError) : Query α → Pending α
  | .artifact a => .log .warn s!"Ignoring unreadable cache entry for {a.display}: {e.message}"
    (r.callSite (.artifact a))
  | q => r.callSite q

/-- The accesses that the remote half makes with the lock. -/
def pendingRemote (q : Query α) : Pending α :=
  r.consult q fun
    | .ok (some bytes) =>
      match r.readBack q bytes with
      | .ok value => .done (.resolved value)
      | .error _ => r.callSite q
    | .ok none => r.callSite q
    | .error e => r.callAnyway e q

/-! ## The halves make these accesses -/

variable {r} {q : Query α} {w : World σ}

theorem run_consult (next : Except CacheError (Option Bytes) → Pending α) :
    (r.consult q next).run r (r.key q) w = (next (r.trusted w.env q)).run r (r.key q) w := by
  rw [consult, Pending.run_age, trusted_eq]
  rcases r.store.age w.env (r.key q) with e | _ | age
  · rfl
  · rfl
  · dsimp only
    by_cases hf : (r.rules.trust q.kind).isFresh age = true
    · rw [if_pos hf, if_pos hf]
      cases q <;> rfl
    · rw [if_neg hf, if_neg hf]

/-- The local half makes all its accesses at once. -/
theorem localHalf_eq_run (r : Repository σ) (q : Query α) :
    r.localHalf.answer q = (r.pendingLocal q).run r (r.key q) := by
  funext w
  rw [localHalf_answer, localAnswer, pendingLocal]
  cases q.declared? with
  | some o => rfl
  | none =>
    dsimp only
    rw [run_consult, Pending.run_done]

/-- Outside of the lookups of artifacts, a write that fails is worth a line of the log only. -/
theorem run_write {value : α} {bytes : Bytes} (hq : q.IsParsed) :
    (Pending.write bytes (r.afterWrite q value)).run r (r.key q) w =
      Answering.outcome (do liftM (r.keep (r.key q) bytes); Answering.write (.resolved value))
        w := by
  rw [Answering.outcome_bind, Pending.run, Action.bind_apply, put_apply, Action.bind_apply, keep,
    Action.bind_apply, put_apply]
  dsimp only
  cases (r.store.write w.env (r.key q) bytes).1 <;> cases q <;> first | rfl | cases hq

theorem callAnyway_of_parsed (hq : q.IsParsed) (e : CacheError) :
    r.callAnyway e q = r.callSite q := by
  cases q with
  | artifact a => cases hq
  | _ => rfl

/-- Looking at an entry that is parsed ends with its value, or goes on with the site. -/
theorem run_pendingRemote (hq : q.IsParsed) :
    (r.pendingRemote q).run r (r.key q) w = match r.usable? w.env q with
      | some value => .ok (.resolved value) w
      | none => (r.callSite q).run r (r.key q) w := by
  rw [pendingRemote, run_consult, usable?]
  rcases r.trusted w.env q with e | _ | bytes
  · dsimp only
    rw [callAnyway_of_parsed hq]
  · rfl
  · dsimp only
    cases r.readBack q bytes <;> rfl

theorem fetchAndParse_eq_run {location : String} (hq : q.IsParsed)
    (hsite : r.callSite q = .fetch location (r.afterCall q))
    (ht : ∀ env, r.trusted env q = r.store.readFresh env (r.rules.trust q.kind) (r.key q)) :
    r.fetchAndParse q.operation (r.key q) q.kind location q.entrySubject (r.readBack q) =
      Action.withLock (r.key q) ((r.pendingRemote q).run r (r.key q)) := by
  rw [fetchAndParse]
  congr 1
  funext w
  rw [run_pendingRemote hq, Answering.outcome_bind, Action.bind_apply, recheck_apply (ht w.env)]
  cases r.usable? w.env q with
  | some value => rfl
  | none =>
    dsimp only
    rw [hsite, Pending.run, Answering.outcome_bind, Action.bind_apply, Action.bind_apply]
    cases r.transport.fetchFor r.name location w with
    | error panic w' => rfl
    | ok answer w' =>
      rcases answer with e | _ | bytes
      · rfl
      · rfl
      · dsimp only
        rw [afterCall]
        cases hread : r.readBack q bytes with
        | error e => rfl
        | ok value => exact (run_write hq).symm

theorem probeArtifacts_eq_run {m : Metadata} {category : Category} {candidate : Artifact}
    (hc : category.candidate? m.coordinate m.extension = some candidate) :
    r.probeArtifacts m category = Action.withLock (r.key (.artifacts m category))
      ((r.pendingRemote (.artifacts m category)).run r (r.key (.artifacts m category))) := by
  have hq : (Query.artifacts m category).IsParsed := trivial
  rw [probeArtifacts, hc]
  dsimp only
  congr 1
  funext w
  have hrecheck := recheck_apply (r := r) (q := .artifacts m category) (w := w) rfl
  change r.recheck (.artifactSet r.name m.coordinate category) .artifact
    (ProbeRecord.decode m.coordinate) w = _ at hrecheck
  rw [run_pendingRemote hq, Answering.outcome_bind, Action.bind_apply, hrecheck]
  cases r.usable? w.env (.artifacts m category) with
  | some value => rfl
  | none =>
    dsimp only
    rw [callSite, hc]
    dsimp only
    rw [Pending.run, Answering.outcome_bind, Action.bind_apply, Action.bind_apply]
    cases r.transport.probeFor r.name (r.format.artifactLocation candidate) w with
    | error panic w' => rfl
    | ok answer w' =>
      cases answer with
      | error e => rfl
      | ok found =>
        have hread : r.readBack (.artifacts m category)
            (ProbeRecord.encode (if found then [candidate] else [])) =
              .ok (if found then [candidate] else []) := decode_encode_candidate hc found
        simp only [Except.map, afterCall, hread]
        exact (run_write hq).symm

theorem fetchInto_eq_run (a : Artifact) :
    (downloadArtifact.fetchInto r a (r.key (.artifact a))).outcome w =
      (r.callSite (.artifact a)).run r (r.key (.artifact a)) w := by
  rw [downloadArtifact.fetchInto, callSite, Pending.run, Answering.outcome_bind, Action.bind_apply,
    Action.bind_apply]
  cases r.transport.fetchFor r.name (r.format.artifactLocation a) w with
  | error panic w' => rfl
  | ok answer w' =>
    rcases answer with e | _ | bytes
    · rfl
    · rfl
    · have hwrite : r.afterCall (.artifact a) (.ok (some bytes)) =
          .write bytes (r.afterWrite (.artifact a) ⟨a, r.store.path (.artifact r.name a)⟩) := rfl
      dsimp only
      rw [hwrite, Pending.run, Answering.outcome_bind, Action.bind_apply, Action.bind_apply,
        put_apply]
      dsimp only
      cases (r.store.write w'.env (r.key (.artifact a)) bytes).1 <;> rfl

theorem downloadArtifact_eq_run (a : Artifact) :
    r.downloadArtifact a = Action.withLock (r.key (.artifact a))
      ((r.pendingRemote (.artifact a)).run r (r.key (.artifact a))) := by
  rw [downloadArtifact]
  show Action.withLock (r.key (.artifact a)) _ = _
  congr 1
  funext w
  have htrusted : r.trusted w.env (.artifact a) =
      (r.store.hasFresh w.env r.rules.artifacts (.artifact r.name a)).map fun fresh =>
        if fresh then some [] else none := rfl
  rw [pendingRemote, run_consult, Answering.outcome_bind, Action.bind_apply, Action.env_apply,
    htrusted]
  dsimp only
  rw [cachedArtifact]
  cases r.store.hasFresh w.env r.rules.artifacts (.artifact r.name a) with
  | error e => exact fetchInto_eq_run a
  | ok fresh =>
    cases fresh with
    | true => rfl
    | false => exact fetchInto_eq_run a

/-- Where there is something to ask the site for, the remote half makes all its accesses with the
lock. -/
theorem remoteHalf_eq_run (r : Repository σ) (q : Query α) : r.remoteHalf.answer q =
    match r.call? q with
    | some _ => Action.withLock (r.key q) ((r.pendingRemote q).run r (r.key q))
    | none => return .unset := by
  cases q with
  | versions s => exact fetchAndParse_eq_run (q := .versions s) trivial rfl fun _ => rfl
  | metadata c => exact fetchAndParse_eq_run (q := .metadata c) trivial rfl fun _ => rfl
  | artifacts m category =>
    cases hc : category.candidate? m.coordinate m.extension with
    | some candidate =>
      rw [r.call?_of_candidate hc]
      exact probeArtifacts_eq_run hc
    | none =>
      rw [call?, hc]
      show r.probeArtifacts m category = _
      rw [probeArtifacts, hc]
      rfl
  | artifact a => exact downloadArtifact_eq_run a

end Repository

/-! ## What accesses can come to -/

namespace Pending

/-- With an entry of this content that is trusted, the lookup comes to the outcome without the site
and without a write. -/
def Reuses (trust : Trust) (bytes : Bytes) (o : Outcome α) : Pending α → Prop
  | done o' => o' = o
  | age next => ∀ age, trust.isFresh age = true → Reuses trust bytes o (next (.ok (some age)))
  | read next => Reuses trust bytes o (next (.ok (some bytes)))
  | log _ _ next => Reuses trust bytes o next
  | fetch _ _ => False
  | probe _ _ => False
  | write _ _ => False

/-- Whatever is in the cache, the lookup neither calls the site nor writes. -/
def Quiet : Pending α → Prop
  | done _ => True
  | age next => ∀ found, Quiet (next found)
  | read next => ∀ found, Quiet (next found)
  | log _ _ next => Quiet next
  | fetch _ _ => False
  | probe _ _ => False
  | write _ _ => False

/-- There are no accesses left, and the outcome is one of these. -/
def Closing (P : Outcome α → Prop) : Pending α → Prop
  | done o => P o
  | log _ _ next => Closing P next
  | _ => False

/-- The lookup writes at most once, and only what can be read. If that succeeds, it comes to the
value that was written. -/
def Saves (r : Repository σ) (q : Query α) : Pending α → Prop
  | done _ => True
  | age next => ∀ found, Saves r q (next found)
  | read next => ∀ found, Saves r q (next found)
  | fetch _ next => ∀ answer, Saves r q (next answer)
  | probe _ next => ∀ answer, Saves r q (next answer)
  | log _ _ next => Saves r q next
  | write bytes next => ∃ value, r.readBack q bytes = .ok value ∧
      (next (.ok ())).Closing (· = .resolved value) ∧ ∀ e, (next (.error e)).Closing fun _ => True

theorem Closing.mono {P Q : Outcome α → Prop} (h : ∀ o, P o → Q o) {rest : Pending α}
    (hc : rest.Closing P) : rest.Closing Q := by
  induction rest with
  | done o => exact h o hc
  | log level text next ih => exact ih hc
  | _ => exact hc.elim

theorem Closing.exists {P : Outcome α → Prop} {rest : Pending α} (hc : rest.Closing P) :
    ∃ o, P o := by
  induction rest with
  | done o => exact ⟨o, hc⟩
  | log level text next ih => exact ih hc
  | _ => exact hc.elim

end Pending

namespace Repository

variable {r : Repository σ} {q : Query α} {bytes : Bytes} {value : α}

/-- Consulting comes to what follows on the content of a trusted entry. -/
theorem consult_reuses {next : Except CacheError (Option Bytes) → Pending α} {o : Outcome α}
    (h : ∀ bytes', r.readBack q bytes' = r.readBack q bytes →
      (next (.ok (some bytes'))).Reuses (r.rules.trust q.kind) bytes o) :
    (r.consult q next).Reuses (r.rules.trust q.kind) bytes o := by
  intro age hf
  simp only [hf, if_true]
  cases q with
  | artifact a => exact h [] rfl
  | _ => exact h bytes rfl

theorem pendingRemote_reuses (hread : r.readBack q bytes = .ok value) :
    (r.pendingRemote q).Reuses (r.rules.trust q.kind) bytes (.resolved value) := by
  refine consult_reuses fun bytes' hsame => ?_
  rw [hread] at hsame
  simp only [hsame]
  rfl

/-- The outcome of a lookup by the local half when the content of the entry reads as a value. What
the metadata declares comes first. -/
def localOutcome (q : Query α) (value : α) : Outcome α := q.declared?.getD (.resolved value)

theorem pendingLocal_reuses (hread : r.readBack q bytes = .ok value) :
    (r.pendingLocal q).Reuses (r.rules.trust q.kind) bytes (localOutcome q value) := by
  rw [pendingLocal, localOutcome]
  cases q.declared? with
  | some o => rfl
  | none =>
    refine consult_reuses fun bytes' hsame => ?_
    rw [hread] at hsame
    exact answerOf_eq_resolved_iff.2 ⟨bytes', rfl, hsame⟩

theorem pendingLocal_quiet (r : Repository σ) (q : Query α) : (r.pendingLocal q).Quiet := by
  rw [pendingLocal]
  cases q.declared? with
  | some o => trivial
  | none =>
    rintro (e | _ | age)
    · trivial
    · trivial
    · dsimp only
      split
      · cases q with
        | artifact a => trivial
        | _ => exact fun _ => trivial
      · trivial

/-- After a write that succeeds the lookup has the value. -/
theorem write_saves (hread : r.readBack q bytes = .ok value) :
    (Pending.write bytes (r.afterWrite q value)).Saves r q := by
  refine ⟨value, hread, ?_, ?_⟩
  · cases q <;> rfl
  · intro e
    cases q <;> trivial

theorem afterCall_saves (r : Repository σ) (q : Query α)
    (answer : Except TransportError (Option Bytes)) : (r.afterCall q answer).Saves r q := by
  rcases answer with e | _ | bytes
  · trivial
  · trivial
  · rw [afterCall]
    cases hread : r.readBack q bytes with
    | ok value => exact write_saves hread
    | error e => trivial

theorem callSite_saves (r : Repository σ) (q : Query α) : (r.callSite q).Saves r q := by
  cases q with
  | artifacts m category =>
    rw [callSite]
    cases category.candidate? m.coordinate m.extension with
    | none => trivial
    | some candidate => exact fun answer => r.afterCall_saves _ _
  | _ => exact fun answer => r.afterCall_saves _ answer

theorem callAnyway_saves (r : Repository σ) (q : Query α) (e : CacheError) :
    (r.callAnyway e q).Saves r q := by
  cases q with
  | artifact a => exact r.callSite_saves (.artifact a)
  | versions s => exact r.callSite_saves (.versions s)
  | metadata c => exact r.callSite_saves (.metadata c)
  | artifacts m category => exact r.callSite_saves (.artifacts m category)

theorem pendingRemote_saves (r : Repository σ) (q : Query α) : (r.pendingRemote q).Saves r q := by
  have hfound : ∀ bytes, (match r.readBack q bytes with
      | .ok value => Pending.done (.resolved value)
      | .error _ => r.callSite q).Saves r q := by
    intro bytes
    cases r.readBack q bytes with
    | ok value => trivial
    | error e => exact r.callSite_saves q
  have hnext : ∀ found : Except CacheError (Option Bytes), (match found with
      | .ok (some bytes) =>
        match r.readBack q bytes with
        | .ok value => Pending.done (.resolved value)
        | .error _ => r.callSite q
      | .ok none => r.callSite q
      | .error e => r.callAnyway e q).Saves r q := by
    rintro (e | _ | bytes)
    · exact r.callAnyway_saves q e
    · exact r.callSite_saves q
    · exact hfound bytes
  rintro (e | _ | age)
  · exact hnext (.error e)
  · exact hnext (.ok none)
  · dsimp only
    split
    · cases q with
      | artifact a => exact hnext (.ok (some []))
      | _ => exact hnext
    · exact hnext (.ok none)

end Repository

/-! ## Steps -/

namespace Pending

variable {r : Repository σ} {key : Cache.Key} {w w' : World σ} {rest rest' : Pending α}

/-- The content that the next access writes, if it is a write. -/
def content? : Pending α → Option Bytes
  | write bytes _ => some bytes
  | _ => none

theorem eq_write_of_content {bytes : Bytes} (h : rest.content? = some bytes) :
    ∃ next, rest = write bytes next := by
  cases rest with
  | write bytes' next =>
    obtain rfl := Option.some.inj h
    exact ⟨next, rfl⟩
  | _ => cases h

theorem Reuses.content_eq {trust : Trust} {bytes : Bytes} {o : Outcome α}
    (h : rest.Reuses trust bytes o) : rest.content? = none := by
  cases rest with
  | write bytes next => exact h.elim
  | _ => rfl

theorem Quiet.content_eq (h : rest.Quiet) : rest.content? = none := by
  cases rest with
  | write bytes next => exact h.elim
  | _ => rfl

theorem Closing.content_eq {P : Outcome α → Prop} (h : rest.Closing P) : rest.content? = none := by
  cases rest with
  | write bytes next => exact h.elim
  | _ => rfl

/-- With a trusted entry of that content, each access goes on towards the outcome. -/
theorem Reuses.step {trust : Trust} {bytes : Bytes} {o : Outcome α}
    (h : rest.Reuses trust bytes o) {age : Duration}
    (hage : r.store.age w.env key = .ok (some age)) (hf : trust.isFresh age = true)
    (hread : r.store.read w.env key = .ok (some bytes)) :
    ∃ rest' w', rest.step r key w = .ok rest' w' ∧ rest'.Reuses trust bytes o ∧
      w'.env = w.env ∧ w'.calls = w.calls := by
  cases rest with
  | done o' => exact ⟨_, w, rfl, h, rfl, rfl⟩
  | age next =>
    refine ⟨_, w, rfl, ?_, rfl, rfl⟩
    rw [hage]
    exact h age hf
  | read next =>
    refine ⟨_, w, rfl, ?_, rfl, rfl⟩
    rw [hread]
    exact h
  | log level text next => exact ⟨_, _, rfl, h, rfl, rfl⟩
  | fetch location next => exact h.elim
  | probe location next => exact h.elim
  | write bytes next => exact h.elim

/-- With a trusted entry of that content, all accesses together come to the outcome. -/
theorem Reuses.run {trust : Trust} {bytes : Bytes} {o : Outcome α}
    (h : rest.Reuses trust bytes o) {age : Duration}
    (hage : r.store.age w.env key = .ok (some age)) (hf : trust.isFresh age = true)
    (hread : r.store.read w.env key = .ok (some bytes)) :
    ∃ w', rest.run r key w = .ok o w' ∧ w'.env = w.env := by
  induction rest generalizing w with
  | done o' =>
    obtain rfl : o' = o := h
    exact ⟨w, rfl, rfl⟩
  | age next ih =>
    rw [run_age, hage]
    exact ih _ (h age hf) hage hread
  | read next ih =>
    rw [run_read, hread]
    exact ih _ h hage hread
  | log level text next ih =>
    rw [run_log]
    exact ih h hage hread
  | fetch location next => exact h.elim
  | probe location next => exact h.elim
  | write bytes next => exact h.elim

theorem Quiet.step (h : rest.Quiet) (r : Repository σ) (key : Cache.Key) (w : World σ) :
    ∃ rest' w', rest.step r key w = .ok rest' w' ∧ rest'.Quiet ∧ w'.env = w.env ∧
      w'.calls = w.calls := by
  cases rest with
  | done o => exact ⟨_, w, rfl, h, rfl, rfl⟩
  | age next => exact ⟨_, w, rfl, h _, rfl, rfl⟩
  | read next => exact ⟨_, w, rfl, h _, rfl, rfl⟩
  | log level text next => exact ⟨_, _, rfl, h, rfl, rfl⟩
  | fetch location next => exact h.elim
  | probe location next => exact h.elim
  | write bytes next => exact h.elim

theorem Closing.step {P : Outcome α → Prop} (h : rest.Closing P) (r : Repository σ)
    (key : Cache.Key) (w : World σ) :
    ∃ rest' w', rest.step r key w = .ok rest' w' ∧ rest'.Closing P ∧ w'.env = w.env ∧
      w'.calls = w.calls := by
  cases rest with
  | done o => exact ⟨_, w, rfl, h, rfl, rfl⟩
  | log level text next => exact ⟨_, _, rfl, h, rfl, rfl⟩
  | _ => exact h.elim

/-- A write does not panic, and what follows depends on whether it has succeeded. -/
theorem step_write (r : Repository σ) (key : Cache.Key) (bytes : Bytes)
    (next : Except CacheError Unit → Pending α) (w : World σ) :
    (write bytes next).step r key w =
      .ok (next (r.store.write w.env key bytes).1)
        { w with env := (r.store.write w.env key bytes).2 } := by
  rw [step, Action.bind_apply, Repository.put_apply]
  rfl

/-- An access that is no write ends with something that follows, or with a panic, and leaves the
environment as it is. -/
theorem step_cases (r : Repository σ) (key : Cache.Key) (w : World σ) (hc : rest.content? = none) :
    ∃ w', w'.env = w.env ∧ ((∃ panic, rest.step r key w = .error panic w') ∨
      ∃ rest', rest.step r key w = .ok rest' w' ∧ ∀ {q}, rest.Saves r q → rest'.Saves r q) := by
  cases rest with
  | done o => exact ⟨w, rfl, Or.inr ⟨_, rfl, id⟩⟩
  | age next => exact ⟨w, rfl, Or.inr ⟨_, rfl, fun h => h _⟩⟩
  | read next => exact ⟨w, rfl, Or.inr ⟨_, rfl, fun h => h _⟩⟩
  | log level text next =>
    exact ⟨{ w with log := w.log ++ [⟨level, text⟩] }, rfl, Or.inr ⟨next, rfl, fun h => h⟩⟩
  | fetch location next =>
    obtain ⟨w', he, _, hfetch⟩ := r.transport.fetchFor_apply r.name location w
    refine ⟨w', he, ?_⟩
    rw [step, Action.bind_apply, hfetch]
    cases r.transport.settled location (r.transport.fetch w.env location) with
    | error panic => exact Or.inl ⟨panic, rfl⟩
    | ok answer => exact Or.inr ⟨_, rfl, fun h => h _⟩
  | probe location next =>
    obtain ⟨w', he, _, hprobe⟩ := r.transport.probeFor_apply r.name location w
    refine ⟨w', he, ?_⟩
    rw [step, Action.bind_apply, hprobe]
    cases r.transport.settled location (r.transport.probe w.env location) with
    | error panic => exact Or.inl ⟨panic, rfl⟩
    | ok answer => exact Or.inr ⟨_, rfl, fun h => h _⟩
  | write bytes next => cases hc

end Pending
end ArtifactResolver
