import ArtifactResolver.Proofs.Availability

/-!
# Outcomes are written once

The first answer that is written to an outcome stays. Every later write is refused and changes
nothing, and the refusal names the state that the first write left; in between the value may be
replaced by what a function makes of it, which keeps the state. The halves of a repository write in
the form that panics when it is refused, and they never are: the only panics that they end with are
those of the site.
-/

namespace ArtifactResolver

variable {σ α β γ : Type}

/-! ## Writes -/

/-- The two forms of a write. -/
inductive Manner where
  /-- The writer looks at a refusal. -/
  | tries
  /-- The writer panics if it is refused. -/
  | insists
deriving DecidableEq, Repr

/-- What comes back to a writer. -/
inductive Response where
  /-- The answer was written. -/
  | accepted
  /-- There is an answer already. -/
  | refused (refusal : AlreadySet)
  /-- There is an answer already, and the writer relied on being the first. -/
  | panicked (panic : Panic)
deriving DecidableEq, Repr

/-- How a write is refused, once there is an answer of this state. -/
def Manner.refusal (state : String) : Manner → Response
  | tries => .refused ⟨state⟩
  | insists => .panicked ⟨AlreadySet.message ⟨state⟩⟩

/-- Writes an answer. What comes of a write that is refused is the outcome as it was, also for
those who go on after a panic. -/
def Outcome.write (o : Outcome α) (r : Resolution α) : Manner → Response × Outcome α
  | .tries =>
    match o.trySet r with
    | .ok written => (.accepted, written)
    | .error refusal => (.refused refusal, o)
  | .insists =>
    match o.set r with
    | .ok written => (.accepted, written)
    | .error panic => (.panicked panic, o)

/-- What is done with an outcome, one thing after the other, by the types of its value at the
beginning and at the end. -/
inductive Handling : Type → Type → Type 1 where
  /-- Nothing more. -/
  | done {α : Type} : Handling α α
  /-- An answer is written. -/
  | write {α β : Type} (manner : Manner) (r : Resolution α) (next : Handling α β) : Handling α β
  /-- The value is replaced. -/
  | map {α β γ : Type} (f : α → γ) (next : Handling γ β) : Handling α β

namespace Handling

/-- What comes back to the writers, and the outcome in the end. -/
def run : {α β : Type} → Handling α β → Outcome α → List Response × Outcome β
  | _, _, done, o => ([], o)
  | _, _, write manner r next, o =>
    let (response, written) := o.write r manner
    let (responses, last) := next.run written
    (response :: responses, last)
  | _, _, map f next, o => next.run (o.map f)

/-- The forms of the writes. -/
def manners : {α β : Type} → Handling α β → List Manner
  | _, _, done => []
  | _, _, write manner _ next => manner :: next.manners
  | _, _, map _ next => next.manners

/-- What becomes of a value. -/
def through : {α β : Type} → Handling α β → α → β
  | _, _, done, value => value
  | _, _, write _ _ next, value => next.through value
  | _, _, map f next, value => next.through (f value)

/-- The one and then the other. -/
def andThen : {α β γ : Type} → Handling α β → Handling β γ → Handling α γ
  | _, _, _, done, others => others
  | _, _, _, write manner r next, others => write manner r (next.andThen others)
  | _, _, _, map f next, others => map f (next.andThen others)

/-- What comes of an outcome that was open: it stays open as long as nobody writes, and after that
it holds the first answer with its value replaced, while all later writers are refused. -/
inductive WrittenOnce {α β : Type} : Handling α β → List Response → Outcome β → Prop where
  | unwritten {h : Handling α β} (hw : h.manners = []) : WrittenOnce h [] .unset
  | written {γ : Type} {before : Handling α γ} {manner : Manner} {r : Resolution γ}
      {after : Handling γ β} (hb : before.manners = []) :
      WrittenOnce (before.andThen (write manner r after))
        (.accepted :: after.manners.map (Manner.refusal r.stateName)) ⟨some (r.map after.through)⟩

end Handling

/-! ## The first answer -/

@[simp] theorem Resolution.stateName_map (f : α → β) (r : Resolution α) :
    (r.map f).stateName = r.stateName := by
  cases r <;> rfl

theorem Resolution.map_map (f : α → β) (g : β → γ) (r : Resolution α) :
    (r.map f).map g = r.map fun value => g (f value) := by
  cases r <;> rfl

theorem Resolution.map_id (r : Resolution α) : (r.map fun value => value) = r := by
  cases r <;> rfl

theorem Outcome.write_unset (r : Resolution α) (manner : Manner) :
    (unset : Outcome α).write r manner = (.accepted, ⟨some r⟩) := by
  cases manner <;> rfl

theorem Outcome.write_of_set (first r : Resolution α) (manner : Manner) :
    (⟨some first⟩ : Outcome α).write r manner =
      (manner.refusal first.stateName, ⟨some first⟩) := by
  cases manner <;> rfl

namespace Handling

/-- Once there is an answer, all writers are refused, and only its value changes. -/
theorem run_of_set (h : Handling α β) (first : Resolution α) : h.run ⟨some first⟩ =
    (h.manners.map (Manner.refusal first.stateName), ⟨some (first.map h.through)⟩) := by
  induction h with
  | done =>
    show _ = ([], (⟨some (first.map fun value => value)⟩ : Outcome _))
    rw [Resolution.map_id]
    rfl
  | write manner r next ih =>
    rw [run, Outcome.write_of_set]
    dsimp only
    rw [ih first]
    rfl
  | map f next ih =>
    show next.run ⟨some (first.map f)⟩ = _
    rw [ih, Resolution.stateName_map, Resolution.map_map]
    rfl

theorem WrittenOnce.map {f : α → γ} {h : Handling γ β} {responses : List Response} {o : Outcome β}
    (hh : h.WrittenOnce responses o) : (Handling.map f h).WrittenOnce responses o := by
  cases hh with
  | unwritten hw => exact .unwritten hw
  | @written _ before manner r after hb =>
    exact @written _ _ _ (.map f before) manner r after hb

/-- What is done with an open outcome up to the first write leaves it open. -/
theorem run_unset (h : Handling α β) : h.WrittenOnce (h.run .unset).1 (h.run .unset).2 := by
  induction h with
  | done => exact .unwritten rfl
  | write manner r next _ =>
    rw [run, Outcome.write_unset]
    dsimp only
    rw [run_of_set]
    exact @WrittenOnce.written _ _ _ .done manner r next rfl
  | map f next ih => exact ih.map

end Handling

/-! ## The halves of a repository -/

/-- A second write within a lookup is a panic. -/
theorem Answering.write_of_set (first r : Resolution α) (w : World σ) :
    (write r : Answering σ α Unit) ⟨some first⟩ w =
      .error ⟨AlreadySet.message ⟨first.stateName⟩⟩ w := rfl

namespace Repository

/-- The site panics when it is called, and there is no limit that would keep the panic from the
caller. -/
inductive CallPanics (r : Repository σ) (env : σ) : Call → Panic → Prop where
  | fetch {location text : String} (hl : r.transport.limit = none)
      (h : r.transport.fetch env location = .panics text) :
      CallPanics r env ⟨.fetch, r.name, location⟩ ⟨text⟩
  | probe {location text : String} (hl : r.transport.limit = none)
      (h : r.transport.probe env location = .panics text) :
      CallPanics r env ⟨.probe, r.name, location⟩ ⟨text⟩

variable {r : Repository σ} {q : Query α} {env env' : σ} {calls calls' : List Call} {call : Call}
  {panic : Panic}

theorem panics_of_settled {t : Transport σ} {location : String} {reply : Reply β}
    (h : t.settled location reply = .error panic) : reply = .panics panic.text := by
  have hl := limit_of_settled h
  cases reply with
  | panics text =>
    simp only [Transport.settled, hl] at h
    rw [← Except.error.inj h]
  | answers delay answer =>
    simp only [Transport.settled, hl] at h
    cases h

theorem callPanics_of_content (hc : r.call? q = some call)
    (h : r.siteContent env q = .error panic) : r.CallPanics env call panic := by
  have hl := limit_of_panic h
  cases q with
  | artifacts m category =>
    obtain ⟨candidate, hcandidate, rfl⟩ := Option.map_eq_some_iff.1 hc
    rw [siteContent_of_candidate hcandidate] at h
    cases hprobe : r.probed env (r.format.artifactLocation candidate) with
    | error panic' =>
      rw [hprobe] at h
      obtain rfl := Except.error.inj h
      exact .probe hl (panics_of_settled hprobe)
    | ok answer =>
      rw [hprobe] at h
      cases h
  | _ =>
    obtain rfl := Option.some.inj hc
    exact .fetch hl (panics_of_settled h)

/-- A lookup of the remote half that panics does so with the call that it has just made. -/
theorem RemoteCourse.exists_call {result : Except Panic (Outcome α)}
    (h : r.RemoteCourse q env calls (result, env', calls')) (hp : result = .error panic) :
    ∃ call, r.call? q = some call ∧ r.CallPanics env call panic ∧ calls' = calls ++ [call] := by
  cases h with
  | idle => cases hp
  | reused => cases hp
  | answered hc =>
    exact ⟨_, hc, callPanics_of_content hc (siteAnswer_eq_error_iff.1 hp), rfl⟩
  | kept => cases hp

/-- None of the halves of a repository makes a second write to its outcome, which would be a
panic. -/
structure WritesOnce (r : Repository σ) (q : Query α) (w : World σ) : Prop where
  /-- The local half does not panic. -/
  locally : ∃ o w', r.localHalf.answer q w = .ok o w'
  /-- Neither does the half that takes the place of the remote one offline. -/
  offline : ∃ o w', r.member.offline.remoteHalf.answer q w = .ok o w'
  /-- The remote half does not either, unless the site panics when it is called. -/
  remotely : (∃ o w', r.remoteHalf.answer q w = .ok o w') ∨
    ∃ call panic w', r.call? q = some call ∧ r.CallPanics w.env call panic ∧
      r.remoteHalf.answer q w = .error panic w' ∧ w'.calls = w.calls ++ [call]

theorem writesOnce (r : Repository σ) (q : Query α) (w : World σ) : r.WritesOnce q w := by
  refine ⟨⟨_, w, r.localHalf_answer q w⟩, ⟨_, w, offlineHalf_answer q w⟩, ?_⟩
  have hcourse := r.remoteHalf_course q w
  cases hanswer : r.remoteHalf.answer q w with
  | ok o w' => exact Or.inl ⟨o, w', rfl⟩
  | error panic w' =>
    rw [Action.seen, hanswer] at hcourse
    obtain ⟨call, hc, hpanics, hcalls⟩ := hcourse.exists_call rfl
    exact Or.inr ⟨call, panic, w', hc, hpanics, rfl, hcalls⟩

end Repository

/-- Whatever is done with an open outcome, the first answer stays and every later writer is refused
with its state. A writer within a lookup that was refused would panic, and no lookup of any half of
a repository ends with a panic of its own, whatever the cache holds and the site answers. -/
theorem written_once :
    (∀ {α β : Type} (h : Handling α β), h.WrittenOnce (h.run .unset).1 (h.run .unset).2) ∧
    (∀ {σ α : Type} (first r : Resolution α) (w : World σ),
      (Answering.write r : Answering σ α Unit) ⟨some first⟩ w =
        .error ⟨AlreadySet.message ⟨first.stateName⟩⟩ w) ∧
    ∀ {σ α : Type} (r : Repository σ) (q : Query α) (w : World σ), r.WritesOnce q w :=
  ⟨fun h => h.run_unset, fun first r w => Answering.write_of_set first r w,
    fun r q w => r.writesOnce q w⟩

end ArtifactResolver
