import ArtifactResolver.Transport

/-!
# How actions run

Every action is a function on worlds, and every step of an action has one lemma that says what it
makes of a world. All later proofs run an action by these lemmas.
-/

namespace ArtifactResolver.Action

variable {σ α β : Type}

@[simp] theorem pure_apply (v : α) (w : World σ) : (pure v : Action σ α) w = .ok v w := rfl

/-- A sequence of actions goes on in the world that the first one left, unless that panics. -/
@[simp] theorem bind_apply (a : Action σ α) (f : α → Action σ β) (w : World σ) :
    (a >>= f) w = match a w with
      | .ok v w' => f v w'
      | .error p w' => .error p w' := by
  show EStateM.bind a f w = _
  unfold EStateM.bind
  cases a w <;> rfl

/-- An action that ends with what is made of the value of another one. -/
theorem eq_of_bind_return {a : Action σ α} {f : α → β} {w w' : World σ} {y : β}
    (h : (a >>= fun x => return f x) w = .ok y w') : ∃ x, y = f x := by
  rw [bind_apply] at h
  cases ha : a w with
  | ok x w₁ =>
    rw [ha] at h
    obtain ⟨rfl, _⟩ := EStateM.Result.ok.inj h
    exact ⟨x, rfl⟩
  | error panic w₁ =>
    rw [ha] at h
    cases h

@[simp] theorem map_apply (f : α → β) (a : Action σ α) (w : World σ) :
    (f <$> a) w = match a w with
      | .ok v w' => .ok (f v) w'
      | .error p w' => .error p w' := by
  show EStateM.map f a w = _
  unfold EStateM.map
  cases a w <;> rfl

@[simp] theorem modify_apply (f : World σ → World σ) (w : World σ) :
    (modify f : Action σ Unit) w = .ok () (f w) := rfl

@[simp] theorem env_apply (w : World σ) : (env : Action σ σ) w = .ok w.env w := rfl

@[simp] theorem setEnv_apply (e : σ) (w : World σ) :
    setEnv e w = .ok () { w with env := e } := rfl

@[simp] theorem log_apply (level : Level) (text : String) (w : World σ) :
    log level text w = .ok () { w with log := w.log ++ [⟨level, text⟩] } := rfl

/-- The world in which the body of a locked action runs. -/
def lockedWorld (key : Cache.Key) (w : World σ) : World σ :=
  { w with held := if key ∈ w.held then w.held else key :: w.held }

/-- The world after a locked action has ended with a value. -/
def unlockedWorld (key : Cache.Key) (w : World σ) : World σ :=
  { w with held := w.held.filter (· ≠ key) }

@[simp] theorem withLock_apply (key : Cache.Key) (body : Action σ α) (w : World σ) :
    withLock key body w = match body (lockedWorld key w) with
      | .ok v w' => .ok v (unlockedWorld key w')
      | .error p w' => .error p w' := by
  unfold withLock
  simp only [bind_apply, modify_apply, pure_apply]
  cases h : body (lockedWorld key w) with
  | ok v w' =>
    simp only [lockedWorld] at h
    simp only [h]
    rfl
  | error p w' =>
    simp only [lockedWorld] at h
    simp only [h]

/-! ## How actions end -/

/-- How an action ends, and the world that it leaves. -/
def finish (a : Action σ α) (w : World σ) : Except Panic α × World σ :=
  match a w with
  | .ok v w' => (.ok v, w')
  | .error p w' => (.error p, w')

/-- How an action ends, and the environment that it leaves. -/
def ends (a : Action σ α) (w : World σ) : Except Panic α × σ :=
  match a w with
  | .ok v w' => (.ok v, w'.env)
  | .error p w' => (.error p, w'.env)

theorem finish_fst (a : Action σ α) (w : World σ) : (a.finish w).1 = (a.ends w).1 := by
  rw [finish, ends]
  cases a w <;> rfl

theorem finish_congr {a b : Action σ α} {w : World σ} (h : a w = b w) :
    a.finish w = b.finish w := by
  rw [finish, finish, h]

theorem ends_of_finish {a : Action σ α} {w w' : World σ} {result : Except Panic α}
    (h : a.finish w = (result, w')) : a.ends w = (result, w'.env) := by
  rw [finish] at h
  rw [ends]
  cases ha : a w <;> rw [ha] at h <;> cases h <;> rfl

theorem ends_of_ok {a : Action σ α} {w w' : World σ} {v : α} (h : a w = .ok v w') :
    a.ends w = (.ok v, w'.env) := by
  rw [ends, h]

theorem ends_of_error {a : Action σ α} {w w' : World σ} {p : Panic} (h : a w = .error p w') :
    a.ends w = (.error p, w'.env) := by
  rw [ends, h]

theorem ends_eq_ok_iff {a : Action σ α} {w : World σ} {v : α} {e : σ} :
    a.ends w = (.ok v, e) ↔ ∃ w', a w = .ok v w' ∧ w'.env = e := by
  rw [ends]
  cases a w <;> simp [and_assoc]

/-- How an action ends, the environment that it leaves, and the calls that were made by then. -/
def seen (a : Action σ α) (w : World σ) : Except Panic α × σ × List Call :=
  match a w with
  | .ok v w' => (.ok v, w'.env, w'.calls)
  | .error p w' => (.error p, w'.env, w'.calls)

theorem seen_eq_finish (a : Action σ α) (w : World σ) :
    a.seen w = ((a.finish w).1, (a.finish w).2.env, (a.finish w).2.calls) := by
  rw [seen, finish]
  cases a w <;> rfl

theorem seen_eq_ok_iff {a : Action σ α} {w : World σ} {v : α} {e : σ} {calls : List Call} :
    a.seen w = (.ok v, e, calls) ↔ ∃ w', a w = .ok v w' ∧ w'.env = e ∧ w'.calls = calls := by
  rw [seen]
  cases a w <;> simp [and_assoc]

theorem seen_eq_error_iff {a : Action σ α} {w : World σ} {p : Panic} {e : σ} {calls : List Call} :
    a.seen w = (.error p, e, calls) ↔
      ∃ w', a w = .error p w' ∧ w'.env = e ∧ w'.calls = calls := by
  rw [seen]
  cases a w <;> simp [and_assoc]

theorem ends_of_seen {a : Action σ α} {w : World σ} {result : Except Panic α} {e : σ}
    {calls : List Call} (h : a.seen w = (result, e, calls)) : a.ends w = (result, e) := by
  rw [seen] at h
  rw [ends]
  cases ha : a w <;> rw [ha] at h <;> cases h <;> rfl

/-- The lock has no part in what is seen of an action. -/
theorem withLock_seen (key : Cache.Key) (body : Action σ α) (w : World σ) :
    (withLock key body).seen w = body.seen (lockedWorld key w) := by
  rw [seen, seen, withLock_apply]
  cases body (lockedWorld key w) <;> rfl

/-! ## What actions do not look at -/

/-- The log and the locks have no part in what is seen of the action. -/
def Unaware (a : Action σ α) : Prop :=
  ∀ w w' : World σ, w'.env = w.env → w'.calls = w.calls → a.seen w' = a.seen w

theorem unaware_pure (x : α) : (pure x : Action σ α).Unaware := by
  intro w w' he hc
  show (_, _, _) = (_, _, _)
  rw [he, hc]

theorem unaware_env : (env : Action σ σ).Unaware := by
  intro w w' he hc
  show (_, _, _) = (_, _, _)
  rw [he, hc]

theorem unaware_log (level : Level) (text : String) : (log level text : Action σ Unit).Unaware := by
  intro w w' he hc
  show (_, _, _) = (_, _, _)
  rw [he, hc]

theorem unaware_call {a : Action σ α} (result : σ → Except Panic α) {call : Call}
    (h : ∀ w, ∃ w', w'.env = w.env ∧ w'.calls = w.calls ++ [call] ∧
      a w = ofExcept (result w.env) w') : a.Unaware := by
  intro w w' he hc
  obtain ⟨w₁, he₁, hc₁, h₁⟩ := h w
  obtain ⟨w₁', he₁', hc₁', h₁'⟩ := h w'
  rw [he] at he₁' h₁'
  rw [hc] at hc₁'
  rw [seen, seen, h₁, h₁']
  cases result w.env <;> show (_, _, _) = (_, _, _) <;> rw [he₁, he₁', hc₁, hc₁']

theorem Unaware.bind {a : Action σ α} {f : α → Action σ β} (ha : a.Unaware)
    (hf : ∀ x, (f x).Unaware) : (a >>= f).Unaware := by
  intro w w' he hc
  have hsame := ha w w' he hc
  rw [seen, seen, bind_apply, bind_apply]
  rw [seen, seen] at hsame
  cases hw : a w with
  | ok x w₁ =>
    cases hw' : a w' with
    | ok x' w₁' =>
      rw [hw, hw'] at hsame
      simp only [Prod.mk.injEq, Except.ok.injEq] at hsame
      obtain ⟨rfl, he₁, hc₁⟩ := hsame
      exact hf x' w₁ w₁' he₁ hc₁
    | error panic w₁' =>
      rw [hw, hw'] at hsame
      cases congrArg Prod.fst hsame
  | error panic w₁ =>
    cases hw' : a w' with
    | ok x' w₁' =>
      rw [hw, hw'] at hsame
      cases congrArg Prod.fst hsame
    | error panic' w₁' =>
      rw [hw, hw'] at hsame
      simp only [Prod.mk.injEq, Except.error.injEq] at hsame
      obtain ⟨rfl, he₁, hc₁⟩ := hsame
      dsimp only
      rw [he₁, hc₁]

end ArtifactResolver.Action

/-! ## Actions that write an answer -/

namespace ArtifactResolver.Answering

variable {σ α β : Type}

/-- A write to an open outcome is always accepted. -/
@[simp] theorem outcome_write (r : Resolution α) :
    outcome (write r : Answering σ α Unit) = pure ⟨some r⟩ := rfl

/-- What comes before a write does not touch the outcome. -/
@[simp] theorem outcome_bind (a : Action σ β) (f : β → Answering σ α Unit) :
    outcome (liftM a >>= f) = a >>= fun x => outcome (f x) := by
  show (do return (← (liftM a >>= f : Answering σ α Unit).run .unset).2) = _
  rw [StateT.run_bind, StateT.run_monadLift, bind_assoc, bind_assoc]
  simp only [pure_bind]
  rfl

end ArtifactResolver.Answering
