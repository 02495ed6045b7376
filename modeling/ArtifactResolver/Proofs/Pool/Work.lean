import ArtifactResolver.Pool
import ArtifactResolver.Proofs.Report.Coverage

/-!
# Work by its accesses

A worker acts on the world by one access after the other, and between two of them other workers may
go on. Here the work on an item is the tree of the accesses that are still to come, each with what
follows for every world that the worker may find. To make all accesses at once is the action that
the work stands for. How finely an action is split is left open: every action can be taken as a
single access, and a lookup as several.
-/

namespace ArtifactResolver

variable {σ α β : Type}

/-- What is left of the work on an item. -/
inductive Work (σ β : Type) where
  /-- The result is known. -/
  | done (b : β)
  /-- The worker panics. -/
  | panic (p : Panic)
  /-- The world is looked at and changed, and what follows depends on the world that was found. -/
  | access (change : World σ → World σ) (next : World σ → Work σ β)

namespace Work

/-- Makes all accesses. -/
def run : Work σ β → Action σ β
  | done b => return b
  | panic p => throw p
  | access change next => fun w => (next w).run (change w)

/-- The work that goes on with other work when it has come to its result. -/
def andThen (rest : Work σ α) (f : α → Work σ β) : Work σ β :=
  match rest with
  | done a => f a
  | panic p => panic p
  | access change next => access change fun w => (next w).andThen f

/-- Nothing is left but to end. -/
def ofEnd : Except Panic β → Work σ β
  | .ok b => done b
  | .error p => panic p

/-- An action as a single access. -/
def ofAction (a : Action σ β) : Work σ β :=
  access (fun w => (a.finish w).2) fun w => ofEnd (a.finish w).1

/-- The work may end like this, with a result or, if there is none, with a panic, in worlds that
others may have changed between any two accesses. -/
inductive Ends : Work σ β → Option β → Prop where
  | done (b : β) : Ends (done b) (some b)
  | panic (p : Panic) : Ends (panic p) none
  | access {change : World σ → World σ} {next : World σ → Work σ β} {result : Option β}
      (w : World σ) (h : Ends (next w) result) : Ends (access change next) result

theorem run_andThen (rest : Work σ α) (f : α → Work σ β) :
    (rest.andThen f).run = rest.run >>= fun a => (f a).run := by
  funext w
  rw [Action.bind_apply]
  induction rest generalizing w with
  | done a => rfl
  | panic p => rfl
  | access change next ih => exact ih w (change w)

theorem run_ofAction (a : Action σ β) : (ofAction a).run = a := by
  funext w
  show (ofEnd (a.finish w).1).run (a.finish w).2 = a w
  rw [Action.finish]
  cases a w <;> rfl

theorem Ends.of_andThen {rest : Work σ α} {f : α → Work σ β} {b : β}
    (h : (rest.andThen f).Ends (some b)) : ∃ a, rest.Ends (some a) ∧ (f a).Ends (some b) := by
  induction rest with
  | done a => exact ⟨a, .done a, h⟩
  | panic p => cases h
  | access change next ih =>
    cases h with
    | access w h =>
      obtain ⟨a, ha, hb⟩ := ih w h
      exact ⟨a, .access w ha, hb⟩

end Work

/-! ## The work for a report -/

/-- The lookups of a chain, each split into accesses. -/
structure Lookups (c : Chain σ) where
  /-- The accesses of a lookup. -/
  work : {α : Type} → Inquiry α → Work σ (Outcome α)
  /-- Together they are the lookup. -/
  run_work : ∀ {α : Type} (inquiry : Inquiry α), (work inquiry).run = c.reply inquiry

/-- Every lookup of a chain can be taken as one access. -/
instance (c : Chain σ) : Inhabited (Lookups c) :=
  ⟨fun inquiry => .ofAction (c.reply inquiry), fun inquiry => Work.run_ofAction (c.reply inquiry)⟩

namespace Talk

variable {c : Chain σ} (lookups : Lookups c)

/-- The accesses of all lookups of a conversation. -/
def work : Talk β → Work σ β
  | done b => .done b
  | ask inquiry next => (lookups.work inquiry).andThen fun o => (next o).work
  | line l next => .access (fun w => { w with log := w.log ++ [l] }) fun _ => next.work

theorem run_work (t : Talk β) : (t.work lookups).run = t.run c := by
  induction t with
  | done b => rfl
  | ask inquiry next ih =>
    rw [work, Work.run_andThen, lookups.run_work, run]
    exact bind_congr ih
  | line l next ih =>
    funext w
    exact congrFun ih { w with log := w.log ++ [l] }

/-- Whatever others do in between, a conversation comes to its result by some answers. -/
theorem exists_comes_of_ends {t : Talk β} {b : β} (h : (t.work lookups).Ends (some b)) :
    ∃ heard, t.Comes heard b := by
  induction t with
  | done b' =>
    cases h
    exact ⟨[], .done b⟩
  | ask inquiry next ih =>
    obtain ⟨o, _, hnext⟩ := h.of_andThen
    obtain ⟨heard, hcomes⟩ := ih o hnext
    exact ⟨_, .ask hcomes⟩
  | line l next ih =>
    cases h with
    | access w h =>
      obtain ⟨heard, hcomes⟩ := ih h
      exact ⟨_, .line hcomes⟩

end Talk
end ArtifactResolver
