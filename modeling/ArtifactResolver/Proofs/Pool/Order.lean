import ArtifactResolver.Proofs.Pool.Steps
import Mathlib.Logic.Hydra
import Mathlib.Order.WellFounded

/-!
# Pools end with their results in order

Whatever the workers of a pool do first, it comes to an end: there is always something left to do
until the pool has its verdict, and it cannot go on for ever. If nobody interrupts it, the verdict
is the list of all results in the order of the items, or that a worker panicked. One of the ways to
get there is to work on one item after the other.
-/

namespace ArtifactResolver.Pool

open List

variable {σ α β : Type}

/-! ## Every pool comes to an end -/

/-- A task is closer to its end than before. -/
inductive Task.Below : Task σ β → Task σ β → Prop where
  | spawned (rest : Work σ β) : Below (queued rest) (waiting rest)
  | begun (rest : Work σ β) : Below (busy rest) (queued rest)
  | access (change : World σ → World σ) (next : World σ → Work σ β) (w : World σ) :
      Below (busy (next w)) (busy (.access change next))
  | ended (rest : Work σ β) (result : Option β) : Below (ended result) (busy rest)
  | joined (result : Option β) : Below (joined result) (ended result)
  | dropped (rest : Work σ β) : Below dropped (queued rest)

theorem Turn.below {pre post : List (Task σ β)} {b b' : Board σ β} {t t' : Task σ β}
    (h : Turn pre post b t b' t') : t'.Below t := by
  cases h with
  | spawn => exact .spawned _
  | begin => exact .begun _
  | access => exact .access _ _ _
  | returns => exact .ended _ _
  | panics => exact .ended _ _
  | collect => exact .joined _
  | fail => exact .joined _
  | drop => exact .dropped _

/-- Work is a tree without endless branches, so every task comes to its end. -/
theorem Task.wellFounded_below : WellFounded (Below (σ := σ) (β := β)) := by
  have hjoined : ∀ result, Acc Below (joined (σ := σ) (β := β) result) := by
    intro result
    exact ⟨_, nofun⟩
  have hdropped : Acc Below (dropped : Task σ β) := ⟨_, nofun⟩
  have hended : ∀ result, Acc Below (ended (σ := σ) (β := β) result) := by
    refine fun result => ⟨_, fun t ht => ?_⟩
    cases ht with
    | joined => exact hjoined result
  have hbusy : ∀ rest : Work σ β, Acc Below (busy rest) := by
    intro rest
    induction rest with
    | done v =>
      refine ⟨_, fun t ht => ?_⟩
      cases ht with
      | ended => exact hended _
    | panic p =>
      refine ⟨_, fun t ht => ?_⟩
      cases ht with
      | ended => exact hended _
    | access change next ih =>
      refine ⟨_, fun t ht => ?_⟩
      cases ht with
      | access => exact ih _
      | ended => exact hended _
  have hqueued : ∀ rest : Work σ β, Acc Below (queued rest) := by
    refine fun rest => ⟨_, fun t ht => ?_⟩
    cases ht with
    | begun => exact hbusy rest
    | dropped => exact hdropped
  refine ⟨fun t => ?_⟩
  cases t with
  | waiting rest =>
    refine ⟨_, fun t ht => ?_⟩
    cases ht with
    | spawned => exact hqueued rest
  | queued rest => exact hqueued rest
  | busy rest => exact hbusy rest
  | ended result => exact hended result
  | joined result => exact hjoined result
  | dropped => exact hdropped

/-- What is left to do: the verdict, and every task that is not at its end. -/
def State.left (s : State σ β) : Nat × Multiset (Task σ β) :=
  (s.board.verdict.isNone.toNat, s.tasks)

theorem Step.left {s s' : State σ β} (h : Step s s') :
    Prod.Lex (· < ·) (Relation.CutExpand Task.Below) s'.left s.left := by
  cases h with
  | @turn pre post b b' t t' ht =>
    have htasks : Relation.CutExpand Task.Below
        (↑(pre ++ t' :: post) : Multiset (Task σ β)) ↑(pre ++ t :: post) := by
      rw [← Multiset.coe_add, ← Multiset.coe_add, ← Multiset.cons_coe, ← Multiset.cons_coe,
        ← Multiset.singleton_add, ← Multiset.singleton_add, Relation.cutExpand_add_left,
        Relation.cutExpand_add_right]
      exact Relation.cutExpand_singleton_singleton ht.below
    show Prod.Lex _ _ (b'.verdict.isNone.toNat, _) (b.verdict.isNone.toNat, _)
    cases hv : b.verdict with
    | none =>
      cases hv' : b'.verdict with
      | none => exact .right _ htasks
      | some v => exact .left _ _ Nat.zero_lt_one
    | some v =>
      cases hv' : b'.verdict with
      | none => cases hv.symm.trans (ht.verdict_eq_none hv').1
      | some v' => exact .right _ htasks
  | finish hv _ =>
    show Prod.Lex _ _ (0, _) (Option.isNone _ |>.toNat, _)
    rw [hv]
    exact .left _ _ Nat.zero_lt_one
  | interrupt hv _ =>
    show Prod.Lex _ _ (0, _) (Option.isNone _ |>.toNat, _)
    rw [hv]
    exact .left _ _ Nat.zero_lt_one

/-- No pool goes on for ever. -/
theorem wellFounded_step : WellFounded fun s' s : State σ β => Step s s' :=
  Subrelation.wf Step.left
    (InvImage.wf State.left (wellFounded_lt.prod_lex Task.wellFounded_below.cutExpand))

/-! ## There is always something left to do -/

theorem exists_first_waiting {tasks : List (Task σ β)} (h : ¬ ∀ t ∈ tasks, t.IsSpawned) :
    ∃ pre rest post, tasks = pre ++ .waiting rest :: post ∧ ∀ t ∈ pre, t.IsSpawned := by
  induction tasks with
  | nil => exact absurd (fun t ht => absurd ht not_mem_nil) h
  | cons t tasks ih =>
    by_cases ht : t.IsSpawned
    · obtain ⟨pre, rest, post, rfl, hpre⟩ := ih fun hall => h (forall_mem_cons.2 ⟨ht, hall⟩)
      exact ⟨t :: pre, rest, post, rfl, forall_mem_cons.2 ⟨ht, hpre⟩⟩
    · simp only [Task.IsSpawned, not_forall, not_not] at ht
      obtain ⟨rest, rfl⟩ := ht
      exact ⟨[], rest, tasks, rfl, fun t ht => absurd ht not_mem_nil⟩

/-- Until it has its verdict, a pool can go on without being interrupted. -/
theorem Sound.exists_step {permits : Nat} {work : α → Work σ β} {items : List α} {s : State σ β}
    (h : Sound permits work items s) (hp : 0 < permits) (hv : s.board.verdict = none) :
    ∃ s', Step s s' ∧ s'.board.verdict ≠ some .interrupted := by
  obtain ⟨b, tasks⟩ := s
  have hopen : b.verdict ≠ some .interrupted := by
    intro hi
    cases hv.symm.trans hi
  by_cases hholds : ∃ t ∈ tasks, t.holds = true
  · -- a worker that has a permit can always go on
    obtain ⟨t, ht, hholds⟩ := hholds
    obtain ⟨pre, post, rfl⟩ := append_of_mem ht
    cases t with
    | queued rest => exact ⟨_, .turn .begin, hopen⟩
    | busy rest =>
      cases rest with
      | done v => exact ⟨_, .turn .returns, hopen⟩
      | panic p => exact ⟨_, .turn .panics, hopen⟩
      | access change next => exact ⟨_, .turn .access, hopen⟩
    | _ => cases hholds
  · -- otherwise all permits are free
    have hnone : tasks.countP Task.holds = 0 :=
      countP_eq_zero.2 fun t ht hh => hholds ⟨t, ht, hh⟩
    have hfree : b.free = permits := by
      have hpermits := h.permits
      simp only [State.holders, hnone] at hpermits
      exact hpermits
    by_cases hall : ∀ t ∈ tasks, t.IsSpawned
    · by_cases hended : ∃ result, .ended result ∈ tasks
      · obtain ⟨result, ht⟩ := hended
        obtain ⟨pre, post, rfl⟩ := append_of_mem ht
        have hpre := fun t ht => hall t (mem_append_left _ ht)
        have hpost := fun t ht => hall t (mem_append_right _ (mem_cons_of_mem _ ht))
        cases result with
        | some v => exact ⟨_, .turn (.collect hv hpre hpost), hopen⟩
        | none => exact ⟨_, .turn (.fail hv hpre hpost), by simp⟩
      · refine ⟨_, .finish hv fun t ht => ?_, by simp⟩
        cases t with
        | waiting rest => exact absurd rfl (hall _ ht rest)
        | queued rest => exact absurd ⟨_, ht, rfl⟩ hholds
        | busy rest => exact absurd ⟨_, ht, rfl⟩ hholds
        | ended result => exact absurd ⟨result, ht⟩ hended
        | joined result => exact ⟨result, rfl⟩
        | dropped => exact absurd rfl (h.undecided hv _ ht).2
    · obtain ⟨pre, rest, post, rfl, hpre⟩ := exists_first_waiting hall
      exact ⟨_, .turn (.spawn hv hpre (hfree.trans (Nat.succ_pred_eq_of_pos hp).symm)), hopen⟩

/-! ## One item after the other -/

theorem steps_of_work (rest : Work σ β) (b : Board σ β) (pre post : List (Task σ β)) :
    Steps ⟨b, pre ++ .busy rest :: post⟩
      ⟨{ b with
          world := (rest.run.finish b.world).2
          free := b.free + 1
          notes := b.notes ++ [(pre.length, .ended (rest.run.finish b.world).1.toOption)] },
        pre ++ .ended (rest.run.finish b.world).1.toOption :: post⟩ := by
  induction rest generalizing b with
  | done v => exact .single (.turn .returns)
  | panic p => exact .single (.turn .panics)
  | access change next ih =>
    exact .head (.turn .access) (ih b.world { b with world := change b.world })

/-- A pool may end the work on an item before it spawns the next task. -/
theorem steps_of_item (rest : Work σ β) (post : List (Task σ β)) {b : Board σ β}
    {pre : List (Task σ β)} {free : Nat} (hv : b.verdict = none) (hpre : ∀ t ∈ pre, t.IsSpawned)
    (hfree : b.free = free + 1) :
    ∃ notes, Steps ⟨b, pre ++ .waiting rest :: post⟩
      ⟨{ b with world := (rest.run.finish b.world).2, notes := notes },
        pre ++ .ended (rest.run.finish b.world).1.toOption :: post⟩ := by
  obtain ⟨w, _, notes, results, verdict⟩ := b
  obtain rfl : _ = free + 1 := hfree
  exact ⟨_, .head (.turn (.spawn hv hpre rfl))
    (.head (.turn .begin) (steps_of_work rest _ pre post))⟩

theorem attempt_apply (work : α → Action σ β) (a : α) (w : World σ) :
    attempt work a w = .ok ((work a).finish w).1.toOption ((work a).finish w).2 := by
  rw [attempt, Action.finish]
  cases work a w <;> rfl

/-- A pool may end the work on all items, one after the other, before it joins a task. -/
theorem exists_steps_attempts (work : α → Work σ β) (items : List α) (pre : List (Task σ β))
    {b : Board σ β} {free : Nat} (hv : b.verdict = none) (hpre : ∀ t ∈ pre, t.IsSpawned)
    (hfree : b.free = free + 1) : ∃ results w' notes,
      items.mapM (attempt fun a => (work a).run) b.world = .ok results w' ∧
      Steps ⟨b, pre ++ items.map fun a => .waiting (work a)⟩
        ⟨{ b with world := w', notes := notes }, pre ++ results.map .ended⟩ := by
  induction items generalizing b pre with
  | nil => exact ⟨[], b.world, b.notes, rfl, .refl⟩
  | cons a items ih =>
    obtain ⟨notes, hitem⟩ := steps_of_item (work a) (items.map fun a => .waiting (work a)) hv hpre
      hfree
    let result := ((work a).run.finish b.world).1.toOption
    let b₁ : Board σ β := { b with world := ((work a).run.finish b.world).2, notes := notes }
    have hpre₁ : ∀ t ∈ pre ++ [.ended result], t.IsSpawned := by
      intro t ht
      rcases mem_append.1 ht with ht | ht
      · exact hpre t ht
      · obtain rfl := mem_singleton.1 ht
        exact nofun
    obtain ⟨results, w', notes', hmap, hsteps⟩ :=
      ih (pre ++ [.ended result]) (b := b₁) hv hpre₁ hfree
    refine ⟨result :: results, w', notes', ?_, ?_⟩
    · rw [mapM_cons, Action.bind_apply, attempt_apply]
      dsimp only
      rw [Action.bind_apply, hmap]
      rfl
    · rw [append_assoc, append_assoc] at hsteps
      exact hitem.trans hsteps

/-- A pool that has joined all its tasks has their results next. -/
theorem Sound.exists_finish {permits : Nat} {work : α → Work σ β} {items : List α} {s : State σ β}
    (h : Sound permits work items s) (hv : s.board.verdict = none) {rs : List β}
    (htasks : s.tasks = rs.map fun v => .joined (some v)) :
    ∃ s', Step s s' ∧ s'.board.world = s.board.world ∧
      s'.board.verdict = some (.finished rs) := by
  obtain ⟨b, tasks⟩ := s
  have hall : ∀ t ∈ tasks, ∃ result, t = .joined result := by
    intro t ht
    obtain rfl : tasks = _ := htasks
    obtain ⟨v, _, rfl⟩ := mem_map.1 ht
    exact ⟨some v, rfl⟩
  have hfinish : Step ⟨b, tasks⟩ _ := .finish hv hall
  have hresults := (h.step hfinish).finished _ rfl
  have hinj : Function.Injective fun v => (Task.joined (some v) : Task σ β) := by
    intro v v' heq
    simpa using heq
  obtain rfl := map_injective_iff.2 hinj (hresults.symm.trans htasks)
  exact ⟨_, hfinish, rfl, rfl⟩

/-- Once the work on all items has ended, a pool may join the tasks in the order of the items. -/
theorem Sound.exists_steps_join {permits : Nat} {work : α → Work σ β} {items : List α}
    (results : List (Option β)) (vs : List β) {b : Board σ β}
    (h : Sound permits work items
      ⟨b, (vs.map fun v => .joined (some v)) ++ results.map .ended⟩)
    (hv : b.verdict = none) :
    ∃ s, Steps ⟨b, (vs.map fun v => .joined (some v)) ++ results.map .ended⟩ s ∧
      s.board.world = b.world ∧
      s.board.verdict = some (.of ((results.mapM id).map (vs ++ ·))) := by
  induction results generalizing b vs with
  | nil =>
    obtain ⟨s, hfinish, hworld, hs⟩ := h.exists_finish hv (append_nil _)
    refine ⟨s, .single hfinish, hworld, ?_⟩
    rw [hs, mapM_nil]
    exact congrArg (fun rs => some (Verdict.finished rs)) (append_nil vs).symm
  | cons result results ih =>
    have hpre : ∀ t ∈ vs.map fun v => (.joined (some v) : Task σ β), t.IsSpawned := by
      intro t ht
      obtain ⟨v, _, rfl⟩ := mem_map.1 ht
      exact nofun
    have hpost : ∀ t ∈ results.map (.ended : Option β → Task σ β), t.IsSpawned := by
      intro t ht
      obtain ⟨v, _, rfl⟩ := mem_map.1 ht
      exact nofun
    cases result with
    | none => exact ⟨_, .single (.turn (.fail hv hpre hpost)), rfl, rfl⟩
    | some v =>
      have hcollect : Step ⟨b, (vs.map fun v => .joined (some v)) ++ .ended (some v) ::
          results.map .ended⟩ _ := .turn (.collect hv hpre hpost)
      have hsound := h.step hcollect
      have htasks : (vs.map fun v => (.joined (some v) : Task σ β)) ++ .joined (some v) ::
          results.map .ended = ((vs ++ [v]).map fun v => .joined (some v)) ++
            results.map .ended := by
        simp
      rw [htasks] at hsound hcollect
      obtain ⟨s, hsteps, hworld, hs⟩ := ih (vs ++ [v]) hsound hv
      refine ⟨s, .head hcollect hsteps, hworld, ?_⟩
      rw [hs, mapM_cons]
      cases results.mapM id with
      | none => rfl
      | some more =>
        exact congrArg (fun rs => some (Verdict.finished rs)) (append_assoc vs [v] more)

theorem run_of_mapM {jobs : Nat} (hjobs : jobs ≤ maxWorkers) {work : α → Action σ β}
    {items : List α} {w w' : World σ} {results : List (Option β)}
    (h : items.mapM (attempt work) w = .ok results w') :
    run jobs work items w = .ok (results.mapM id) w' := by
  have hrun : run jobs work items =
      items.mapM (attempt work) >>= fun results => pure (results.mapM id) := by
    rw [run, if_neg (Nat.not_lt.2 hjobs)]
  rw [hrun, Action.bind_apply, h]
  rfl

/-- One of the ways for a pool to come to its verdict is that of `run`. -/
theorem exists_steps_run {jobs : Nat} (hjobs : jobs ≤ maxWorkers) (work : α → Work σ β)
    (items : List α) (w : World σ) : ∃ result s,
      run jobs (fun a => (work a).run) items w = .ok result s.board.world ∧
      Steps (start jobs work items w) s ∧ s.board.verdict = some (.of result) := by
  have hfree : max jobs 1 = (max jobs 1 - 1) + 1 := by omega
  obtain ⟨results, w', notes, hmap, hworks⟩ := exists_steps_attempts work items []
    (b := { world := w, free := max jobs 1 }) rfl (fun t ht => absurd ht not_mem_nil) hfree
  have hsound := (Sound.start jobs work items w).steps hworks
  obtain ⟨s, hjoins, hworld, hs⟩ := hsound.exists_steps_join results [] rfl
  have hresult : (results.mapM id).map (([] : List β) ++ ·) = results.mapM id := by
    cases results.mapM id <;> rfl
  rw [hresult] at hs
  refine ⟨results.mapM id, s, ?_, hworks.trans hjoins, hs⟩
  rw [hworld]
  exact run_of_mapM hjobs hmap

/-! ## What is promised -/

theorem mapM_eq_some_iff {f : α → Option β} {items : List α} {rs : List β} :
    items.mapM f = some rs ↔ Forall₂ (fun a v => f a = some v) items rs := by
  induction items generalizing rs with
  | nil =>
    rw [mapM_nil, forall₂_nil_left_iff]
    exact ⟨fun h => (Option.some.inj h).symm, fun h => h ▸ rfl⟩
  | cons a items ih =>
    rw [mapM_cons, forall₂_cons_left_iff]
    simp only [← ih, Option.bind_eq_bind, Option.bind_eq_some_iff, Option.pure_def,
      Option.some.injEq, eq_comm (a := rs), exists_and_left]

theorem mapM_eq_none_of_mem {f : α → Option β} {items : List α} {a : α} (ha : a ∈ items)
    (hf : f a = none) : items.mapM f = none := by
  induction ha with
  | head items =>
    rw [mapM_cons, hf]
    rfl
  | @tail b items _ ih =>
    rw [mapM_cons, ih]
    cases f b <;> rfl

/-- What is promised of every state that a pool comes to. -/
structure Orderly (jobs : Nat) (work : α → Work σ β) (items : List α) (s : State σ β) : Prop where
  /-- No more items have a permit than there may be jobs. -/
  bounded : s.holders ≤ max jobs 1
  /-- No item is worked on twice. -/
  once : ∀ i, s.notesOn i = [] ∨ s.notesOn i = [.begun] ∨
    ∃ result, s.notesOn i = [.begun, .ended result]
  /-- Until it has its verdict, the pool can go on without being interrupted. -/
  goes_on : s.board.verdict = none → ∃ s', Step s s' ∧ s'.board.verdict ≠ some .interrupted
  /-- A pool with results has worked on every item, and they are what the work on the items came to,
  in the order of the items. -/
  finished : ∀ rs, s.board.verdict = some (.finished rs) →
    Forall₂ (fun a v => (work a).Ends (some v)) items rs ∧
      ∀ i, s.notesOn i = (rs[i]?.map fun v => [.begun, .ended (some v)]).getD []
  /-- A pool does not fail without a panic. -/
  failed : s.board.verdict = some .failed → ∃ i : Nat, s.notesOn i = [.begun, .ended none]
  /-- After a panic the pool fails, unless it is interrupted. -/
  panicked : ∀ i v, s.notesOn i = [.begun, .ended none] → s.board.verdict = some v →
    v = .failed ∨ v = .interrupted
  /-- Where the worlds in between make no difference to the ends of the work, the verdict is known
  from the start, unless the pool is interrupted. -/
  determined : ∀ f : α → Option β, (∀ a ∈ items, ∀ result, (work a).Ends result → result = f a) →
    ∀ v, s.board.verdict = some v → v = .of (items.mapM f) ∨ v = .interrupted

theorem Task.history_cases (t : Task σ β) : t.history = [] ∨ t.history = [.begun] ∨
    ∃ result, t.history = [.begun, .ended result] := by
  cases t with
  | busy rest => exact Or.inr (Or.inl rfl)
  | ended result => exact Or.inr (Or.inr ⟨result, rfl⟩)
  | joined result => exact Or.inr (Or.inr ⟨result, rfl⟩)
  | _ => exact Or.inl rfl

namespace Sound

variable {permits : Nat} {work : α → Work σ β} {items : List α} {s : State σ β}

theorem ends_of_finished (h : Sound permits work items s) {rs : List β}
    (hv : s.board.verdict = some (.finished rs)) :
    Forall₂ (fun a v => (work a).Ends (some v)) items rs := by
  have hworks := h.works
  rw [h.finished rs hv, forall₂_map_right_iff] at hworks
  exact hworks.imp fun a v ha => ha (some v) rfl

theorem notesOn_of_finished (h : Sound permits work items s) {rs : List β}
    (hv : s.board.verdict = some (.finished rs)) (i : Nat) :
    s.notesOn i = (rs[i]?.map fun v => [.begun, .ended (some v)]).getD [] := by
  rw [h.told, h.finished rs hv, getElem?_map, Option.map_map]
  rfl

theorem exists_panic (h : Sound permits work items s) (hv : s.board.verdict = some .failed) :
    (∃ i : Nat, s.notesOn i = [.begun, .ended none]) ∧ ∃ a ∈ items, (work a).Ends none := by
  obtain ⟨i, hlt, hi⟩ := getElem_of_mem (h.failed hv)
  refine ⟨⟨i, ?_⟩, ?_⟩
  · rw [h.told, getElem?_eq_getElem hlt, hi]
    rfl
  · have hlt' : i < items.length := h.works.length_eq ▸ hlt
    have hends := h.works.get hlt' hlt
    rw [get_eq_getElem, get_eq_getElem, hi] at hends
    exact ⟨items[i], getElem_mem hlt', hends none rfl⟩

theorem orderly {jobs : Nat} (h : Sound (max jobs 1) work items s) :
    Orderly jobs work items s where
  bounded := by
    have hpermits := h.permits
    omega
  once i := by
    rw [h.told]
    cases s.tasks[i]? with
    | none => exact Or.inl rfl
    | some t => exact t.history_cases
  goes_on hv := h.exists_step (Nat.le_max_right jobs 1) hv
  finished rs hv := ⟨h.ends_of_finished hv, h.notesOn_of_finished hv⟩
  failed hv := (h.exists_panic hv).1
  panicked i v hi hv := by
    cases v with
    | finished rs =>
      rw [h.notesOn_of_finished hv i] at hi
      cases hrs : rs[i]? with
      | none =>
        rw [hrs] at hi
        cases hi
      | some v =>
        rw [hrs] at hi
        cases hi
    | failed => exact Or.inl rfl
    | interrupted => exact Or.inr rfl
  determined f hf v hv := by
    cases v with
    | finished rs =>
      have hends := (forall₂_and_left items rs).2 ⟨hf, h.ends_of_finished hv⟩
      have hvalues : Forall₂ (fun a v => f a = some v) items rs :=
        hends.imp fun a v ha => (ha.1 (some v) ha.2).symm
      rw [mapM_eq_some_iff.2 hvalues]
      exact Or.inl rfl
    | failed =>
      obtain ⟨_, a, ha, hpanics⟩ := h.exists_panic hv
      rw [mapM_eq_none_of_mem ha (hf a ha none hpanics).symm]
      exact Or.inl rfl
    | interrupted => exact Or.inr rfl

end Sound

/-- Under every schedule of its workers a pool keeps what is promised, and none is endless. One of
them is to work on one item after the other, as `run` does. So the reports on modules come in the
order of the selectors, each on what was asked for with its selector. -/
theorem results_in_order {jobs : Nat} (hjobs : jobs ≤ maxWorkers) (w : World σ) :
    (∀ {α β : Type} (work : α → Work σ β) (items : List α),
      (∀ s, Steps (start jobs work items w) s → Orderly jobs work items s) ∧
      (¬ ∃ f : Nat → State σ β, f 0 = start jobs work items w ∧ ∀ k, Step (f k) (f (k + 1))) ∧
      ∃ result s, run jobs (fun a => (work a).run) items w = .ok result s.board.world ∧
        Steps (start jobs work items w) s ∧ s.board.verdict = some (.of result)) ∧
    ∀ (c : Chain σ) (lookups : Lookups c) (request : ModuleRequest) (selectors : List Selector),
      run jobs (fun selector => ((request.talk selector).work lookups).run) selectors =
        c.reports jobs request selectors ∧
      ∀ s, Steps (start jobs (fun selector => (request.talk selector).work lookups) selectors w) s →
        ∀ reports, s.board.verdict = some (.finished reports) →
          Forall₂ (fun selector r => r.selector = selector ∧
            ∃ heard, r.Covers request selector heard) selectors reports := by
  refine ⟨fun work items => ⟨fun s hs => ?_, ?_, exists_steps_run hjobs work items w⟩,
    fun c lookups request selectors => ⟨?_, fun s hs reports hv => ?_⟩⟩
  · exact ((Sound.start jobs work items w).steps hs).orderly
  · rintro ⟨f, _, hf⟩
    exact (wellFounded_iff_isEmpty_descending_chain.1 wellFounded_step).false ⟨f, hf⟩
  · rw [Chain.reports]
    congr 1
    funext selector
    rw [Talk.run_work, Talk.run_talk]
  · have hends := ((Sound.start jobs _ selectors w).steps hs).ends_of_finished hv
    refine hends.imp fun selector r hr => ?_
    obtain ⟨heard, hcomes⟩ := Talk.exists_comes_of_ends lookups hr
    have hcovers := ModuleRequest.covers_of_comes hcomes
    exact ⟨hcovers.selector_eq, heard, hcovers⟩

/-! ## A task that overtakes another -/

/-- Work that counts its items and squares them. -/
def square (n : Nat) : Work Nat Nat :=
  .access (fun w => { w with env := w.env + 1 }) fun _ => .done (n * n)

/-- Of two items, the second one was begun, ended and joined first. -/
def overtaken : State Nat Nat where
  board :=
    { world := { env := 2 }
      free := 2
      notes := [(1, .begun), (1, .ended (some 16)), (0, .begun), (0, .ended (some 9))]
      results := [(1, 16), (0, 9)]
      verdict := some (.finished (inOrder [(1, 16), (0, 9)])) }
  tasks := [.joined (some 9), .joined (some 16)]

theorem steps_overtaken : Steps (start 2 square [3, 4] { env := 0 }) overtaken := by
  have hspawned : ∀ t ∈ [(.queued (square 3) : Task Nat Nat)], t.IsSpawned := by
    simp [Task.IsSpawned]
  have hended : ∀ t ∈ [(.ended (some 9) : Task Nat Nat)], t.IsSpawned := by
    simp [Task.IsSpawned]
  have hjoined : ∀ t ∈ [(.joined (some 16) : Task Nat Nat)], t.IsSpawned := by
    simp [Task.IsSpawned]
  exact .head (@Step.turn _ _ [] _ _ _ _ _ (.spawn rfl (by simp) rfl)) <|
    .head (@Step.turn _ _ [.queued (square 3)] _ _ _ _ _ (.spawn rfl hspawned rfl)) <|
    .head (@Step.turn _ _ [.queued (square 3)] _ _ _ _ _ .begin) <|
    .head (@Step.turn _ _ [.queued (square 3)] _ _ _ _ _ .access) <|
    .head (@Step.turn _ _ [.queued (square 3)] _ _ _ _ _ .returns) <|
    .head (@Step.turn _ _ [] _ _ _ _ _ .begin) <|
    .head (@Step.turn _ _ [] _ _ _ _ _ .access) <|
    .head (@Step.turn _ _ [] _ _ _ _ _ .returns) <|
    .head (@Step.turn _ _ [.ended (some 9)] _ _ _ _ _ (.collect rfl hended (by simp))) <|
    .head (@Step.turn _ _ [] _ _ _ _ _ (.collect rfl (by simp) hjoined)) <|
    .single (.finish rfl (by simp))

theorem square_overtaken : Steps (start 2 square [3, 4] { env := 0 }) overtaken ∧
    overtaken.board.results = [(1, 16), (0, 9)] ∧
    overtaken.board.verdict = some (.finished [9, 16]) ∧ overtaken.holders ≤ 2 ∧
    ∃ w', run 2 (fun n => (square n).run) [3, 4] { env := 0 } = .ok (some [9, 16]) w' := by
  have hjobs : 2 ≤ maxWorkers := by decide
  obtain ⟨horderly, _, result, s, hrun, hs, hv⟩ :=
    (results_in_order hjobs { env := 0 }).1 square [3, 4]
  have hends : ∀ n ∈ [3, 4], ∀ result, (square n).Ends result → result = some (n * n) := by
    intro n _ result h
    cases h with
    | access w h =>
      cases h
      rfl
  have hverdict : ∀ {s} {v : Verdict Nat}, Steps (start 2 square [3, 4] { env := 0 }) s →
      s.board.verdict = some v → v ≠ .interrupted → v = .finished [9, 16] := by
    intro s v hs hv hne
    exact ((horderly s hs).determined (fun n => some (n * n)) hends v hv).resolve_right hne
  refine ⟨steps_overtaken, rfl, ?_, (horderly _ steps_overtaken).bounded, s.board.world, ?_⟩
  · exact congrArg some (hverdict steps_overtaken rfl (by simp))
  · have hresult := hverdict hs hv (by cases result <;> simp [Verdict.of])
    cases result with
    | none => cases hresult
    | some rs =>
      obtain rfl := Verdict.finished.inj hresult
      exact hrun

end ArtifactResolver.Pool
