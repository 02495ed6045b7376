import ArtifactResolver.Proofs.Pool.Work
import Mathlib.Data.List.Forall2

/-!
# The steps of a pool

A pool gives every item to a task of its own. The tasks are spawned in the order of the items, each
as soon as there is a permit for it, and once all of them are spawned they are joined in the order
in which they end. Between any two accesses of one worker others may begin, act on the world or end,
so what a pool may do is a relation between its states.

What the states have in common from the first to the last one is that every permit is free or held
by a task, that every task tells of its item what it is at, and that the results so far are those of
the tasks that were joined.
-/

namespace ArtifactResolver.Pool

open List

variable {σ α β : Type}

/-- The task for an item. -/
inductive Task (σ β : Type) where
  /-- It has not been spawned yet. -/
  | waiting (rest : Work σ β)
  /-- It has a permit, and has not begun. -/
  | queued (rest : Work σ β)
  /-- A worker is at it. -/
  | busy (rest : Work σ β)
  /-- The worker has ended it with a result or, if there is none, with a panic. -/
  | ended (result : Option β)
  /-- The pool knows how it ended. -/
  | joined (result : Option β)
  /-- It was given up before it began. -/
  | dropped

/-- What a worker does with an item. -/
inductive Note (β : Type) where
  /-- The work begins. -/
  | begun
  /-- The work ends with a result or, if there is none, with a panic. -/
  | ended (result : Option β)
deriving DecidableEq

/-- What becomes of all items. -/
inductive Verdict (β : Type) where
  /-- These are their results. -/
  | finished (results : List β)
  /-- A worker panicked. -/
  | failed
  /-- The user did not want to wait. -/
  | interrupted

/-- What becomes of items with these results, if they have any. -/
def Verdict.of : Option (List β) → Verdict β
  | some results => finished results
  | none => failed

/-- What the tasks of a pool share. -/
structure Board (σ β : Type) where
  /-- The world that the workers act on. -/
  world : World σ
  /-- The number of permits that no task has. -/
  free : Nat
  /-- What the workers did so far, each with the position of the item, the earliest first. -/
  notes : List (Nat × Note β) := []
  /-- The results of the tasks that were joined, in that order, each with the position of the item.
  -/
  results : List (Nat × β) := []
  /-- What becomes of the items, as soon as that is known. -/
  verdict : Option (Verdict β) := none

/-- A pool at work. -/
structure State (σ β : Type) where
  board : Board σ β
  /-- The tasks in the order of their items. -/
  tasks : List (Task σ β)

/-- A pool before it spawns its first task. A pool without workers has one nevertheless. -/
def start (jobs : Nat) (work : α → Work σ β) (items : List α) (w : World σ) : State σ β :=
  ⟨{ world := w, free := max jobs 1 }, items.map fun a => .waiting (work a)⟩

/-- Results in the order of their items. -/
def inOrder (results : List (Nat × β)) : List β :=
  (results.mergeSort fun a b => a.1 ≤ b.1).map (·.2)

/-! ## What the pool may do -/

namespace Task

/-- The task was spawned. -/
def IsSpawned (t : Task σ β) : Prop := ∀ rest, t ≠ waiting rest

/-- Whether the task has a permit. -/
def holds : Task σ β → Bool
  | queued _ => true
  | busy _ => true
  | _ => false

/-- What was done with the item. -/
def history : Task σ β → List (Note β)
  | busy _ => [.begun]
  | ended result => [.begun, .ended result]
  | joined result => [.begun, .ended result]
  | _ => []

/-- The result, if the task was joined. -/
def result? : Task σ β → Option β
  | joined result => result
  | _ => none

/-- The task may end like this, or has done so. -/
def MayEnd : Task σ β → Option β → Prop
  | waiting rest, result => rest.Ends result
  | queued rest, result => rest.Ends result
  | busy rest, result => rest.Ends result
  | ended result', result => result = result'
  | joined result', result => result = result'
  | dropped, _ => False

end Task

/-- What can happen to a task that stands between others, and what this makes of all that the tasks
share. -/
inductive Turn (pre post : List (Task σ β)) :
    Board σ β → Task σ β → Board σ β → Task σ β → Prop where
  /-- The pool spawns the first task that is waiting, with a permit that was free. -/
  | spawn {b : Board σ β} {rest : Work σ β} {free : Nat} (hv : b.verdict = none)
      (hpre : ∀ t ∈ pre, t.IsSpawned) (hfree : b.free = free + 1) :
      Turn pre post b (.waiting rest) { b with free := free } (.queued rest)
  /-- A worker begins. -/
  | begin {b : Board σ β} {rest : Work σ β} :
      Turn pre post b (.queued rest)
        { b with notes := b.notes ++ [(pre.length, .begun)] } (.busy rest)
  /-- A worker acts on the world. -/
  | access {b : Board σ β} {change : World σ → World σ} {next : World σ → Work σ β} :
      Turn pre post b (.busy (.access change next))
        { b with world := change b.world } (.busy (next b.world))
  /-- A worker returns its result, and the permit with it. -/
  | returns {b : Board σ β} {v : β} :
      Turn pre post b (.busy (.done v))
        { b with free := b.free + 1, notes := b.notes ++ [(pre.length, .ended (some v))] }
        (.ended (some v))
  /-- A worker panics, which returns the permit too. -/
  | panics {b : Board σ β} {p : Panic} :
      Turn pre post b (.busy (.panic p))
        { b with free := b.free + 1, notes := b.notes ++ [(pre.length, .ended none)] }
        (.ended none)
  /-- The pool has spawned all tasks, and takes the result of one that has ended. -/
  | collect {b : Board σ β} {v : β} (hv : b.verdict = none) (hpre : ∀ t ∈ pre, t.IsSpawned)
      (hpost : ∀ t ∈ post, t.IsSpawned) :
      Turn pre post b (.ended (some v))
        { b with results := b.results ++ [(pre.length, v)] } (.joined (some v))
  /-- The pool has spawned all tasks, and finds one that has panicked. -/
  | fail {b : Board σ β} (hv : b.verdict = none) (hpre : ∀ t ∈ pre, t.IsSpawned)
      (hpost : ∀ t ∈ post, t.IsSpawned) :
      Turn pre post b (.ended none) { b with verdict := some .failed } (.joined none)
  /-- The pool gives up a task that has not begun when its result can no longer matter. -/
  | drop {b : Board σ β} {rest : Work σ β} (hv : b.verdict ≠ none) :
      Turn pre post b (.queued rest) { b with free := b.free + 1 } .dropped

/-- What the pool and its workers may do next. -/
inductive Step : State σ β → State σ β → Prop where
  /-- Something happens to a task. -/
  | turn {pre post : List (Task σ β)} {b b' : Board σ β} {t t' : Task σ β}
      (h : Turn pre post b t b' t') : Step ⟨b, pre ++ t :: post⟩ ⟨b', pre ++ t' :: post⟩
  /-- There is no task left to join. -/
  | finish {b : Board σ β} {tasks : List (Task σ β)} (hv : b.verdict = none)
      (hall : ∀ t ∈ tasks, ∃ result, t = .joined result) :
      Step ⟨b, tasks⟩ ⟨{ b with verdict := some (.finished (inOrder b.results)) }, tasks⟩
  /-- The user interrupts the pool while it joins its tasks. -/
  | interrupt {b : Board σ β} {tasks : List (Task σ β)} (hv : b.verdict = none)
      (hall : ∀ t ∈ tasks, t.IsSpawned) :
      Step ⟨b, tasks⟩ ⟨{ b with verdict := some .interrupted }, tasks⟩

/-- What the pool and its workers may come to. -/
abbrev Steps : State σ β → State σ β → Prop := Relation.ReflTransGen Step

namespace State

/-- What was done with the item at a position. -/
def notesOn (s : State σ β) (i : Nat) : List (Note β) :=
  s.board.notes.filterMap fun note => if note.1 = i then some note.2 else none

/-- The number of tasks that hold a permit. -/
def holders (s : State σ β) : Nat := s.tasks.countP Task.holds

end State

/-! ## What happens to a task -/

namespace Turn

variable {pre post : List (Task σ β)} {b b' : Board σ β} {t t' : Task σ β}

/-- No permit is lost, and none is made up. -/
theorem free_add_holds (h : Turn pre post b t b' t') :
    b'.free + [t'].countP Task.holds = b.free + [t].countP Task.holds := by
  cases h with
  | spawn _ _ hfree => simp [Task.holds, hfree]
  | _ => simp [Task.holds]

theorem mayEnd (h : Turn pre post b t b' t') {result : Option β} (ht : t'.MayEnd result) :
    t.MayEnd result := by
  cases h with
  | access => exact .access b.world ht
  | returns =>
    obtain rfl : result = some _ := ht
    exact .done _
  | panics =>
    obtain rfl : result = none := ht
    exact .panic _
  | drop => exact ht.elim
  | _ => exact ht

/-- What happens to a task adds to what is known of its item, and to nothing else. -/
theorem notes (h : Turn pre post b t b' t') : ∃ more, t'.history = t.history ++ more ∧
    b'.notes = b.notes ++ more.map fun note => (pre.length, note) := by
  cases h with
  | begin => exact ⟨[.begun], rfl, rfl⟩
  | returns => exact ⟨[.ended (some _)], rfl, rfl⟩
  | panics => exact ⟨[.ended none], rfl, rfl⟩
  | _ => exact ⟨[], rfl, (append_nil _).symm⟩

/-- Nothing happens to a task that was joined. -/
theorem not_joined (h : Turn pre post b t b' t') (result : Option β) : t ≠ .joined result := by
  cases h <;> simp

theorem result?_eq_none (h : Turn pre post b t b' t') : t.result? = none := by
  cases h <;> rfl

theorem results (h : Turn pre post b t b' t') :
    b'.results = b.results ++ t'.result?.toList.map fun v => (pre.length, v) := by
  cases h with
  | collect => rfl
  | _ => exact (append_nil _).symm

/-- As long as nothing is decided, nothing happens to a task but what leaves all results in reach.
-/
theorem verdict_eq_none (h : Turn pre post b t b' t') (hv : b'.verdict = none) :
    b.verdict = none ∧ t' ≠ .joined none ∧ t' ≠ .dropped := by
  cases h with
  | fail => cases hv
  | drop hd => exact absurd hv hd
  | _ => exact ⟨hv, by simp, by simp⟩

/-- What happens to a task decides nothing unless the pool fails for it. -/
theorem verdict_eq_some (h : Turn pre post b t b' t') {v : Verdict β} (hv : b'.verdict = some v) :
    b.verdict = some v ∨ v = .failed ∧ t' = .joined none := by
  cases h with
  | fail => exact Or.inr ⟨(Option.some.inj hv).symm, rfl⟩
  | _ => exact Or.inl hv

end Turn

/-! ## Results and their order -/

/-- The results of the tasks that were joined, each with the position of the task, which is at least
the given one. -/
def collected (i : Nat) (tasks : List (Task σ β)) : List (Nat × β) :=
  (tasks.zipIdx i).flatMap fun entry => entry.1.result?.toList.map fun v => (entry.2, v)

theorem collected_append_cons (i : Nat) (pre post : List (Task σ β)) (t : Task σ β) :
    collected i (pre ++ t :: post) = collected i pre ++
      ((t.result?.toList.map fun v => (i + pre.length, v)) ++
        collected (i + pre.length + 1) post) := by
  simp only [collected, zipIdx_append, zipIdx_cons, flatMap_append, flatMap_cons]

theorem pairwise_collected (i : Nat) (tasks : List (Task σ β)) :
    (collected i tasks).Pairwise fun a b => a.1 < b.1 := by
  have hpositions : (tasks.zipIdx i).Pairwise fun a b => a.2 < b.2 := by
    rw [pairwise_iff_getElem]
    intro j k hj hk hlt
    simpa using hlt
  refine pairwise_flatMap.2 ⟨fun entry _ => ?_, hpositions.imp fun {a b} hlt x hx y hy => ?_⟩
  · cases entry.1.result? <;> simp
  · obtain ⟨_, _, rfl⟩ := mem_map.1 hx
    obtain ⟨_, _, rfl⟩ := mem_map.1 hy
    exact hlt

theorem map_snd_collected (i : Nat) (tasks : List (Task σ β)) :
    (collected i tasks).map (·.2) = tasks.flatMap fun t => t.result?.toList := by
  have hflat : ∀ entries : List (Task σ β × Nat),
      (entries.flatMap fun e => e.1.result?.toList.map fun v => (e.2, v)).map (·.2) =
        (entries.map (·.1)).flatMap fun t => t.result?.toList := by
    intro entries
    simp only [map_flatMap, map_map, flatMap_map, Function.comp_def, map_id']
  rw [collected, hflat, zipIdx_map_fst]

/-- Tasks that were joined without a panic are known by their results. -/
theorem map_results {tasks : List (Task σ β)} (h : ∀ t ∈ tasks, ∃ v, t = .joined (some v)) :
    ((tasks.flatMap fun t => t.result?.toList).map fun v => .joined (some v)) = tasks := by
  induction tasks with
  | nil => rfl
  | cons t tasks ih =>
    obtain ⟨v, rfl⟩ := h t mem_cons_self
    exact congrArg _ (ih fun t ht => h t (mem_cons_of_mem _ ht))

/-- In whatever order tasks were joined, their results are brought into that of the items. -/
theorem inOrder_of_perm {results : List (Nat × β)} {tasks : List (Task σ β)}
    (h : results ~ collected 0 tasks) :
    inOrder results = tasks.flatMap fun t => t.result?.toList := by
  have hlt := pairwise_collected 0 tasks
  have hsorted : results.mergeSort (fun a b => a.1 ≤ b.1) = collected 0 tasks := by
    refine @Perm.eq_of_pairwise _ (fun a b => a.1 ≤ b.1) _ _ ?_ ?_ (hlt.imp Nat.le_of_lt)
      ((mergeSort_perm _ _).trans h)
    · -- no two results are for the same item
      intro a b ha hb hab hba
      have hnodup : ((collected 0 tasks).map (·.1)).Nodup :=
        pairwise_map.2 (hlt.imp Nat.ne_of_lt)
      have ha' := h.subset ((mergeSort_perm _ _).subset ha)
      exact inj_on_of_nodup_map hnodup ha' hb (Nat.le_antisymm hab hba)
    · have hpairwise := @pairwise_mergeSort _ (fun a b : Nat × β => decide (a.1 ≤ b.1))
        (fun a b c hab hbc => by simp only [decide_eq_true_eq] at *; omega)
        (fun a b => by simp only [Bool.or_eq_true, decide_eq_true_eq]; omega) results
      exact hpairwise.imp fun {a b} hle => of_decide_eq_true hle
  rw [inOrder, hsorted, map_snd_collected]

/-! ## One task in place of another -/

theorem forall₂_replace {γ δ : Type} {R : γ → δ → Prop} {l : List γ} {pre post : List δ} {x y : δ}
    (hR : ∀ c, R c x → R c y) (h : Forall₂ R l (pre ++ x :: post)) :
    Forall₂ R l (pre ++ y :: post) := by
  induction pre generalizing l with
  | nil =>
    cases h with
    | cons hx hpost => exact .cons (hR _ hx) hpost
  | cons z pre ih =>
    cases h with
    | cons hz hrest => exact .cons hz (ih hrest)

theorem getElem?_replace {γ : Type} (pre post : List γ) (x y : γ) (i : Nat) :
    (pre ++ y :: post)[i]? = if i = pre.length then some y else (pre ++ x :: post)[i]? := by
  rcases Nat.lt_trichotomy i pre.length with hlt | rfl | hgt
  · rw [if_neg (Nat.ne_of_lt hlt), getElem?_append_left hlt, getElem?_append_left hlt]
  · rw [if_pos rfl, getElem?_append_right le_rfl, Nat.sub_self, getElem?_cons_zero]
  · obtain ⟨k, hk⟩ := Nat.exists_eq_add_of_lt hgt
    have hsub : i - pre.length = k + 1 := by omega
    rw [if_neg (Nat.ne_of_gt hgt), getElem?_append_right hgt.le, getElem?_append_right hgt.le,
      hsub, getElem?_cons_succ, getElem?_cons_succ]

theorem mem_replace {γ : Type} {pre post : List γ} {x y c : γ} (h : c ∈ pre ++ x :: post) :
    c = x ∨ c ∈ pre ++ y :: post := by
  rcases mem_append.1 h with hpre | hpost
  · exact Or.inr (mem_append_left _ hpre)
  · rcases mem_cons.1 hpost with heq | hpost
    · exact Or.inl heq
    · exact Or.inr (mem_append_right _ (mem_cons_of_mem _ hpost))

theorem notesOn_append (b : Board σ β) {b' : Board σ β} (tasks tasks' : List (Task σ β)) (j i : Nat)
    (more : List (Note β)) (hb : b'.notes = b.notes ++ more.map fun note => (j, note)) :
    (⟨b', tasks'⟩ : State σ β).notesOn i =
      (⟨b, tasks⟩ : State σ β).notesOn i ++ if i = j then more else [] := by
  rw [State.notesOn, State.notesOn, hb, filterMap_append, filterMap_map]
  congr 1
  by_cases hij : i = j
  · subst hij
    simp
  · simp [Ne.symm hij, hij]

/-! ## What holds of every state -/

/-- What holds of a pool with these permits for work on these items. -/
structure Sound (permits : Nat) (work : α → Work σ β) (items : List α) (s : State σ β) : Prop where
  /-- Every permit is free or held. -/
  permits : s.board.free + s.holders = permits
  /-- Every task is for the item at its position. -/
  works : Forall₂ (fun a t => ∀ result, t.MayEnd result → (work a).Ends result) items s.tasks
  /-- What was done with an item is what its task tells of it. -/
  told : ∀ i, s.notesOn i = (s.tasks[i]?.map Task.history).getD []
  /-- The results are those of the tasks that were joined. -/
  results : s.board.results ~ collected 0 s.tasks
  /-- As long as nothing is decided, no panic is known, and nothing is given up. -/
  undecided : s.board.verdict = none → ∀ t ∈ s.tasks, t ≠ .joined none ∧ t ≠ .dropped
  /-- A pool with results has joined all tasks, and has the results in their order. -/
  finished : ∀ rs, s.board.verdict = some (.finished rs) →
    s.tasks = rs.map fun v => .joined (some v)
  /-- A pool that failed has found a task that panicked. -/
  failed : s.board.verdict = some .failed → .joined none ∈ s.tasks

namespace Sound

variable {permits : Nat} {work : α → Work σ β} {items : List α} {s s' : State σ β}
  {pre post : List (Task σ β)} {b b' : Board σ β} {t t' : Task σ β}

theorem start (jobs : Nat) (work : α → Work σ β) (items : List α) (w : World σ) :
    Sound (max jobs 1) work items (start jobs work items w) where
  permits := by
    have hnone : (items.map fun a => Task.waiting (work a)).countP Task.holds = 0 := by
      rw [countP_eq_zero]
      intro t ht
      obtain ⟨a, _, rfl⟩ := mem_map.1 ht
      exact Bool.false_ne_true
    exact congrArg (max jobs 1 + ·) hnone
  works := by
    show Forall₂ _ items (items.map fun a => Task.waiting (work a))
    rw [forall₂_map_right_iff]
    exact forall₂_same.2 fun a _ result h => h
  told i := by
    show [] = ((items.map fun a => Task.waiting (work a))[i]?.map Task.history).getD []
    rw [getElem?_map]
    cases items[i]? <;> rfl
  results := by
    have hnone : collected 0 (items.map fun a => Task.waiting (work a)) = [] := by
      refine flatMap_eq_nil_iff.2 fun entry he => ?_
      obtain ⟨a, _, ha⟩ := mem_map.1 (fst_mem_of_mem_zipIdx he)
      rw [← ha]
      rfl
    show [] ~ collected 0 (items.map fun a => Task.waiting (work a))
    rw [hnone]
  undecided _ t ht := by
    obtain ⟨a, _, rfl⟩ := mem_map.1 ht
    simp
  finished rs hv := by cases hv
  failed hv := by cases hv

/-- What happens to one task keeps all of them sound. -/
theorem turn (h : Sound permits work items ⟨b, pre ++ t :: post⟩) (ht : Turn pre post b t b' t') :
    Sound permits work items ⟨b', pre ++ t' :: post⟩ where
  permits := by
    have hbefore := h.permits
    have hturn := ht.free_add_holds
    simp only [State.holders, countP_append, countP_cons, countP_nil] at hbefore hturn ⊢
    omega
  works := forall₂_replace (fun a hR result hresult => hR result (ht.mayEnd hresult)) h.works
  told i := by
    obtain ⟨more, hhistory, hnotes⟩ := ht.notes
    have hbefore := h.told i
    rw [notesOn_append b (pre ++ t :: post) _ pre.length i more hnotes, hbefore,
      getElem?_replace pre post t t']
    by_cases hi : i = pre.length
    · subst hi
      simp [hhistory]
    · simp [hi]
  results := by
    have hbefore := h.results
    rw [collected_append_cons, ht.result?_eq_none] at hbefore
    simp only [Option.toList_none, map_nil, nil_append, Nat.zero_add] at hbefore
    rw [ht.results, collected_append_cons, Nat.zero_add]
    have hadded := hbefore.append_right (t'.result?.toList.map fun v => (pre.length, v))
    refine hadded.trans ?_
    rw [append_assoc]
    exact Perm.append_left _ perm_append_comm
  undecided hv t₁ ht₁ := by
    obtain ⟨hv₀, hopen⟩ := ht.verdict_eq_none hv
    rcases mem_replace ht₁ with rfl | hold
    · exact hopen
    · exact h.undecided hv₀ t₁ hold
  finished rs hv := by
    rcases ht.verdict_eq_some hv with hv₀ | ⟨hfailed, _⟩
    · -- all tasks were joined before, so nothing can happen to one
      have hall := h.finished rs hv₀
      have hmem : t ∈ rs.map fun v => Task.joined (some v) :=
        hall ▸ mem_append_right pre mem_cons_self
      obtain ⟨v, _, hv⟩ := mem_map.1 hmem
      exact absurd hv.symm (ht.not_joined (some v))
    · cases hfailed
  failed hv := by
    rcases ht.verdict_eq_some hv with hv₀ | ⟨_, rfl⟩
    · exact (mem_replace (h.failed hv₀)).resolve_left fun hjoined =>
        ht.not_joined none hjoined.symm
    · exact mem_append_right _ mem_cons_self

/-- What the pool and its workers do keeps it sound. -/
theorem step (h : Sound permits work items s) (hs : Step s s') : Sound permits work items s' := by
  cases hs with
  | turn ht => exact h.turn ht
  | @finish b tasks hv hall =>
    refine { h with undecided := nofun, finished := fun rs hrs => ?_, failed := nofun }
    have hjoined : ∀ t ∈ tasks, ∃ v, t = .joined (some v) := by
      intro t ht
      obtain ⟨_ | v, rfl⟩ := hall t ht
      · exact absurd rfl (h.undecided hv _ ht).1
      · exact ⟨v, rfl⟩
    obtain rfl := Verdict.finished.inj (Option.some.inj hrs)
    rw [inOrder_of_perm h.results]
    exact (map_results hjoined).symm
  | interrupt hv hall =>
    exact { h with undecided := nofun, finished := nofun, failed := nofun }

theorem steps (h : Sound permits work items s) (hs : Steps s s') : Sound permits work items s' := by
  induction hs with
  | refl => exact h
  | tail _ hstep ih => exact ih.step hstep

end Sound
end ArtifactResolver.Pool
