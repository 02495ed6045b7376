import Mathlib.Algebra.BigOperators.Group.Finset.Basic
import Mathlib.Data.Fintype.BigOperators
import Mathlib.Logic.Relation
import ArtifactResolver.Proofs.Action

/-!
# The table of locks

Calls that work on the entry of one key queue up at a mutex, which the table stores under the key. A
mutex is made when the first call comes, and goes when a call has ended and sees that nobody but the
table and itself has a handle to it. A call that panics leaves the table as it is. Here the calls
run step by step, and their steps interleave in any way.

What keeps two calls from having different mutexes for one key is the count of handles. It is exact
for every mutex in the table, so a call that sees two handles sees its own and that of the table,
and nobody is left who could wait.
-/

namespace ArtifactResolver.Cache

open Function

/-- What a call with a handle to a mutex is about to do. -/
inductive Stage where
  /-- To take the mutex. -/
  | waiting
  /-- To run its body, which has the mutex. -/
  | inside
  /-- To give the mutex back, as its body has ended. -/
  | finished
  /-- To see to the entry of the table. -/
  | unlocked
  /-- To drop its handle. -/
  | leaving
  /-- To give the mutex back, as its body has panicked. -/
  | panicked
  /-- To drop its handle without seeing to the entry of the table. -/
  | unwinding
deriving DecidableEq, Repr

/-- Whether a call has the mutex at this stage. -/
def Stage.locks : Stage → Bool
  | inside | finished | panicked => true
  | _ => false

/-- Where a call is. -/
inductive Phase where
  /-- It has not started. -/
  | idle
  /-- It has a handle to a mutex. -/
  | holding (stage : Stage) (mutex : Nat)
  /-- It has ended. -/
  | gone
deriving DecidableEq, Repr

namespace Phase

/-- The mutex that the call has a handle to. -/
def mutex? : Phase → Option Nat
  | holding _ m => some m
  | _ => none

/-- The call is between taking its mutex and giving it back. -/
def Locking : Phase → Prop
  | holding stage _ => stage.locks = true
  | _ => False

theorem exists_of_locking {p : Phase} (h : p.Locking) :
    ∃ stage m, p = .holding stage m ∧ stage.locks = true := by
  cases p with
  | holding stage m => exact ⟨stage, m, rfl, h⟩
  | idle => exact h.elim
  | gone => exact h.elim

end Phase

/-- The table of locks and all calls at one moment. The mutexes are numbered. -/
structure Locks (ι : Type) where
  /-- The mutex that is stored under a key. -/
  entries : Key → Option Nat
  /-- How many handles to a mutex there are, that of the table included. -/
  handles : Nat → Nat
  /-- Whether a mutex is taken. -/
  locked : Nat → Bool
  /-- How many mutexes were made. -/
  made : Nat
  /-- Where the calls are. -/
  phase : ι → Phase

variable {ι : Type}

namespace Locks

/-- An empty table, before any call has started. -/
def start : Locks ι where
  entries _ := none
  handles _ := 0
  locked _ := false
  made := 0
  phase _ := .idle

section Step

variable [DecidableEq ι] (keys : ι → Key) (s : Locks ι)

/-- A step of one call. The keys of the calls are given. -/
inductive Step : Locks ι → Prop where
  /-- The call finds the mutex of its key and clones the handle. -/
  | find {i : ι} {m : Nat} (hp : s.phase i = .idle) (he : s.entries (keys i) = some m) :
      Step { s with
        handles := update s.handles m (s.handles m + 1)
        phase := update s.phase i (.holding .waiting m) }
  /-- There is no mutex for the key, so the call makes one. One handle goes to the table. -/
  | make {i : ι} (hp : s.phase i = .idle) (he : s.entries (keys i) = none) :
      Step {
        entries := update s.entries (keys i) (some s.made)
        handles := update s.handles s.made 2
        locked := update s.locked s.made false
        made := s.made + 1
        phase := update s.phase i (.holding .waiting s.made) }
  /-- The call takes the mutex, whether or not an earlier one panicked with it. -/
  | lock {i : ι} {m : Nat} (hp : s.phase i = .holding .waiting m) (hl : s.locked m = false) :
      Step { s with
        locked := update s.locked m true
        phase := update s.phase i (.holding .inside m) }
  /-- The body ends. -/
  | finish {i : ι} {m : Nat} (hp : s.phase i = .holding .inside m) :
      Step { s with phase := update s.phase i (.holding .finished m) }
  /-- The body panics. -/
  | panic {i : ι} {m : Nat} (hp : s.phase i = .holding .inside m) :
      Step { s with phase := update s.phase i (.holding .panicked m) }
  /-- The call gives the mutex back. -/
  | unlock {i : ι} {m : Nat} (hp : s.phase i = .holding .finished m) :
      Step { s with
        locked := update s.locked m false
        phase := update s.phase i (.holding .unlocked m) }
  /-- The call gives the mutex back after a panic. -/
  | unwind {i : ι} {m : Nat} (hp : s.phase i = .holding .panicked m) :
      Step { s with
        locked := update s.locked m false
        phase := update s.phase i (.holding .unwinding m) }
  /-- There are at most two handles to what is stored under the key, so the entry is removed. -/
  | remove {i : ι} {m stored : Nat} (hp : s.phase i = .holding .unlocked m)
      (he : s.entries (keys i) = some stored) (hc : s.handles stored ≤ 2) :
      Step { s with
        entries := update s.entries (keys i) none
        handles := update s.handles stored (s.handles stored - 1)
        phase := update s.phase i (.holding .leaving m) }
  /-- There are more handles, or there is no entry any more. -/
  | retain {i : ι} {m : Nat} (hp : s.phase i = .holding .unlocked m)
      (hc : ∀ stored, s.entries (keys i) = some stored → 2 < s.handles stored) :
      Step { s with phase := update s.phase i (.holding .leaving m) }
  /-- The call drops its handle. -/
  | drop {i : ι} {stage : Stage} {m : Nat} (hp : s.phase i = .holding stage m)
      (hd : stage = .leaving ∨ stage = .unwinding) :
      Step { s with
        handles := update s.handles m (s.handles m - 1)
        phase := update s.phase i .gone }

/-- What steps of the calls lead to. -/
def Reach (s s' : Locks ι) : Prop := Relation.ReflTransGen (Step keys) s s'

end Step

/-! ## Handles -/

section Handles

variable [DecidableEq ι] {phase : ι → Phase} {i j : ι} {p : Phase} {stage stage' : Stage}
  {m : Nat}

theorem holding_of_update (h : update phase i p j = .holding stage m) :
    j = i ∧ p = .holding stage m ∨ j ≠ i ∧ phase j = .holding stage m := by
  by_cases hj : j = i
  · subst hj
    rw [update_self] at h
    exact Or.inl ⟨rfl, h⟩
  · rw [update_of_ne hj] at h
    exact Or.inr ⟨hj, h⟩

variable [Fintype ι]

/-- How many calls have a handle to a mutex. -/
def holders (phase : ι → Phase) (m : Nat) : Nat :=
  (Finset.univ.filter fun i => (phase i).mutex? = some m).card

/-- What a step of one call makes of the number of its handles. -/
theorem holders_update (phase : ι → Phase) (i : ι) (p : Phase) (m : Nat) :
    holders (update phase i p) m + (if (phase i).mutex? = some m then 1 else 0) =
      holders phase m + (if p.mutex? = some m then 1 else 0) := by
  have hsplit : ∀ phase : ι → Phase, holders phase m =
      (if (phase i).mutex? = some m then 1 else 0) +
        ∑ j ∈ Finset.univ.erase i, if (phase j).mutex? = some m then 1 else 0 := by
    intro phase
    rw [holders, Finset.card_filter]
    exact (Finset.add_sum_erase _ _ (Finset.mem_univ i)).symm
  have hothers : (∑ j ∈ Finset.univ.erase i,
      if (update phase i p j).mutex? = some m then 1 else 0) =
        ∑ j ∈ Finset.univ.erase i, if (phase j).mutex? = some m then 1 else 0 := by
    refine Finset.sum_congr rfl fun j hj => ?_
    rw [update_of_ne (Finset.ne_of_mem_erase hj)]
  rw [hsplit (update phase i p), hsplit phase, hothers, update_self]
  omega

omit [DecidableEq ι] in
theorem mem_holders (h : phase i = .holding stage m) :
    i ∈ Finset.univ.filter fun i => (phase i).mutex? = some m := by
  refine Finset.mem_filter.2 ⟨Finset.mem_univ i, ?_⟩
  rw [h]
  rfl

omit [DecidableEq ι] in
theorem exists_of_mem_holders (h : i ∈ Finset.univ.filter fun i => (phase i).mutex? = some m) :
    ∃ stage, phase i = .holding stage m := by
  have hmutex := (Finset.mem_filter.1 h).2
  cases hphase : phase i with
  | holding stage m' =>
    rw [hphase] at hmutex
    exact ⟨stage, by rw [Option.some.inj hmutex]⟩
  | _ => rw [hphase] at hmutex; cases hmutex

omit [DecidableEq ι] in
theorem holders_eq_zero (hfree : ∀ i stage m, phase i ≠ .holding stage m) (m : Nat) :
    holders phase m = 0 := by
  by_contra hne
  obtain ⟨i, hi⟩ := Finset.card_pos.1 (Nat.pos_of_ne_zero hne)
  obtain ⟨stage, hphase⟩ := exists_of_mem_holders hi
  exact hfree i stage m hphase

omit [DecidableEq ι] in
theorem holders_pos (h : phase i = .holding stage m) : 0 < holders phase m :=
  Finset.card_pos.2 ⟨i, mem_holders h⟩

omit [DecidableEq ι] in
/-- Where a mutex has one holder at most, two calls that hold it are the same. -/
theorem eq_of_holders_le (hone : holders phase m ≤ 1) (hi : phase i = .holding stage m)
    (hj : phase j = .holding stage' m) : i = j :=
  Finset.card_le_one.1 hone i (mem_holders hi) j (mem_holders hj)

end Handles

/-! ## The mutexes -/

/-- A mutex that a call has is taken, and no other call has it. -/
structure Exclusive (locked : Nat → Bool) (phase : ι → Phase) : Prop where
  shut : ∀ {i stage m}, phase i = .holding stage m → stage.locks = true → locked m = true
  alone : ∀ {i j stage stage' m}, phase i = .holding stage m → stage.locks = true →
    phase j = .holding stage' m → stage'.locks = true → i = j

section Exclusive

variable [DecidableEq ι] {phase : ι → Phase} {locked locked' : Nat → Bool} {i : ι} {p : Phase}

/-- A call that has a mutex after a step must have got it from nobody, and all others must be left
with theirs. -/
theorem Exclusive.update (h : Exclusive locked phase)
    (hself : ∀ {stage m}, p = .holding stage m → stage.locks = true → locked' m = true ∧
      ∀ {j stage'}, j ≠ i → phase j = .holding stage' m → stage'.locks ≠ true)
    (hrest : ∀ {j stage m}, j ≠ i → phase j = .holding stage m → stage.locks = true →
      locked' m = true) : Exclusive locked' (update phase i p) where
  shut {j stage m} hj hl := by
    rcases holding_of_update hj with ⟨_, hnew⟩ | ⟨hne, hold⟩
    · exact (hself hnew hl).1
    · exact hrest hne hold hl
  alone {j j' stage stage' m} hj hl hj' hl' := by
    rcases holding_of_update hj with ⟨rfl, hnew⟩ | ⟨hne, hold⟩
    · rcases holding_of_update hj' with ⟨rfl, _⟩ | ⟨hne', hold'⟩
      · rfl
      · exact absurd hl' ((hself hnew hl).2 hne' hold')
    · rcases holding_of_update hj' with ⟨rfl, hnew'⟩ | ⟨_, hold'⟩
      · exact absurd hl ((hself hnew' hl').2 hne hold)
      · exact h.alone hold hl hold' hl'

/-- A call that has no mutex after a step does not matter. -/
theorem Exclusive.update_unlocked (h : Exclusive locked phase) (hp : ¬ p.Locking) :
    Exclusive locked (Function.update phase i p) := by
  refine h.update ?_ fun _ hold hl => h.shut hold hl
  rintro stage m rfl hl
  exact absurd hl hp

end Exclusive

/-! ## The invariant -/

section Sound

variable [DecidableEq ι] [Fintype ι] {keys : ι → Key} {s s' : Locks ι} {i : ι}
  {stage stage' : Stage} {m : Nat}

/-- How the table, the handles and the calls hang together. -/
structure Sound (keys : ι → Key) (s : Locks ι) : Prop where
  /-- Until it has seen to the entry, a call holds the mutex that is stored under its key. -/
  stored : ∀ {i stage m}, s.phase i = .holding stage m → stage ≠ .leaving →
    s.entries (keys i) = some m
  apart : ∀ {k k' m}, s.entries k = some m → s.entries k' = some m → k = k'
  known : ∀ {k m}, s.entries k = some m → m < s.made
  fresh : ∀ {m}, s.made ≤ m → holders s.phase m = 0
  /-- The handles to a mutex in the table are those of the calls and that of the table. -/
  counted : ∀ {k m}, s.entries k = some m → s.handles m = holders s.phase m + 1
  exclusive : Exclusive s.locked s.phase

omit [DecidableEq ι] in
theorem sound_start (keys : ι → Key) : (start : Locks ι).Sound keys where
  stored h := by cases h
  apart h := by cases h
  known h := by cases h
  fresh _ := by simp [holders, start, Phase.mutex?]
  counted h := by cases h
  exclusive := by
    constructor
    · intro i stage m h
      cases h
    · intro i j stage stage' m h
      cases h

/-- A call goes to another stage with the same mutex. -/
theorem Sound.move (h : s.Sound keys) (hp : s.phase i = .holding stage m)
    (hne : stage ≠ .leaving) {locked : Nat → Bool}
    (hex : Exclusive locked (update s.phase i (.holding stage' m))) :
    Sound keys { s with locked := locked, phase := update s.phase i (.holding stage' m) } := by
  have hholders : ∀ m', holders (update s.phase i (.holding stage' m)) m' =
      holders s.phase m' := by
    intro m'
    have hupdate := holders_update s.phase i (.holding stage' m) m'
    rw [hp] at hupdate
    exact Nat.add_right_cancel hupdate
  refine ⟨?_, h.apart, h.known, ?_, ?_, hex⟩
  · intro j stage'' m' hj hne'
    rcases holding_of_update hj with ⟨rfl, hnew⟩ | ⟨_, hold⟩
    · obtain ⟨rfl, rfl⟩ := Phase.holding.inj hnew
      exact h.stored hp hne
    · exact h.stored hold hne'
  · intro m' hm
    rw [hholders]
    exact h.fresh hm
  · intro k m' he
    rw [hholders]
    exact h.counted he

/-- A call comes to a mutex that is in the table. -/
theorem Sound.find (h : s.Sound keys) (hp : s.phase i = .idle)
    (he : s.entries (keys i) = some m) :
    Sound keys { s with
      handles := update s.handles m (s.handles m + 1)
      phase := update s.phase i (.holding .waiting m) } := by
  have hholders : ∀ m', holders (update s.phase i (.holding .waiting m)) m' =
      holders s.phase m' + if m = m' then 1 else 0 := by
    intro m'
    have hupdate := holders_update s.phase i (.holding .waiting m) m'
    simpa [hp, Phase.mutex?] using hupdate
  have hex := h.exclusive.update_unlocked (i := i) (p := .holding .waiting m)
    (by simp [Phase.Locking, Stage.locks])
  refine ⟨?_, h.apart, h.known, ?_, ?_, hex⟩
  · intro j stage m' hj hne
    rcases holding_of_update hj with ⟨rfl, hnew⟩ | ⟨_, hold⟩
    · obtain ⟨rfl, rfl⟩ := Phase.holding.inj hnew
      exact he
    · exact h.stored hold hne
  · intro m' hm
    have hlt := h.known he
    rw [hholders, h.fresh hm, if_neg (by dsimp only at hm; omega)]
  · intro k m' hk
    have hcounted := h.counted hk
    rw [hholders]
    by_cases hm : m = m'
    · subst hm
      simp only [update_self, if_true]
      omega
    · simp only [update_of_ne (Ne.symm hm), if_neg hm]
      omega

/-- A call makes the mutex of its key. -/
theorem Sound.make (h : s.Sound keys) (hp : s.phase i = .idle)
    (he : s.entries (keys i) = none) :
    Sound keys {
      entries := update s.entries (keys i) (some s.made)
      handles := update s.handles s.made 2
      locked := update s.locked s.made false
      made := s.made + 1
      phase := update s.phase i (.holding .waiting s.made) } := by
  have hholders : ∀ m', holders (update s.phase i (.holding .waiting s.made)) m' =
      holders s.phase m' + if s.made = m' then 1 else 0 := by
    intro m'
    have hupdate := holders_update s.phase i (.holding .waiting s.made) m'
    simpa [hp, Phase.mutex?] using hupdate
  have hentry : ∀ {k m}, update s.entries (keys i) (some s.made) k = some m →
      k = keys i ∧ m = s.made ∨ k ≠ keys i ∧ s.entries k = some m := by
    intro k m hk
    by_cases hkey : k = keys i
    · subst hkey
      rw [update_self] at hk
      exact Or.inl ⟨rfl, (Option.some.inj hk).symm⟩
    · rw [update_of_ne hkey] at hk
      exact Or.inr ⟨hkey, hk⟩
  constructor
  · intro j stage m hj hne
    rcases holding_of_update hj with ⟨rfl, hnew⟩ | ⟨_, hold⟩
    · obtain ⟨rfl, rfl⟩ := Phase.holding.inj hnew
      exact update_self _ _ _
    · have hstored := h.stored hold hne
      have hkey : keys j ≠ keys i := by
        intro hkey
        rw [hkey, he] at hstored
        cases hstored
      exact (update_of_ne hkey _ _).trans hstored
  · intro k k' m hk hk'
    rcases hentry hk with ⟨rfl, rfl⟩ | ⟨_, hold⟩
    · rcases hentry hk' with ⟨rfl, _⟩ | ⟨_, hold'⟩
      · rfl
      · exact absurd (h.known hold') (Nat.lt_irrefl _)
    · rcases hentry hk' with ⟨rfl, rfl⟩ | ⟨_, hold'⟩
      · exact absurd (h.known hold) (Nat.lt_irrefl _)
      · exact h.apart hold hold'
  · intro k m hk
    rcases hentry hk with ⟨_, rfl⟩ | ⟨_, hold⟩
    · exact Nat.lt_succ_self _
    · exact Nat.lt_succ_of_lt (h.known hold)
  · intro m hm
    dsimp only at hm
    rw [hholders, h.fresh (by omega), if_neg (by omega)]
  · intro k m hk
    rw [hholders]
    rcases hentry hk with ⟨_, rfl⟩ | ⟨_, hold⟩
    · simp only [update_self, if_true, h.fresh (Nat.le_refl _)]
    · have hlt := h.known hold
      have hcounted := h.counted hold
      simp only [update_of_ne (Nat.ne_of_lt hlt), if_neg (Nat.ne_of_gt hlt)]
      omega
  · refine h.exclusive.update ?_ ?_
    · rintro stage m hnew hl
      obtain ⟨rfl, rfl⟩ := Phase.holding.inj hnew
      cases hl
    · intro j stage m _ hold hl
      have hne : m ≠ s.made := by
        rintro rfl
        exact absurd (holders_pos hold) (by rw [h.fresh (Nat.le_refl _)]; exact Nat.lt_irrefl 0)
      exact (update_of_ne hne _ _).trans (h.exclusive.shut hold hl)

/-- A call removes the mutex of its key. It is the only one that has a handle, so no other call is
left with a mutex that is not in the table. -/
theorem Sound.remove (h : s.Sound keys) (hp : s.phase i = .holding .unlocked m)
    (hc : s.handles m ≤ 2) :
    Sound keys { s with
      entries := update s.entries (keys i) none
      handles := update s.handles m (s.handles m - 1)
      phase := update s.phase i (.holding .leaving m) } := by
  have he : s.entries (keys i) = some m := h.stored hp (by simp)
  have hone : holders s.phase m ≤ 1 := by
    have hcounted := h.counted he
    omega
  have hentry : ∀ {k m'}, update s.entries (keys i) none k = some m' →
      k ≠ keys i ∧ s.entries k = some m' := by
    intro k m' hk
    by_cases hkey : k = keys i
    · subst hkey
      rw [update_self] at hk
      cases hk
    · rw [update_of_ne hkey] at hk
      exact ⟨hkey, hk⟩
  have hexclusive : Exclusive s.locked (update s.phase i (.holding .leaving m)) :=
    h.exclusive.update_unlocked (by simp [Phase.Locking, Stage.locks])
  have hmove := h.move hp (by simp) hexclusive
  refine ⟨?_, ?_, ?_, hmove.fresh, ?_, hmove.exclusive⟩
  · intro j stage m' hj hne
    rcases holding_of_update hj with ⟨_, hnew⟩ | ⟨hji, hold⟩
    · exact absurd (Phase.holding.inj hnew).1.symm hne
    · have hstored := h.stored hold hne
      have hkey : keys j ≠ keys i := by
        intro hkey
        rw [hkey, he] at hstored
        obtain rfl := Option.some.inj hstored
        exact hji (eq_of_holders_le hone hold hp)
      exact (update_of_ne hkey _ _).trans hstored
  · intro k k' m' hk hk'
    exact h.apart (hentry hk).2 (hentry hk').2
  · intro k m' hk
    exact h.known (hentry hk).2
  · intro k m' hk
    obtain ⟨hkey, hold⟩ := hentry hk
    have hm : m' ≠ m := by
      rintro rfl
      exact hkey (h.apart hold he)
    exact (update_of_ne hm _ _).trans (hmove.counted hold)

/-- A call drops its handle, and has no part in the table any more. -/
theorem Sound.drop (h : s.Sound keys) (hp : s.phase i = .holding stage m) :
    Sound keys { s with
      handles := update s.handles m (s.handles m - 1)
      phase := update s.phase i .gone } := by
  have hholders : ∀ m', holders (update s.phase i .gone) m' + (if m = m' then 1 else 0) =
      holders s.phase m' := by
    intro m'
    have hupdate := holders_update s.phase i .gone m'
    simpa [hp, Phase.mutex?] using hupdate
  refine ⟨?_, h.apart, h.known, ?_, ?_, h.exclusive.update_unlocked (fun hl => hl)⟩
  · intro j stage' m' hj hne
    rcases holding_of_update hj with ⟨_, hnew⟩ | ⟨_, hold⟩
    · cases hnew
    · exact h.stored hold hne
  · intro m' hm
    have hfresh := h.fresh hm
    have hrest := hholders m'
    dsimp only
    omega
  · intro k m' hk
    have hcounted := h.counted hk
    have hrest := hholders m'
    by_cases hm : m = m'
    · subst hm
      have hpos := holders_pos hp
      simp only [if_true] at hrest
      simp only [update_self]
      omega
    · simp only [if_neg hm] at hrest
      simp only [update_of_ne (Ne.symm hm)]
      omega

/-- A call goes on with the mutex that it has. -/
theorem Sound.advance (h : s.Sound keys) (hp : s.phase i = .holding stage m)
    (hl : stage.locks = true) :
    Sound keys { s with phase := update s.phase i (.holding stage' m) } := by
  have hne : stage ≠ .leaving := by
    rintro rfl
    cases hl
  refine h.move hp hne (h.exclusive.update ?_ fun _ => h.exclusive.shut)
  intro stage'' m' hnew _
  obtain ⟨_, rfl⟩ := Phase.holding.inj hnew
  exact ⟨h.exclusive.shut hp hl, fun hji hj hl' => hji (h.exclusive.alone hj hl' hp hl)⟩

/-- A call takes a mutex that nobody has. -/
theorem Sound.take (h : s.Sound keys) (hp : s.phase i = .holding .waiting m)
    (hl : s.locked m = false) :
    Sound keys { s with
      locked := update s.locked m true
      phase := update s.phase i (.holding .inside m) } := by
  have hopen : ∀ {j stage}, s.phase j = .holding stage m → stage.locks ≠ true := by
    intro j stage hj hlocks
    rw [h.exclusive.shut hj hlocks] at hl
    cases hl
  refine h.move hp (by simp) (h.exclusive.update ?_ ?_)
  · intro stage m' hnew _
    obtain ⟨_, rfl⟩ := Phase.holding.inj hnew
    exact ⟨update_self _ _ _, fun _ => hopen⟩
  · intro j stage m' _ hold hlocks
    have hne : m' ≠ m := by
      rintro rfl
      exact hopen hold hlocks
    exact (update_of_ne hne _ _).trans (h.exclusive.shut hold hlocks)

/-- A call gives its mutex back. -/
theorem Sound.release (h : s.Sound keys) (hp : s.phase i = .holding stage m)
    (hl : stage.locks = true) (hl' : stage'.locks = false) :
    Sound keys { s with
      locked := update s.locked m false
      phase := update s.phase i (.holding stage' m) } := by
  have hne : stage ≠ .leaving := by
    rintro rfl
    cases hl
  refine h.move hp hne (h.exclusive.update ?_ ?_)
  · intro stage'' m' hnew hlocks
    obtain ⟨rfl, _⟩ := Phase.holding.inj hnew
    rw [hl'] at hlocks
    cases hlocks
  · intro j stage'' m' hji hold hlocks
    have hm : m' ≠ m := by
      rintro rfl
      exact hji (h.exclusive.alone hold hlocks hp hl)
    exact (update_of_ne hm _ _).trans (h.exclusive.shut hold hlocks)

/-- Every step keeps the invariant. -/
theorem Sound.step (h : s.Sound keys) (hs : Step keys s s') : s'.Sound keys := by
  cases hs with
  | find hp he => exact h.find hp he
  | make hp he => exact h.make hp he
  | lock hp hl => exact h.take hp hl
  | finish hp => exact h.advance hp rfl
  | panic hp => exact h.advance hp rfl
  | unlock hp => exact h.release hp rfl rfl
  | unwind hp => exact h.release hp rfl rfl
  | @remove i m stored hp he hc =>
    obtain rfl : m = stored := Option.some.inj ((h.stored hp (by simp)).symm.trans he)
    exact h.remove hp hc
  | retain hp =>
    exact h.move hp (by simp) (h.exclusive.update_unlocked (by simp [Phase.Locking, Stage.locks]))
  | drop hp => exact h.drop hp

/-- What every step keeps, all steps keep. -/
theorem Sound.reach (h : s.Sound keys) (hs : Reach keys s s') : s'.Sound keys := by
  induction hs with
  | refl => exact h
  | tail _ hstep ih => exact ih.step hstep

/-! ## Mutual exclusion -/

/-- What calls that use the table can rely on. -/
structure Safe (keys : ι → Key) (s : Locks ι) : Prop where
  /-- Of all calls with one key, at most one is between taking its mutex and giving it back. -/
  exclusive : ∀ i j, keys i = keys j → (s.phase i).Locking → (s.phase j).Locking → i = j
  /-- A call that has its handle, and has not seen to the entry of the table, holds the mutex that
  is stored under its key. That includes calls that have panicked. -/
  stored : ∀ i stage m, s.phase i = .holding stage m → stage ≠ .leaving →
    s.entries (keys i) = some m
  /-- While a call waits for its mutex, no step of any call removes or replaces the entry. -/
  kept : ∀ s', Step keys s s' → ∀ i m, s.phase i = .holding .waiting m →
    s'.entries (keys i) = some m

omit [Fintype ι] in
/-- A step is one of a single call, and a call that waits can only take its mutex. -/
theorem Step.phase_eq (hs : Step keys s s') : ∃ i p, s'.phase = update s.phase i p ∧
    ∀ m, s.phase i = .holding .waiting m → p = .holding .inside m := by
  cases hs with
  | lock hp =>
    refine ⟨_, _, rfl, fun m hw => ?_⟩
    obtain ⟨_, rfl⟩ := Phase.holding.inj (hp.symm.trans hw)
    rfl
  | drop hp hd =>
    refine ⟨_, _, rfl, fun m hw => ?_⟩
    obtain ⟨rfl, _⟩ := Phase.holding.inj (hp.symm.trans hw)
    simp at hd
  | find hp => exact ⟨_, _, rfl, fun m hw => by cases hp.symm.trans hw⟩
  | make hp => exact ⟨_, _, rfl, fun m hw => by cases hp.symm.trans hw⟩
  | finish hp => exact ⟨_, _, rfl, fun m hw => by cases hp.symm.trans hw⟩
  | panic hp => exact ⟨_, _, rfl, fun m hw => by cases hp.symm.trans hw⟩
  | unlock hp => exact ⟨_, _, rfl, fun m hw => by cases hp.symm.trans hw⟩
  | unwind hp => exact ⟨_, _, rfl, fun m hw => by cases hp.symm.trans hw⟩
  | remove hp => exact ⟨_, _, rfl, fun m hw => by cases hp.symm.trans hw⟩
  | retain hp => exact ⟨_, _, rfl, fun m hw => by cases hp.symm.trans hw⟩

omit [Fintype ι] in
theorem Step.holding_of_waiting (hs : Step keys s s') (hp : s.phase i = .holding .waiting m) :
    ∃ stage, s'.phase i = .holding stage m ∧ stage ≠ .leaving := by
  obtain ⟨j, p, hphase, hwaiting⟩ := hs.phase_eq
  rw [hphase]
  by_cases hij : i = j
  · subst hij
    rw [update_self]
    exact ⟨.inside, hwaiting m hp, by simp⟩
  · rw [update_of_ne hij]
    exact ⟨.waiting, hp, by simp⟩

/-- Whatever calls there are, with whatever keys, and however their steps interleave, panics
included: no two of them have the mutex of one key, and nobody waits for a mutex that is not the one
in the table. -/
theorem mutual_exclusion (hs : Reach keys start s) : s.Safe keys := by
  have hsound : s.Sound keys := (sound_start keys).reach hs
  refine ⟨?_, fun _ _ _ => hsound.stored, ?_⟩
  · intro i j hkey hi hj
    obtain ⟨stage, m, hp, hl⟩ := Phase.exists_of_locking hi
    obtain ⟨stage', m', hp', hl'⟩ := Phase.exists_of_locking hj
    have hstored := hsound.stored hp (by rintro rfl; cases hl)
    have hstored' := hsound.stored hp' (by rintro rfl; cases hl')
    rw [← hkey, hstored] at hstored'
    obtain rfl := Option.some.inj hstored'
    exact hsound.exclusive.alone hp hl hp' hl'
  · intro s' hstep i m hp
    obtain ⟨stage, hp', hne⟩ := hstep.holding_of_waiting hp
    exact (hsound.step hstep).stored hp' hne

end Sound

/-- Two calls for one descriptor: the first one panics while the second one waits, and then the
second one has the mutex that the first one had. -/
theorem taken_over :
    let keys : Fin 2 → Key := fun _ => .descriptor "central" ⟨"g", "lib", "1.0"⟩
    ∃ s : Locks (Fin 2), Reach keys start s ∧ s.phase 0 = .holding .unwinding 0 ∧
      s.phase 1 = .holding .inside 0 ∧ s.Safe keys := by
  intro keys
  have hmake : Step keys start _ := .make (i := 0) rfl rfl
  have hrun := Relation.ReflTransGen.single hmake
  have hfound : update (start : Locks (Fin 2)).entries (keys 0) (some 0) (keys 1) = some 0 :=
    update_self (keys 0) _ _
  have hrun := hrun.tail (.find (i := 1) (m := 0) rfl hfound)
  have hrun := hrun.tail (.lock (i := 0) (m := 0) rfl rfl)
  have hrun := hrun.tail (.panic (i := 0) (m := 0) rfl)
  have hrun := hrun.tail (.unwind (i := 0) (m := 0) rfl)
  have hrun := hrun.tail (.lock (i := 1) (m := 0) rfl rfl)
  exact ⟨_, hrun, rfl, rfl, mutual_exclusion hrun⟩

/-! ## One call after the other -/

section Alone

variable [DecidableEq ι] {keys : ι → Key} {s : Locks ι} {i : ι} {m : Nat}

/-- No call is under way. -/
structure Resting (s : Locks ι) : Prop where
  free : ∀ i stage m, s.phase i ≠ .holding stage m
  unlocked : ∀ m, s.locked m = false

/-- These are the keys in the table. -/
def Lists (s : Locks ι) (held : List Key) : Prop := ∀ key, key ∈ held ↔ (s.entries key).isSome

/-- A call that nobody stands in the way of gets to its body, and sees two handles to its mutex. -/
theorem Sound.enter [Fintype ι] (h : s.Sound keys) (hr : s.Resting) (hp : s.phase i = .idle) :
    ∃ s' m, Reach keys s s' ∧ s'.entries = update s.entries (keys i) (some m) ∧
      s'.handles m = 2 ∧ s'.locked = update s.locked m true ∧
      s'.phase = update s.phase i (.holding .inside m) := by
  have hnone := holders_eq_zero hr.free
  have hwaiting : ∀ m, update s.phase i (.holding .waiting m) i = .holding .waiting m :=
    fun m => update_self _ _ _
  cases he : s.entries (keys i) with
  | some m =>
    have hfind := Step.find hp he
    refine ⟨_, m, .tail (.single hfind) (.lock (hwaiting m) (hr.unlocked m)), ?_, ?_, rfl, ?_⟩
    · dsimp only
      rw [← he, update_eq_self]
    · dsimp only
      rw [update_self, h.counted he, hnone]
    · dsimp only
      rw [update_idem]
  | none =>
    have hmake := Step.make hp he
    refine ⟨_, s.made, .tail (.single hmake) (.lock (hwaiting s.made) (update_self _ _ _)), rfl,
      update_self _ _ _, ?_, ?_⟩
    · dsimp only
      rw [update_idem]
    · dsimp only
      rw [update_idem]

/-- When its body has ended, it removes the entry of its key. -/
theorem reach_of_finish (hp : s.phase i = .holding .inside m) (he : s.entries (keys i) = some m)
    (hc : s.handles m = 2) :
    ∃ s', Reach keys s s' ∧ s'.entries = update s.entries (keys i) none ∧
      s'.locked = update s.locked m false ∧ s'.phase = update s.phase i .gone := by
  have hrun := Relation.ReflTransGen.single (Step.finish hp : Step keys s _)
  have hrun := hrun.tail (.unlock (update_self _ _ _))
  have hrun := hrun.tail (.remove (update_self _ _ _) he (Nat.le_of_eq hc))
  have hrun := hrun.tail (.drop (update_self _ _ _) (Or.inl rfl))
  refine ⟨_, hrun, rfl, rfl, ?_⟩
  simp only [update_idem]

/-- When its body has panicked, it leaves the entry behind. -/
theorem reach_of_panic (hp : s.phase i = .holding .inside m) :
    ∃ s', Reach keys s s' ∧ s'.entries = s.entries ∧
      s'.locked = update s.locked m false ∧ s'.phase = update s.phase i .gone := by
  have hrun := Relation.ReflTransGen.single (Step.panic hp : Step keys s _)
  have hrun := hrun.tail (.unwind (update_self _ _ _))
  have hrun := hrun.tail (.drop (update_self _ _ _) (Or.inr rfl))
  refine ⟨_, hrun, rfl, rfl, ?_⟩
  simp only [update_idem]

variable {σ α : Type}

omit [DecidableEq ι] in
theorem Lists.locked {s' : Locks ι} {w : World σ} {key : Key} {m : Nat} (h : s.Lists w.held)
    (he : s'.entries = update s.entries key (some m)) :
    s'.Lists (Action.lockedWorld key w).held := by
  intro other
  have hmem : other ∈ (Action.lockedWorld key w).held ↔ other = key ∨ other ∈ w.held := by
    unfold Action.lockedWorld
    dsimp only
    split
    · next hkey =>
      constructor
      · exact Or.inr
      · rintro (rfl | hother)
        · exact hkey
        · exact hother
    · exact List.mem_cons
  rw [hmem, he]
  by_cases hother : other = key
  · simp [hother]
  · simp [hother, h other]

omit [DecidableEq ι] in
theorem Lists.unlocked {s' : Locks ι} {w : World σ} {key : Key} (h : s.Lists w.held)
    (he : s'.entries = update s.entries key none) :
    s'.Lists (Action.unlockedWorld key w).held := by
  intro other
  rw [he]
  unfold Action.unlockedWorld
  by_cases hother : other = key
  · simp [hother]
  · simp [hother, h other]

/-- Where calls come one after the other, a locked action is such a call, and the world lists the
keys of the table before and after it. -/
theorem Sound.withLock [Fintype ι] (h : s.Sound keys) (hr : s.Resting) (hp : s.phase i = .idle)
    {body : Action σ α} (hbody : ∀ w, (body.finish w).2.held = w.held) {w : World σ}
    (hw : s.Lists w.held) :
    ∃ s', Reach keys s s' ∧ s'.Resting ∧ s'.phase = update s.phase i .gone ∧
      s'.Lists ((Action.withLock (keys i) body).finish w).2.held := by
  obtain ⟨s₁, m, hreach, hentries, hhandles, hlocked, hphase⟩ := h.enter hr hp
  have hinside : s₁.phase i = .holding .inside m := by rw [hphase, update_self]
  have hentry : s₁.entries (keys i) = some m := by rw [hentries, update_self]
  have hresting : ∀ {s' : Locks ι}, s'.locked = update s₁.locked m false →
      s'.phase = update s₁.phase i .gone → s'.Resting ∧ s'.phase = update s.phase i .gone := by
    intro s' hl' hp'
    rw [hlocked, update_idem] at hl'
    rw [hphase, update_idem] at hp'
    refine ⟨⟨?_, ?_⟩, hp'⟩
    · intro j stage m' hj
      rw [hp'] at hj
      rcases holding_of_update hj with ⟨_, hnew⟩ | ⟨_, hold⟩
      · cases hnew
      · exact hr.free j stage m' hold
    · intro m'
      rw [hl']
      by_cases hm : m' = m
      · rw [hm, update_self]
      · rw [update_of_ne hm, hr.unlocked]
  have hlists : s₁.Lists (Action.lockedWorld (keys i) w).held := hw.locked hentries
  rw [← hbody (Action.lockedWorld (keys i) w)] at hlists
  rw [Action.finish, Action.withLock_apply]
  rw [Action.finish] at hlists
  cases hb : body (Action.lockedWorld (keys i) w) with
  | ok v w₁ =>
    rw [hb] at hlists
    obtain ⟨s', hs', he', hl', hp'⟩ := reach_of_finish hinside hentry hhandles
    obtain ⟨hrest, hgone⟩ := hresting hl' hp'
    exact ⟨s', hreach.trans hs', hrest, hgone, hlists.unlocked he'⟩
  | error panic w₁ =>
    rw [hb] at hlists
    obtain ⟨s', hs', he', hl', hp'⟩ := @reach_of_panic ι _ keys s₁ i m hinside
    obtain ⟨hrest, hgone⟩ := hresting hl' hp'
    refine ⟨s', hreach.trans hs', hrest, hgone, fun key => ?_⟩
    rw [he']
    exact hlists key

end Alone

end Locks
end ArtifactResolver.Cache
