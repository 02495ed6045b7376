import ArtifactResolver.Proofs.Cache.Locks

/-!
# Entries that are left in the table of locks

A call counts the handles to its mutex while it still has its own. If another call of its key has
seen to the entry before and has not dropped its handle yet, it counts three and leaves the entry
to that call, which does not look at it again. Without panics this is the only way in which an entry
outlives the calls that use it. Only the table has a handle to what is left then, and the next call
of the key takes it away if it is alone.
-/

namespace ArtifactResolver.Cache

open Function

/-- Whether a call at this stage has still to see to the entry of the table. -/
def Stage.tends : Stage → Bool
  | waiting | inside | finished | unlocked => true
  | _ => false

/-- Whether a call at this stage has not panicked. -/
def Stage.calm : Stage → Bool
  | panicked | unwinding => false
  | _ => true

theorem Stage.tends_of_calm {stage : Stage} (hcalm : stage.calm = true) (hne : stage ≠ leaving) :
    stage.tends = true := by
  cases stage with
  | waiting | inside | finished | unlocked => rfl
  | leaving => exact absurd rfl hne
  | panicked | unwinding => cases hcalm

/-- The call has still to see to the entry of the table. -/
def Phase.Tends : Phase → Prop
  | holding stage _ => stage.tends = true
  | _ => False

/-- The call has not panicked, or has nothing to do with the table any more. -/
def Phase.Calm : Phase → Prop
  | holding stage _ => stage.calm = true
  | _ => True

namespace Locks

variable {ι : Type}

/-- No call has panicked with a handle that it still has. -/
def Calm (phase : ι → Phase) : Prop := ∀ i, (phase i).Calm

/-- Some call of the key has still to see to its entry. -/
def Tended (keys : ι → Key) (phase : ι → Phase) (key : Key) : Prop :=
  ∃ i, keys i = key ∧ (phase i).Tends

/-- Two calls of the key have seen to its entry, and both still have their handles. -/
def Overlapping (keys : ι → Key) (phase : ι → Phase) (key : Key) : Prop :=
  ∃ i j m, i ≠ j ∧ keys i = key ∧ keys j = key ∧
    phase i = .holding .leaving m ∧ phase j = .holding .leaving m

/-- No mutex is stored under another key than that of the calls that have a handle to it. -/
def Homed (keys : ι → Key) (s : Locks ι) : Prop :=
  ∀ {i stage m key}, s.phase i = .holding stage m → s.entries key = some m → keys i = key

/-- Every mutex that is taken was taken by a call that has not given it back. -/
def Owned (s : Locks ι) : Prop :=
  ∀ {m}, s.locked m = true → ∃ i stage, s.phase i = .holding stage m ∧ stage.locks = true

section Run

variable [DecidableEq ι] (keys : ι → Key)

/-- What steps of the calls lead to if none of them panics. -/
def CalmReach (s s' : Locks ι) : Prop :=
  Relation.ReflTransGen (fun before after => Step keys before after ∧ Calm after.phase) s s'

variable {keys} {s s' : Locks ι} {i j : ι} {p : Phase} {stage : Stage} {m : Nat} {key : Key}

theorem CalmReach.reach (h : CalmReach keys s s') : Reach keys s s' :=
  Relation.ReflTransGen.mono (fun _ _ hstep => And.left hstep) s s' h

theorem CalmReach.calm (h : CalmReach keys start s) : Calm s.phase := by
  cases h with
  | refl => exact fun _ => trivial
  | tail _ hstep => exact hstep.2

theorem Calm.update {phase : ι → Phase} (h : Calm phase) (hp : p.Calm) :
    Calm (update phase i p) := by
  intro j
  by_cases hji : j = i
  · rw [hji, update_self]
    exact hp
  · rw [update_of_ne hji]
    exact h j

theorem CalmReach.next (h : CalmReach keys start s) (hstep : Step keys s s')
    (hphase : s'.phase = update s.phase i p) (hp : p.Calm) : CalmReach keys start s' :=
  h.tail ⟨hstep, hphase ▸ h.calm.update hp⟩

/-! ## The mutexes, their keys and their owners -/

theorem Homed.update (h : s.Homed keys) {entries : Key → Option Nat} {handles : Nat → Nat}
    {locked : Nat → Bool} {made : Nat}
    (hentries : ∀ {key m}, entries key = some m → s.entries key = some m)
    (hp : ∀ {stage m key}, p = .holding stage m → s.entries key = some m → keys i = key) :
    Homed keys ⟨entries, handles, locked, made, update s.phase i p⟩ := by
  intro j stage m key hj hk
  rcases holding_of_update hj with ⟨rfl, hnew⟩ | ⟨_, hold⟩
  · exact hp hnew (hentries hk)
  · exact h hold (hentries hk)

/-- A call that keeps its mutex keeps to its key. -/
theorem Homed.move (h : s.Homed keys) (hp : s.phase i = .holding stage m) {stage' : Stage}
    {entries : Key → Option Nat} {handles : Nat → Nat} {locked : Nat → Bool} {made : Nat}
    (hentries : ∀ {key m}, entries key = some m → s.entries key = some m) :
    Homed keys ⟨entries, handles, locked, made, Function.update s.phase i (.holding stage' m)⟩ := by
  refine h.update hentries ?_
  intro stage'' m' key hnew hk
  obtain ⟨_, rfl⟩ := Phase.holding.inj hnew
  exact h hp hk

theorem Homed.step [Fintype ι] (h : s.Homed keys) (hsound : s.Sound keys)
    (hs : Step keys s s') : s'.Homed keys := by
  cases hs with
  | find hp he =>
    refine h.update id ?_
    intro stage m' key hnew hk
    obtain ⟨_, rfl⟩ := Phase.holding.inj hnew
    exact hsound.apart he hk
  | @make i hp he =>
    intro j stage m key hj hk
    have hfresh : ∀ {j stage}, s.phase j ≠ .holding stage s.made := by
      intro j stage hold
      exact absurd (holders_pos hold) (by rw [hsound.fresh (Nat.le_refl _)]; exact Nat.lt_irrefl 0)
    by_cases hkey : key = keys i
    · subst hkey
      obtain rfl := Option.some.inj ((update_self (keys i) _ _).symm.trans hk)
      rcases holding_of_update hj with ⟨rfl, _⟩ | ⟨_, hold⟩
      · rfl
      · exact absurd hold hfresh
    · have hk : s.entries key = some m := (update_of_ne hkey _ _).symm.trans hk
      rcases holding_of_update hj with ⟨_, hnew⟩ | ⟨_, hold⟩
      · obtain ⟨_, rfl⟩ := Phase.holding.inj hnew
        exact absurd (hsound.known hk) (Nat.lt_irrefl _)
      · exact h hold hk
  | lock hp => exact h.move hp id
  | finish hp => exact h.move hp id
  | panic hp => exact h.move hp id
  | unlock hp => exact h.move hp id
  | unwind hp => exact h.move hp id
  | @remove i m stored hp =>
    refine h.move hp ?_
    intro key m' hk
    by_cases hkey : key = keys i
    · rw [hkey, update_self] at hk
      cases hk
    · exact (update_of_ne hkey _ _).symm.trans hk
  | retain hp => exact h.move hp id
  | drop => exact h.update id fun hnew => by cases hnew

/-- A mutex that is taken after a step is the one that the call has now, or it was taken before, and
not by this call. -/
theorem Owned.update (h : s.Owned) {entries : Key → Option Nat} {handles : Nat → Nat}
    {locked : Nat → Bool} {made : Nat}
    (hlocked : ∀ {m}, locked m = true →
      (∃ stage, p = .holding stage m ∧ stage.locks = true) ∨
        s.locked m = true ∧ ∀ stage, s.phase i = .holding stage m → stage.locks ≠ true) :
    Owned ⟨entries, handles, locked, made, Function.update s.phase i p⟩ := by
  intro m hm
  rcases hlocked hm with ⟨stage, hp, hl⟩ | ⟨hm, hother⟩
  · exact ⟨i, stage, (update_self _ _ _).trans hp, hl⟩
  · obtain ⟨j, stage, hj, hl⟩ := h hm
    have hji : j ≠ i := by
      rintro rfl
      exact hother stage hj hl
    exact ⟨j, stage, (update_of_ne hji _ _).trans hj, hl⟩

/-- A step of a call that has no mutex takes none from the others. -/
theorem Owned.update_unlocked (h : s.Owned) {entries : Key → Option Nat} {handles : Nat → Nat}
    {locked : Nat → Bool} {made : Nat} (hi : ¬ (s.phase i).Locking)
    (hlocked : ∀ {m}, locked m = true → s.locked m = true) :
    Owned ⟨entries, handles, locked, made, Function.update s.phase i p⟩ := by
  refine h.update fun hm => Or.inr ⟨hlocked hm, fun stage hp hl => hi ?_⟩
  rw [hp]
  exact hl

/-- A call has its mutex after a step, and the step takes none from the others. -/
theorem Owned.advance (h : s.Owned) (hp : s.phase i = .holding stage m) {stage' : Stage}
    (hl : stage'.locks = true) {locked : Nat → Bool}
    (hrest : ∀ {m'}, m' ≠ m → locked m' = true → s.locked m' = true) :
    Owned { s with locked := locked, phase := Function.update s.phase i (.holding stage' m) } := by
  refine h.update fun {m'} hm => ?_
  by_cases hmm : m' = m
  · exact Or.inl ⟨stage', by rw [hmm], hl⟩
  · exact Or.inr ⟨hrest hmm hm, fun _ hp' => absurd (Phase.holding.inj (hp'.symm.trans hp)).2 hmm⟩

/-- A call gives its mutex back, and no other. -/
theorem Owned.release (h : s.Owned) (hp : s.phase i = .holding stage m) :
    Owned { s with
      locked := Function.update s.locked m false
      phase := Function.update s.phase i p } := by
  refine h.update fun {m'} hm => ?_
  by_cases hmm : m' = m
  · rw [hmm, update_self] at hm
    cases hm
  · rw [update_of_ne hmm] at hm
    exact Or.inr ⟨hm, fun _ hp' => absurd (Phase.holding.inj (hp'.symm.trans hp)).2 hmm⟩

theorem Owned.step (h : s.Owned) (hs : Step keys s s') : s'.Owned := by
  cases hs with
  | find hp => exact h.update_unlocked (by rw [hp]; exact id) id
  | make hp =>
    refine h.update_unlocked (by rw [hp]; exact id) fun {m} hm => ?_
    by_cases hm' : m = s.made
    · rw [hm', update_self] at hm
      cases hm
    · rwa [update_of_ne hm'] at hm
  | lock hp => exact h.advance hp rfl fun hne hm => by rwa [update_of_ne hne] at hm
  | finish hp => exact h.advance hp rfl fun _ => id
  | panic hp => exact h.advance hp rfl fun _ => id
  | unlock hp => exact h.release hp
  | unwind hp => exact h.release hp
  | remove hp => exact h.update_unlocked (by rw [hp]; exact Bool.false_ne_true) id
  | retain hp => exact h.update_unlocked (by rw [hp]; exact Bool.false_ne_true) id
  | drop hp hd =>
    refine h.update_unlocked ?_ id
    rw [hp]
    rcases hd with rfl | rfl
    · exact Bool.false_ne_true
    · exact Bool.false_ne_true

theorem Homed.reach [Fintype ι] (hs : Reach keys start s) : s.Homed keys := by
  induction hs with
  | refl => exact fun hp => by cases hp
  | tail hrun hstep ih => exact ih.step ((sound_start keys).reach hrun) hstep

theorem Owned.reach (hs : Reach keys start s) : s.Owned := by
  induction hs with
  | refl => exact fun hm => by cases hm
  | tail _ hstep ih => exact ih.step hstep

/-- Where no call is under way, no mutex is taken. -/
theorem Resting.of_free (hs : Reach keys start s)
    (hfree : ∀ i stage m, s.phase i ≠ .holding stage m) : s.Resting := by
  refine ⟨hfree, fun m => Bool.eq_false_iff.2 fun hm => ?_⟩
  obtain ⟨i, stage, hi, _⟩ := Owned.reach hs hm
  exact hfree i stage m hi

/-! ## Who sees to an entry -/

/-- Only a call of the key that sees to the entry can leave it without one that tends it. -/
theorem Tended.update {phase : ι → Phase} (h : Tended keys phase key)
    (hp : keys i = key → (phase i).Tends → p.Tends) : Tended keys (update phase i p) key := by
  obtain ⟨j, hkey, hj⟩ := h
  by_cases hji : j = i
  · subst hji
    exact ⟨j, hkey, by rw [update_self]; exact hp hkey hj⟩
  · exact ⟨j, hkey, by rwa [update_of_ne hji]⟩

omit [DecidableEq ι] in
theorem exists_other_holder [Fintype ι] {phase : ι → Phase} (htwo : 2 ≤ holders phase m) (i : ι) :
    ∃ j stage, j ≠ i ∧ phase j = .holding stage m := by
  obtain ⟨j, hj, hji⟩ := Finset.exists_mem_ne htwo i
  obtain ⟨stage, hphase⟩ := exists_of_mem_holders hj
  exact ⟨j, stage, hji, hphase⟩

/-- A call that leaves the entry counts another call's handle. That call has still to see to the
entry, or it has done so and is on its way out as well. -/
theorem Sound.tended_of_retain [Fintype ι] (h : s.Sound keys) (hhomed : s.Homed keys)
    (hcalm : Calm s.phase) (hp : s.phase i = .holding .unlocked m)
    (hc : ∀ stored, s.entries (keys i) = some stored → 2 < s.handles stored) :
    Tended keys (Function.update s.phase i (.holding .leaving m)) (keys i) ∨
      Overlapping keys (Function.update s.phase i (.holding .leaving m)) (keys i) := by
  have hstored : s.entries (keys i) = some m := h.stored hp (by simp)
  -- one handle is that of the table and one that of the call, so there is another holder
  have htwo : 2 ≤ holders s.phase m := by
    have hcounted := h.counted hstored
    have hmany := hc m hstored
    omega
  obtain ⟨j, stage, hji, hj⟩ := exists_other_holder htwo i
  have hkey : keys j = keys i := hhomed hj hstored
  have hrest : Function.update s.phase i (.holding .leaving m) j = .holding stage m :=
    (update_of_ne hji _ _).trans hj
  by_cases hleaving : stage = .leaving
  · subst hleaving
    exact Or.inr ⟨i, j, m, hji.symm, rfl, hkey, update_self _ _ _, hrest⟩
  · have hjcalm := hcalm j
    rw [hj] at hjcalm
    refine Or.inl ⟨j, hkey, ?_⟩
    rw [hrest]
    exact Stage.tends_of_calm hjcalm hleaving

/-- A step without a panic leaves an entry tended, unless two calls are on their way out now and
both have left it. -/
theorem Sound.tended_step [Fintype ι] (h : s.Sound keys) (hhomed : s.Homed keys)
    (hcalm : Calm s.phase) (hs : Step keys s s') (hcalm' : Calm s'.phase)
    (htended : Tended keys s.phase key) (hm : s'.entries key = some m) :
    Tended keys s'.phase key ∨ Overlapping keys s'.phase key := by
  cases hs with
  | find hp => exact Or.inl (htended.update fun _ _ => rfl)
  | make hp => exact Or.inl (htended.update fun _ _ => rfl)
  | lock hp => exact Or.inl (htended.update fun _ _ => rfl)
  | finish hp => exact Or.inl (htended.update fun _ _ => rfl)
  | unlock hp => exact Or.inl (htended.update fun _ _ => rfl)
  | @panic i _ hp =>
    have hi := hcalm' i
    dsimp only at hi
    rw [update_self] at hi
    cases hi
  | @unwind i _ hp =>
    have hi := hcalm i
    rw [hp] at hi
    cases hi
  | @remove i _ stored hp =>
    refine Or.inl (htended.update fun hkey _ => ?_)
    dsimp only at hm
    rw [hkey, update_self] at hm
    cases hm
  | @retain i _ hp hc =>
    by_cases hkey : keys i = key
    · subst hkey
      exact h.tended_of_retain hhomed hcalm hp hc
    · exact Or.inl (htended.update fun hkey' => absurd hkey' hkey)
  | drop hp hd =>
    refine Or.inl (htended.update fun _ hi => ?_)
    rw [hp] at hi
    rcases hd with rfl | rfl
    · cases hi
    · cases hi

/-- An entry was there before a step, or the call that made it has still to see to it. -/
theorem Step.tended_or_entry (hs : Step keys s s') (hm : s'.entries key = some m) :
    Tended keys s'.phase key ∨ s.entries key = some m := by
  cases hs with
  | @make i hp he =>
    by_cases hkey : keys i = key
    · refine Or.inl ⟨i, hkey, ?_⟩
      dsimp only
      rw [update_self]
      rfl
    · exact Or.inr ((update_of_ne (Ne.symm hkey) _ _).symm.trans hm)
  | @remove i _ stored hp he hc =>
    by_cases hkey : key = keys i
    · dsimp only at hm
      rw [hkey, update_self] at hm
      cases hm
    · exact Or.inr ((update_of_ne hkey _ _).symm.trans hm)
  | _ => exact Or.inr hm

/-- On a run without panics, an entry that nobody tends was left by two calls at once. -/
theorem CalmReach.overlapped [Fintype ι] (hs : CalmReach keys start s)
    (hm : s.entries key = some m) (htended : ¬ Tended keys s.phase key) :
    ∃ between, CalmReach keys start between ∧ CalmReach keys between s ∧
      Overlapping keys between.phase key := by
  induction hs with
  | refl => cases hm
  | @tail before after hrun hstep ih =>
    have hsound : before.Sound keys := (sound_start keys).reach (CalmReach.reach hrun)
    have hhomed : before.Homed keys := Homed.reach (CalmReach.reach hrun)
    have hend : CalmReach keys start after := .tail hrun hstep
    -- the last moment at which somebody tended the entry is that of the overlap
    by_cases hbefore : Tended keys before.phase key
    · rcases hsound.tended_step hhomed (CalmReach.calm hrun) hstep.1 hstep.2 hbefore hm with
        hkept | hboth
      · exact absurd hkept htended
      · exact ⟨after, hend, .refl, hboth⟩
    · rcases hstep.1.tended_or_entry hm with hmade | hold
      · exact absurd hmade htended
      · obtain ⟨between, hfirst, hsecond, hboth⟩ := ih hold hbefore
        exact ⟨between, hfirst, hsecond.tail hstep, hboth⟩

/-! ## Two calls that leave an entry to each other -/

/-- A call whose mutex is free takes it, runs its body and gives it back. -/
theorem CalmReach.pass (h : CalmReach keys start s) (hp : s.phase i = .holding .waiting m)
    (hl : s.locked m = false) :
    CalmReach keys start
      { s with phase := Function.update s.phase i (.holding .unlocked m) } := by
  have hrun := h.next (.lock hp hl) rfl rfl
  have hrun := hrun.next (.finish (update_self _ _ _)) rfl rfl
  have hrun := hrun.next (.unlock (update_self _ _ _)) rfl rfl
  have hlocked : Function.update s.locked m false = s.locked := by rw [← hl, update_eq_self]
  simpa only [update_idem, hlocked] using hrun

theorem update_first {α : Type} (hij : i ≠ j) (f : ι → α) (a b c : α) :
    update (update (update f i a) j b) i c = update (update f i c) j b := by
  rw [update_comm hij.symm, update_idem]

/-- Both calls count the handles before either of them drops its own. -/
theorem CalmReach.leave (h : CalmReach keys start s) (hij : i ≠ j) (hkey : keys j = keys i)
    (hi : s.phase i = .holding .unlocked m) (hj : s.phase j = .holding .unlocked m)
    (he : s.entries (keys i) = some m) (hc : 2 < s.handles m) :
    ∃ s', CalmReach keys start s' ∧ s'.entries = s.entries ∧
      s'.phase = Function.update (Function.update s.phase i .gone) j .gone := by
  have hmany : ∀ stored, s.entries (keys i) = some stored → 2 < s.handles stored := by
    intro stored hstored
    rw [he] at hstored
    cases hstored
    exact hc
  have hrun := h.next (.retain hi hmany) rfl rfl
  -- the first call has not dropped its handle, so the count is the same for the second one
  have hrun := hrun.next (.retain ((update_of_ne hij.symm _ _).trans hj) (by rwa [hkey])) rfl rfl
  have hrun := hrun.next
    (.drop ((update_of_ne hij _ _).trans (update_self _ _ _)) (Or.inl rfl)) rfl trivial
  have hrun := hrun.next
    (.drop ((update_of_ne hij.symm _ _).trans (update_self _ _ _)) (Or.inl rfl)) rfl trivial
  refine ⟨_, hrun, rfl, ?_⟩
  dsimp only
  rw [update_first hij, update_idem]

/-- Any two calls of one key can leave its entry to each other. -/
theorem exists_leftover (hij : i ≠ j) (hkey : keys j = keys i) :
    ∃ s, CalmReach keys start s ∧ s.entries (keys i) = some 0 ∧
      s.phase = Function.update (Function.update start.phase i .gone) j .gone := by
  have hfirst : Function.update start.phase i (.holding .waiting 0) i = .holding .waiting 0 :=
    update_self _ _ _
  have hrun : CalmReach keys start _ := .next .refl (.make (i := i) rfl rfl) rfl rfl
  have hrun := hrun.next (.find (i := j) (m := 0) (update_of_ne hij.symm _ _)
    (by rw [hkey]; exact update_self _ _ _)) rfl rfl
  have hrun := hrun.pass (i := i) (m := 0) ((update_of_ne hij _ _).trans hfirst) rfl
  have hrun := hrun.pass (i := j) (m := 0)
    ((update_of_ne hij.symm _ _).trans (update_self _ _ _)) rfl
  obtain ⟨s, hend, hentries, hphase⟩ := hrun.leave hij hkey
    ((update_of_ne hij _ _).trans (update_self _ _ _)) (update_self _ _ _)
    (update_self _ _ _) (Nat.le_refl 3)
  refine ⟨s, hend, hentries ▸ update_self _ _ _, ?_⟩
  rw [hphase]
  dsimp only
  rw [update_first hij, update_idem, update_first hij, update_idem]

/-! ## What is left when all calls have ended -/

/-- Where no call is under way and none has panicked, every entry in the table was left by two calls
of its key that were on their way out at the same time, and only the table has a handle to its
mutex, which is free. So the table is empty unless two calls of one key overlapped in this way. And
a call that comes next and is alone takes the entry of its key away. -/
theorem entries_at_rest [Fintype ι] (hs : CalmReach keys start s)
    (hfree : ∀ i stage m, s.phase i ≠ .holding stage m) :
    (∀ key m, s.entries key = some m → s.handles m = 1 ∧ s.locked m = false ∧
      ∃ between, CalmReach keys start between ∧ CalmReach keys between s ∧
        Overlapping keys between.phase key) ∧
    (∀ i, s.phase i = .idle → ∃ s', Reach keys s s' ∧
      s'.entries = Function.update s.entries (keys i) none ∧
      s'.phase = Function.update s.phase i .gone) := by
  have hsound : s.Sound keys := (sound_start keys).reach hs.reach
  have hresting : s.Resting := .of_free hs.reach hfree
  refine ⟨fun key m hm => ⟨?_, hresting.unlocked m, ?_⟩, fun i hi => ?_⟩
  · have hcounted := hsound.counted hm
    have hnone : holders s.phase m = 0 := holders_eq_zero hfree m
    omega
  · refine hs.overlapped hm ?_
    rintro ⟨i, -, hi⟩
    cases hphase : s.phase i with
    | holding stage m' => exact hfree i stage m' hphase
    | idle => rw [hphase] at hi; exact hi
    | gone => rw [hphase] at hi; exact hi
  · obtain ⟨inside, m, henter, hentries, hhandles, -, hphase⟩ := hsound.enter hresting hi
    have hinside : inside.phase i = .holding .inside m := by rw [hphase, update_self]
    have hentry : inside.entries (keys i) = some m := by rw [hentries, update_self]
    obtain ⟨s', hleave, hentries', -, hphase'⟩ := reach_of_finish hinside hentry hhandles
    refine ⟨s', henter.trans hleave, ?_, ?_⟩
    · rw [hentries', hentries, update_idem]
    · rw [hphase', hphase, update_idem]

end Run

/-- Two calls for one descriptor have ended without a panic, and its entry is still there. -/
theorem entry_left_behind :
    let keys : Fin 2 → Key := fun _ => .descriptor "central" ⟨"g", "lib", "1.0"⟩
    ∃ s : Locks (Fin 2), CalmReach keys start s ∧ (∀ i, s.phase i = .gone) ∧
      s.entries (.descriptor "central" ⟨"g", "lib", "1.0"⟩) = some 0 := by
  intro keys
  have hne : (0 : Fin 2) ≠ 1 := by decide
  have hkey : keys 1 = keys 0 := rfl
  obtain ⟨s, hs, hentries, hphase⟩ := exists_leftover hne hkey
  refine ⟨s, hs, fun i => ?_, hentries⟩
  rw [hphase]
  match i with
  | 0 => rfl
  | 1 => rfl

/-- A third call for the descriptor then takes the entry away. -/
theorem entry_taken_away :
    let keys : Fin 3 → Key := fun _ => .descriptor "central" ⟨"g", "lib", "1.0"⟩
    ∃ s s' : Locks (Fin 3), CalmReach keys start s ∧ (∀ i stage m, s.phase i ≠ .holding stage m) ∧
      s.entries (keys 2) = some 0 ∧ s.handles 0 = 1 ∧ s.locked 0 = false ∧
      Reach keys s s' ∧ s'.entries (keys 2) = none := by
  intro keys
  have hne : (0 : Fin 3) ≠ 1 := by decide
  have hkey : keys 1 = keys 0 := rfl
  obtain ⟨s, hs, hentries, hphase⟩ := exists_leftover hne hkey
  have hfree : ∀ i stage m, s.phase i ≠ .holding stage m := by
    intro i stage m hi
    rw [hphase] at hi
    match i with
    | 0 => cases hi
    | 1 => cases hi
    | 2 => cases hi
  have hidle : s.phase 2 = .idle := by
    rw [hphase]
    rfl
  obtain ⟨hleft, hnext⟩ := entries_at_rest hs hfree
  obtain ⟨hhandles, hlocked, -⟩ := hleft (keys 2) 0 hentries
  obtain ⟨s', hreach, hentries', -⟩ := hnext 2 hidle
  refine ⟨s, s', hs, hfree, hentries, hhandles, hlocked, hreach, ?_⟩
  rw [hentries', update_self]

end Locks
end ArtifactResolver.Cache
