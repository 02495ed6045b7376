import ArtifactResolver.Proofs.Traffic

/-!
# One call for many lookups

Once one of many lookups of a request has written its entry, all that begin later find it, and make
do with it as long as it is trusted. What carries this from step to step is that whoever has the
lock after the write can only come to the value that was written, and that nobody else can reach the
entry.
-/

namespace ArtifactResolver

open Function

variable {σ : Type}

theorem Cache.eq_ok_of_isOk {result : Except CacheError Unit} (h : result.isOk = true) :
    result = .ok () := by
  cases result with
  | ok _ => rfl
  | error e => cases h

/-- The lookup has written its entry, and that is still trusted. -/
structure Flight.Vouches (l : Flight σ) (v : Cache.View σ) (e : σ) (x : Attempt) : Prop where
  mem : x ∈ l.writes
  success : x.success = true
  fresh : l.trust.isFresh ⟨v.now e - x.time⟩ = true

theorem Flight.Vouches.earlier {l : Flight σ} {v : Cache.View σ} {e e' : σ} {x : Attempt}
    (h : l.Vouches v e' x) (hle : v.now e ≤ v.now e') : l.Vouches v e x :=
  ⟨h.mem, h.success, Trust.isFresh_of_le (Nat.sub_le_sub_right hle x.time) h.fresh⟩

namespace Traffic

/-! ## The entry that was written -/

/-- What holds of lookups that are under way together. -/
structure Sound (repositories : List (Repository σ)) (v : Cache.View σ) (s : Traffic σ) :
    Prop where
  occurs : v.occurs s.world.env
  /-- All lookups are for repositories of the list. -/
  mem : ∀ {i l}, s.flight i = some l → l.repository ∈ repositories
  each : ∀ {i l}, s.flight i = some l → l.Sound
  /-- Two lookups with one key do not have the lock at the same time. -/
  apart : ∀ {i j l l'}, s.flight i = some l → s.flight j = some l' → l.Locks → l'.Locks →
    l.key = l'.key → i = j
  /-- An entry that was written is there as long as it is trusted. -/
  kept : ∀ {i l x}, s.flight i = some l → l.Vouches v s.world.env x →
    v.entry s.world.env l.key = some (x.bytes, x.time)
  /-- And for so long, whoever else has its lock makes do with it. -/
  served : ∀ {i l x j l'}, s.flight i = some l → l.Vouches v s.world.env x →
    s.flight j = some l' → j ≠ i → l'.Locks → l'.key = l.key → l'.Served x.bytes

variable {repositories : List (Repository σ)} {v : Cache.View σ} {s s' : Traffic σ} {i j : Nat}
  {l l' : Flight σ} {w : World σ}

theorem Sound.start (hoccurs : v.occurs s.world.env) (hnone : ∀ i, s.flight i = none) :
    s.Sound repositories v where
  occurs := hoccurs
  mem h := by cases (hnone _).symm.trans h
  each h := by cases (hnone _).symm.trans h
  apart h := by cases (hnone _).symm.trans h
  kept h := by cases (hnone _).symm.trans h
  served h := by cases (hnone _).symm.trans h

section Sound

variable (hnames : (repositories.map (·.name)).Nodup)
  (hsteady : ∀ r ∈ repositories, r.store.Steady v) (h : s.Sound repositories v)
include h

theorem Sound.outside {e : σ} (hl : v.Later s.world.env e) :
    Sound repositories v ⟨{ s.world with env := e }, s.flight⟩ where
  occurs := hl.occurs
  mem := h.mem
  each := h.each
  apart := h.apart
  kept hj hx := (hl.entry_eq _).trans (h.kept hj (hx.earlier hl.now_le))
  served hj hx := h.served hj (hx.earlier hl.now_le)

theorem Sound.apart_of_move (hm : Flight.Move repositories v s.world (s.flight i) l w)
    {k : Nat} {l₁ l₂ : Flight σ} (hj : update s.flight i (some l) j = some l₁)
    (hk : update s.flight i (some l) k = some l₂) (h₁ : l₁.Locks) (h₂ : l₂.Locks)
    (hkey : l₁.key = l₂.key) : j = k := by
  -- Whoever has the lock after the move has had it before.
  have hbefore : ∀ {j l₁}, update s.flight i (some l) j = some l₁ → l₁.Locks →
      ∃ l₀, s.flight j = some l₀ ∧ l₀.Locks ∧ l₀.key = l₁.key := by
    intro j l₁ hj h₁
    rcases flight_of_update hj with ⟨rfl, rfl⟩ | ⟨_, hold⟩
    · obtain ⟨l₀, hl₀, h₀⟩ := hm.locks h₁
      rw [hl₀] at hm
      exact ⟨l₀, hl₀, h₀, hm.same.2.1⟩
    · exact ⟨l₁, hold, h₁, rfl⟩
  obtain ⟨l₀, hl₀, h₀, hkey₀⟩ := hbefore hj h₁
  obtain ⟨l₀', hl₀', h₀', hkey₀'⟩ := hbefore hk h₂
  exact h.apart hl₀ hl₀' h₀ h₀' (hkey₀.trans (hkey.trans hkey₀'.symm))

include hsteady

/-- Time does not go back, and the world that a move leaves is one that can occur. -/
theorem Sound.move_world
    (hm : Flight.Move repositories v s.world (s.flight i) l w) :
    v.occurs w.env ∧ v.now s.world.env ≤ v.now w.env := by
  rcases hm.env fun l₀ hl₀ => h.each hl₀ with ⟨he, _⟩ | ⟨l₀, bytes, hl₀, _, _, _, he, _⟩
  · rw [he]
    exact ⟨h.occurs, le_rfl⟩
  · have hstore := hsteady _ (h.mem hl₀)
    rw [he]
    exact ⟨hstore.occurs_write h.occurs, hstore.now_le h.occurs _ _⟩

/-- A move leaves an entry that is vouched for as it is. -/
theorem Sound.entry_of_move
    (hm : Flight.Move repositories v s.world (s.flight i) l w) {x : Attempt}
    (hj : s.flight j = some l') (hx : l'.Vouches v s.world.env x) :
    v.entry w.env l'.key = some (x.bytes, x.time) := by
  have hkept := h.kept hj hx
  rcases hm.env fun l₀ hl₀ => h.each hl₀ with ⟨he, _⟩ | ⟨l₀, bytes, hl₀, hlocks, hw, hnot, he, _⟩
  · rw [he, hkept]
  · -- Whoever writes has the lock and is not served, so it is for another entry.
    have hne : l'.key ≠ l₀.key := by
      intro hkey
      by_cases hij : i = j
      · subst hij
        obtain rfl := Option.some.inj (hj.symm.trans hl₀)
        have hmem := hx.mem
        rw [hw] at hmem
        cases hmem
      · exact hnot _ (h.served hj hx hl₀ hij hlocks hkey.symm)
    rw [he, (hsteady _ (h.mem hl₀)).entry_of_ne h.occurs hne, hkept]

/-- Whoever vouches for an entry after a move has done so before it, or has just written it with the
lock. -/
theorem Sound.vouches_of_move
    (hm : Flight.Move repositories v s.world (s.flight i) l w) {x : Attempt}
    (hj : update s.flight i (some l) j = some l') (hx : l'.Vouches v w.env x) :
    (∃ l₀, s.flight j = some l₀ ∧ l₀.key = l'.key ∧ l₀.Vouches v s.world.env x) ∨
      (j = i ∧ v.entry w.env l'.key = some (x.bytes, x.time) ∧
        ∃ l₀, s.flight i = some l₀ ∧ l₀.Locks ∧ l₀.key = l'.key) := by
  have hx' := hx.earlier (h.move_world hsteady hm).2
  rcases flight_of_update hj with ⟨rfl, rfl⟩ | ⟨_, hold⟩
  · rcases hm.env fun l₀ hl₀ => h.each hl₀ with ⟨_, hw⟩ | ⟨l₀, bytes, hl₀, hlocks, _, _, he, hw⟩
    · rcases hw with hw | ⟨l₀, hl₀, hw⟩
      · have hmem := hx.mem
        rw [hw] at hmem
        cases hmem
      · rw [hl₀] at hm
        obtain ⟨_, hkey, htrust⟩ := hm.same
        exact Or.inl ⟨l₀, hl₀, hkey, ⟨hw ▸ hx'.mem, hx'.success, htrust ▸ hx'.fresh⟩⟩
    · have hmem := hx.mem
      rw [hw] at hmem
      obtain rfl := List.mem_singleton.1 hmem
      have hstore := hsteady _ (h.mem hl₀)
      rw [hl₀] at hm
      obtain ⟨_, hkey, _⟩ := hm.same
      have hentry := hstore.entry_write h.occurs (Cache.eq_ok_of_isOk hx.success) l₀.key
      rw [if_pos rfl, ← he, hkey] at hentry
      exact Or.inr ⟨rfl, hentry, l₀, hl₀, hlocks, hkey⟩
  · exact Or.inl ⟨l', hold, rfl, hx'⟩

include hnames

/-- A lookup that is served by an entry that is vouched for goes on to be served by it. -/
theorem Sound.served_of_move
    (hm : Flight.Move repositories v s.world (s.flight i) l w) {l₀ : Flight σ} {x : Attempt}
    (hj : s.flight j = some l') (hx : l'.Vouches v s.world.env x) (hi : s.flight i = some l₀)
    (hkey : l₀.key = l'.key) (hserved : l₀.Served x.bytes) : l.Served x.bytes := by
  have hstore := hsteady _ (h.mem hi)
  have hkept := h.kept hj hx
  have htrust := Flight.trust_of_key hnames (h.mem hi) (h.mem hj) hkey
  have hage := hstore.age_eq h.occurs l₀.key
  have hread := hstore.read_eq h.occurs l₀.key
  rw [hkey, hkept, ← hkey] at hage hread
  rw [hi] at hm
  exact hm.served hserved hage (htrust ▸ hx.fresh) hread

/-- A move of one lookup keeps all of them sound. -/
theorem Sound.move
    (hm : Flight.Move repositories v s.world (s.flight i) l w) :
    Sound repositories v ⟨w, update s.flight i (some l)⟩ where
  occurs := (h.move_world hsteady hm).1
  mem {j l₁} hj := by
    rcases flight_of_update hj with ⟨_, rfl⟩ | ⟨_, hold⟩
    · exact hm.mem fun l₀ hl₀ => h.mem hl₀
    · exact h.mem hold
  each {j l₁} hj := by
    rcases flight_of_update hj with ⟨_, rfl⟩ | ⟨_, hold⟩
    · exact hm.sound fun l₀ hl₀ => h.each hl₀
    · exact h.each hold
  apart hj hk h₁ h₂ hkey := h.apart_of_move hm hj hk h₁ h₂ hkey
  kept {j l₁ x} hj hx := by
    rcases h.vouches_of_move hsteady hm hj hx with ⟨l₀, hl₀, hkey, hx₀⟩ | ⟨_, hentry, _⟩
    · rw [← hkey]
      exact h.entry_of_move hsteady hm hl₀ hx₀
    · exact hentry
  served {j l₁ x k l₂} hj hx hk hne h₂ hkey := by
    rcases h.vouches_of_move hsteady hm hj hx with
      ⟨l₀, hl₀, hkey₀, hx₀⟩ | ⟨hji, _, l₀, hl₀, h₀, hkey₀⟩
    · rcases flight_of_update hk with ⟨rfl, rfl⟩ | ⟨_, hold⟩
      · obtain ⟨l₂', hl₂', h₂'⟩ := hm.locks h₂
        have hsame := hm
        rw [hl₂'] at hsame
        have hkey₂ : l₂'.key = l₀.key := hsame.same.2.1.trans (hkey.trans hkey₀.symm)
        have hserved := h.served hl₀ hx₀ hl₂' hne h₂' hkey₂
        exact h.served_of_move hnames hsteady hm hl₀ hx₀ hl₂' hkey₂ hserved
      · exact h.served hl₀ hx₀ hold hne h₂ (hkey.trans hkey₀.symm)
    · -- Who has just written it still has the lock, so nobody else has.
      subst hji
      rcases flight_of_update hk with ⟨hki, _⟩ | ⟨hki, hold⟩
      · exact absurd hki hne
      · exact absurd (h.apart hold hl₀ h₂ h₀ (hkey.trans hkey₀.symm)) hki

omit hsteady in
/-- A lookup that gets the lock keeps all of them sound: if its entry is vouched for, it makes do
with that. -/
theorem Sound.lock {α : Type} {r : Repository σ}
    {q : Query α} {calls : List Call} {writes : List Attempt}
    (hi : s.flight i = some ⟨r, q, true, .waiting, calls, writes⟩) (hc : r.call? q ≠ none)
    (hfree : ∀ j l, s.flight j = some l → l.Locks → l.key ≠ r.key q) :
    Sound repositories v ⟨s.world,
      update s.flight i (some ⟨r, q, true, .running (r.pendingRemote q), calls, writes⟩)⟩ := by
  obtain ⟨_, rfl, rfl⟩ := h.each hi
  -- Nobody has written anything in this step.
  have hbefore : ∀ {j l₁ x}, update s.flight i
      (some ⟨r, q, true, .running (r.pendingRemote q), [], []⟩) j = some l₁ →
        l₁.Vouches v s.world.env x → s.flight j = some l₁ := by
    intro j l₁ x hj hx
    rcases flight_of_update hj with ⟨_, rfl⟩ | ⟨_, hold⟩
    · cases hx.mem
    · exact hold
  constructor
  case occurs => exact h.occurs
  case mem =>
    intro j l₁ hj
    rcases flight_of_update hj with ⟨_, rfl⟩ | ⟨_, hold⟩
    · have hr := h.mem hi
      exact hr
    · exact h.mem hold
  case each =>
    intro j l₁ hj
    rcases flight_of_update hj with ⟨_, rfl⟩ | ⟨_, hold⟩
    · exact ⟨hc, Or.inl ⟨rfl, r.pendingRemote_saves q⟩⟩
    · exact h.each hold
  case apart =>
    intro j k l₁ l₂ hj hk h₁ h₂ hkey
    rcases flight_of_update hj with ⟨rfl, rfl⟩ | ⟨_, hold₁⟩ <;>
      rcases flight_of_update hk with ⟨rfl, rfl⟩ | ⟨_, hold₂⟩
    · rfl
    · exact absurd hkey.symm (hfree _ _ hold₂ h₂)
    · exact absurd hkey (hfree _ _ hold₁ h₁)
    · exact h.apart hold₁ hold₂ h₁ h₂ hkey
  case kept =>
    intro j l₁ x hj hx
    exact h.kept (hbefore hj hx) hx
  case served =>
    intro j l₁ x k l₂ hj hx hk hne h₂ hkey
    have hj := hbefore hj hx
    rcases flight_of_update hk with ⟨_, rfl⟩ | ⟨_, hold⟩
    · have hreadable := (h.each hj).readable hx.mem hx.success
      exact Flight.served_of_lock (hreadable.of_key hnames (h.mem hj) (h.mem hi) hkey.symm)
    · exact h.served hj hx hold hne h₂ hkey

theorem Sound.step (hs : Step repositories v s s') :
    s'.Sound repositories v ∧ v.now s.world.env ≤ v.now s'.world.env := by
  cases hs with
  | move hm => exact ⟨h.move hnames hsteady hm, (h.move_world hsteady hm).2⟩
  | lock hi hc hfree => exact ⟨h.lock hnames hi hc hfree, le_rfl⟩
  | outside hl => exact ⟨h.outside hl, hl.now_le⟩

theorem Sound.reach (hs : Reach repositories v s s') :
    s'.Sound repositories v := by
  induction hs with
  | refl => exact h
  | tail _ hstep ih => exact (ih.step hnames hsteady hstep).1

end Sound

/-! ## The lookups that begin later -/

/-- The lookup of this number has not come yet, or it still waits. -/
def Unbegun (s : Traffic σ) (i : Nat) : Prop :=
  ∀ l, s.flight i = some l → l.progress = .waiting

/-- All lookups with this key that were unbegun then are served by its entry. -/
def Serves (s s' : Traffic σ) (key : Cache.Key) (bytes : Bytes) : Prop :=
  ∀ j l, s.Unbegun j → s'.flight j = some l → l.key = key → l.Served bytes

section Later

variable (hnames : (repositories.map (·.name)).Nodup)
  (hsteady : ∀ r ∈ repositories, r.store.Steady v)
include hnames

theorem Sound.serves (h : s.Sound repositories v) {x : Attempt} (hi : s.flight i = some l)
    (hx : x ∈ l.writes) (hok : x.success = true) : s.Serves s l.key x.bytes := by
  intro j l' hj hl' hkey
  have hreadable := (h.each hi).readable hx hok
  exact Flight.served_of_waiting (h.each hl') (hj l' hl')
    (hreadable.of_key hnames (h.mem hi) (h.mem hl') hkey.symm)

include hsteady

/-- What comes later is served, too, and what is served stays so. -/
theorem Sound.serves_step {s₀ : Traffic σ} (h : s.Sound repositories v) {x : Attempt}
    (hi : s.flight i = some l) (hx : l.Vouches v s.world.env x)
    (hserves : s₀.Serves s l.key x.bytes) (hs : Step repositories v s s') :
    s₀.Serves s' l.key x.bytes := by
  have hsound := (h.step hnames hsteady hs).1
  have hreadable := (h.each hi).readable hx.mem hx.success
  intro j l' hj hl' hkey
  cases hs with
  | @move k l₁ w hm =>
    rcases flight_of_update hl' with ⟨rfl, rfl⟩ | ⟨_, hold⟩
    · cases hbefore : s.flight j with
      | none =>
        rw [hbefore] at hm
        exact hm.served_of_new (hreadable.of_key hnames (h.mem hi) (hsound.mem hl') hkey.symm)
      | some l₀ =>
        have hsame := hm
        rw [hbefore] at hsame
        have hkey₀ : l₀.key = l.key := hsame.same.2.1.trans hkey
        exact h.served_of_move hnames hsteady hm hi hx hbefore hkey₀ (hserves j l₀ hj hbefore hkey₀)
    · exact hserves j l' hj hold hkey
  | @lock k _ r q calls writes hk hc hfree =>
    rcases flight_of_update hl' with ⟨rfl, rfl⟩ | ⟨_, hold⟩
    · obtain ⟨_, rfl, rfl⟩ := h.each hk
      exact Flight.served_of_lock (hreadable.of_key hnames (h.mem hi) (h.mem hk) hkey.symm)
    · exact hserves j l' hj hold hkey
  | outside => exact hserves j l' hj hl' hkey

omit hnames hsteady in
theorem flight_of_ended (hs : Step repositories v s s') (hi : s.flight i = some l)
    {result : Except Panic (Outcome l.α)} (hl : l.progress = .ended result) :
    s'.flight i = some l := by
  cases hs with
  | @move k _ _ hm =>
    by_cases hik : i = k
    · subst hik
      rw [hi] at hm
      exact absurd hl (hm.not_ended result)
    · exact (update_of_ne hik ..).trans hi
  | @lock k _ _ _ _ _ hk =>
    by_cases hik : i = k
    · subst hik
      obtain rfl := Option.some.inj (hi.symm.trans hk)
      cases hl
    · exact (update_of_ne hik ..).trans hi
  | outside => exact hi

/-- All that begin after the end of a lookup that has written its entry are served by that, as long
as it is trusted. -/
theorem Sound.serves_reach (h : s.Sound repositories v) {x : Attempt} (hi : s.flight i = some l)
    {result : Except Panic (Outcome l.α)} (hl : l.progress = .ended result) (hx : x ∈ l.writes)
    (hok : x.success = true) (hs : Reach repositories v s s') :
    s'.flight i = some l ∧ (l.trust.isFresh ⟨v.now s'.world.env - x.time⟩ = true →
      s.Serves s' l.key x.bytes) := by
  induction hs with
  | refl => exact ⟨hi, fun _ => h.serves hnames hi hx hok⟩
  | @tail s₁ s₂ hreach hstep ih =>
    obtain ⟨hi₁, hserves⟩ := ih
    have hsound := h.reach hnames hsteady hreach
    refine ⟨flight_of_ended hstep hi₁ hl, fun hf => ?_⟩
    have hle := (hsound.step hnames hsteady hstep).2
    have hx₁ : l.Vouches v s₁.world.env x := Flight.Vouches.earlier ⟨hx, hok, hf⟩ hle
    exact hsound.serves_step hnames hsteady hi₁ hx₁ (hserves hx₁.fresh) hstep

end Later

/-! ## No lookup waits for ever -/

section Ends

variable (hnames : (repositories.map (·.name)).Nodup)
  (hsteady : ∀ r ∈ repositories, r.store.Steady v) (h : s.Sound repositories v)
  {α : Type} {r : Repository σ} {q : Query α} {remote : Bool} {rest : Pending α}
  {calls : List Call} {writes : List Attempt} {o : Outcome α}
include hsteady h

/-- With a trusted entry, whoever makes do with it can come to an end, and no time passes. -/
theorem Sound.end_of_running {bytes : Bytes} {time : Nat}
    (hj : s.flight j = some ⟨r, q, remote, .running rest, calls, writes⟩)
    (hentry : v.entry s.world.env (r.key q) = some (bytes, time))
    (hf : (r.rules.trust q.kind).isFresh ⟨v.now s.world.env - time⟩ = true)
    (hreuses : rest.Reuses (r.rules.trust q.kind) bytes o) :
    ∃ w calls' writes', w.env = s.world.env ∧ Reach repositories v s
      ⟨w, update s.flight j (some ⟨r, q, remote, .ended (.ok o), calls', writes'⟩)⟩ := by
  have hr : r ∈ repositories := h.mem hj
  have hage := (hsteady r hr).age_eq h.occurs (r.key q)
  have hread := (hsteady r hr).read_eq h.occurs (r.key q)
  rw [hentry] at hage hread
  obtain ⟨w, hrun, he⟩ := hreuses.run hage hf hread
  have hend : CanEnd repositories v s j r q remote _ := canEnd_of_running hj
  obtain ⟨calls', writes', hreach⟩ := hend
  rw [Action.finish, hrun] at hreach
  exact ⟨w, calls', writes', he, hreach⟩

include hnames

/-- Whoever has the lock of an entry that is vouched for gives it back. -/
theorem Sound.free {x : Attempt} (hi : s.flight i = some l) (hl : ¬ l.Locks)
    (hx : l.Vouches v s.world.env x) :
    ∃ s₁, Reach repositories v s s₁ ∧ s₁.world.env = s.world.env ∧
      (∀ j l₁, s.flight j = some l₁ → ¬ l₁.Locks → s₁.flight j = some l₁) ∧
        ∀ j l₁, s₁.flight j = some l₁ → l₁.Locks → l₁.key ≠ l.key := by
  by_cases hheld : ∃ k l₁, s.flight k = some l₁ ∧ l₁.Locks ∧ l₁.key = l.key
  · obtain ⟨k, l₂, hk, h₂, hkey⟩ := hheld
    obtain ⟨_, r, q, rest, calls, writes, rfl⟩ := h₂.exists_running
    have hki : k ≠ i := by
      rintro rfl
      obtain rfl := Option.some.inj (hi.symm.trans hk)
      exact hl h₂
    obtain ⟨_, _, _, value, _, hreuses⟩ := h.served hi hx hk hki h₂ hkey
    have hfresh := hx.fresh
    rw [← Flight.trust_of_key hnames (h.mem hk) (h.mem hi) hkey] at hfresh
    have hentry := h.kept hi hx
    rw [← hkey] at hentry
    obtain ⟨w, calls', writes', he, hreach⟩ := h.end_of_running hsteady hk hentry hfresh hreuses
    refine ⟨_, hreach, he, ?_, ?_⟩
    · intro j l₁ hj hfree
      have hjk : j ≠ k := by
        rintro rfl
        obtain rfl := Option.some.inj (hj.symm.trans hk)
        exact hfree h₂
      exact (update_of_ne hjk ..).trans hj
    · intro j l₁ hj hlocks hkey₁
      rcases flight_of_update hj with ⟨_, rfl⟩ | ⟨hjk, hold⟩
      · exact Flight.not_locks_of_ended rfl hlocks
      · exact hjk (h.apart hold hk hlocks h₂ (hkey₁.trans hkey.symm))
  · refine ⟨s, .refl, rfl, fun j l₁ hj _ => hj, fun j l₁ hj hlocks hkey => ?_⟩
    exact hheld ⟨j, l₁, hj, hlocks, hkey⟩

/-- Whoever is served by an entry that is vouched for can come to an end, and no time passes. -/
theorem Sound.end_of_served {x : Attempt} {progress : Progress α} (hi : s.flight i = some l)
    (hl : ¬ l.Locks) (hx : l.Vouches v s.world.env x)
    (hj : s.flight j = some ⟨r, q, remote, progress, calls, writes⟩) (hkey : r.key q = l.key)
    (hserved : Flight.Served x.bytes ⟨r, q, remote, progress, calls, writes⟩) :
    ∃ s' o calls' writes', Reach repositories v s s' ∧ s'.world.env = s.world.env ∧
      s'.flight j = some ⟨r, q, remote, .ended (.ok o), calls', writes'⟩ := by
  have hfresh := hx.fresh
  rw [← Flight.trust_of_key hnames (h.mem hj) (h.mem hi) hkey] at hfresh
  have hentry := h.kept hi hx
  rw [← hkey] at hentry
  obtain ⟨_, _, hcall, value, hread, hprogress⟩ := hserved
  cases progress with
  | ended result =>
    obtain rfl : result = _ := hprogress
    exact ⟨s, _, calls, writes, .refl, rfl, hj⟩
  | running rest =>
    obtain ⟨w, calls', writes', he, hreach⟩ :=
      h.end_of_running hsteady hj hentry hfresh hprogress
    exact ⟨_, _, calls', writes', hreach, he, update_self ..⟩
  | waiting =>
    obtain ⟨rfl, _, _⟩ := h.each hj
    obtain ⟨s₁, hreach, he, hothers, hfree⟩ := h.free hnames hsteady hi hl hx
    have hj₁ := hothers j _ hj (Flight.not_locks_of_waiting rfl)
    have hlock : Step repositories v s₁ _ :=
      .lock hj₁ hcall fun k l₁ hk hlocks => hkey ▸ hfree k l₁ hk hlocks
    have hsound := (h.reach hnames hsteady hreach).lock hnames hj₁ hcall
      fun k l₁ hk hlocks => hkey ▸ hfree k l₁ hk hlocks
    rw [← he] at hentry hfresh
    obtain ⟨w, calls', writes', he', hreach'⟩ := hsound.end_of_running hsteady (update_self ..)
      hentry hfresh (Repository.pendingRemote_reuses hread)
    exact ⟨_, _, calls', writes', (hreach.tail hlock).trans hreach', he'.trans he, update_self ..⟩

end Ends

/-! ## One call -/

/-- A lookup that has come for a value that is there already: it has called no site and written
nothing, it ends with that value only, and it can end at once. -/
inductive Spared (repositories : List (Repository σ)) (v : Cache.View σ) (s : Traffic σ) (j : Nat)
    {α : Type} (r : Repository σ) (q : Query α) (value : α) : Flight σ → Prop where
  | intro {q' : Query α} {remote : Bool} {progress : Progress α} (same : q'.request = q.request)
      (ended : ∀ result, progress = .ended result →
        result = .ok (Flight.outcome q' remote value))
      (ends : ∃ s', Reach repositories v s s' ∧ s'.world.env = s.world.env ∧
        s'.flight j =
          some ⟨r, q', remote, .ended (.ok (Flight.outcome q' remote value)), [], []⟩) :
      Spared repositories v s j r q value ⟨r, q', remote, progress, [], []⟩

/-- Of lookups that go on in any order, once a remote one has ended with a value and has written its
entry, that entry stays as it is as long as it is trusted, and all lookups of the same request that
begin after that, by either half, share the value: without a call, and without a write. Only where
the metadata declares the companions that it is asked for, the local half says what it declares. -/
theorem single_flight (hnames : (repositories.map (·.name)).Nodup)
    (hsteady : ∀ r ∈ repositories, r.store.Steady v) {s₀ : Traffic σ}
    (hoccurs : v.occurs s₀.world.env) (hnone : ∀ i, s₀.flight i = none)
    (hs : Reach repositories v s₀ s) {α : Type} {r : Repository σ} {q : Query α} {value : α}
    {calls : List Call} {writes : List Attempt} {x : Attempt}
    (hi : s.flight i = some ⟨r, q, true, .ended (.ok (.resolved value)), calls, writes⟩)
    (hx : x ∈ writes) (hok : x.success = true) (hs' : Reach repositories v s s')
    (hf : (r.rules.trust q.kind).isFresh ⟨v.now s'.world.env - x.time⟩ = true) :
    v.entry s'.world.env (r.key q) = some (x.bytes, x.time) ∧
      ∀ j l, s.Unbegun j → s'.flight j = some l → l.key = r.key q →
        Spared repositories v s' j r q value l := by
  have hsound := (Sound.start hoccurs hnone).reach hnames hsteady hs
  have hsound' := hsound.reach hnames hsteady hs'
  obtain ⟨hi', hserves⟩ := hsound.serves_reach hnames hsteady hi rfl hx hok hs'
  have hvouches : Flight.Vouches ⟨r, q, true, .ended (.ok (.resolved value)), calls, writes⟩ v
    s'.world.env x := ⟨hx, hok, hf⟩
  have hread : r.readBack q x.bytes = .ok value := by
    rcases hsound.each hi with rfl | ⟨_, x', o, rfl, ho, hexplains⟩
    · cases hx
    · obtain rfl := List.mem_singleton.1 hx
      obtain ⟨value', hread, rfl⟩ := hexplains hok
      obtain rfl := Outcome.resolved_injective (Except.ok.inj ho)
      exact hread
  refine ⟨hsound'.kept hi' hvouches, fun j l hj hl hkey => ?_⟩
  have hserved := hserves hf j l hj hl hkey
  obtain ⟨r', q', remote, progress, calls', writes'⟩ := l
  obtain ⟨rfl, hrequest⟩ : r' = r ∧ q'.request = q.request :=
    Flight.of_key hnames (hsound'.mem hl) (hsound'.mem hi') hkey
  obtain rfl := Query.type_of_request hrequest
  obtain ⟨s'', o, _, _, hs'', he, hl''⟩ := hsound'.end_of_served hnames hsteady hi'
    (Flight.not_locks_of_ended rfl) hvouches hl hkey hserved
  -- The content reads as the same value for every lookup of the request.
  have hsame : ∀ {value'}, r'.readBack q' x.bytes = .ok value' → value' = value := by
    intro value' hread'
    rw [eq_of_heq (r'.readBack_of_request hrequest), hread] at hread'
    exact (Except.ok.inj hread').symm
  have hserved'' := (hsound.serves_reach hnames hsteady hi rfl hx hok (hs'.trans hs'')).2
    (he ▸ hf) j _ hj hl'' hkey
  obtain ⟨rfl, rfl, _, value', hread', ho⟩ := hserved''
  obtain rfl := Except.ok.inj ho
  obtain rfl := hsame hread'
  obtain ⟨rfl, rfl, _, value'', hread'', hprogress⟩ := hserved
  obtain rfl := hsame hread''
  refine .intro hrequest ?_ ⟨s'', hs'', he, hl''⟩
  rintro result rfl
  exact hprogress

end Traffic

/-! ## Two downloads of one artifact -/

namespace Environment

open Traffic

theorem memoryStore_steady (sites : List Site) : memoryStore.Steady (view sites) := by
  refine (memoryStore_shows sites).steady fun e key bytes => ?_
  cases hfault : e.memory.fault? .write key with
  | none => simp [view, Cache.Memory.view, memory_of_write hfault, Cache.Memory.insert]
  | some text =>
    simp [view, memoryStore, Cache.Store.within, Cache.Memory.store, memoryLens, hfault]

/-- A world in which nothing is cached, and the site has an artifact. -/
def freshWorld : World Environment where
  env := { sites := [{ resources := [("g/m/1/m-1.jar", [1, 2, 3])] }] }

def freshView : Cache.View Environment := view freshWorld.env.sites

/-- The lookup of that artifact. -/
def sampleQuery : Query Located := .artifact sampleArtifact

/-- A remote one, under way. -/
def download (progress : Progress Located) (calls : List Call) (writes : List Attempt) :
    Flight Environment :=
  ⟨repositoryA, sampleQuery, true, progress, calls, writes⟩

def sampleCall : Call := ⟨.fetch, "a", "g/m/1/m-1.jar"⟩

def sampleAttempt : Attempt := ⟨[1, 2, 3], 0, true⟩

def sampleFile : Located := ⟨sampleArtifact, memoryStore.path (repositoryA.key sampleQuery)⟩

/-- What is left of it when the site has returned the artifact. -/
def sampleWrite : Pending Located :=
  .write [1, 2, 3] (repositoryA.afterWrite sampleQuery sampleFile)

/-- The world after the call. -/
def calledWorld : World Environment := { freshWorld with calls := [sampleCall] }

def keptWorld : World Environment where
  env := (memoryStore.write freshWorld.env (repositoryA.key sampleQuery) [1, 2, 3]).2
  calls := [sampleCall]

/-- The world after all of it. -/
def loggedWorld : World Environment :=
  { keptWorld with log := [⟨.info, s!"Downloaded {sampleArtifact.display} from a"⟩] }

theorem sampleArtifact_location :
    (Format.toml {}).artifactLocation sampleArtifact = "g/m/1/m-1.jar" := by
  decide +kernel

theorem step_callSite : (repositoryA.callSite sampleQuery).step repositoryA
    (repositoryA.key sampleQuery) freshWorld = .ok sampleWrite calledWorld := by
  rw [sampleQuery, Repository.callSite, show repositoryA.format = Format.toml {} from rfl,
    sampleArtifact_location]
  rfl

theorem step_sampleWrite : sampleWrite.step repositoryA (repositoryA.key sampleQuery) calledWorld =
    .ok (repositoryA.afterWrite sampleQuery sampleFile (.ok ())) keptWorld := by
  rw [sampleWrite, Pending.step_write]
  rfl

theorem download_access {w w' : World Environment} {rest rest' : Pending Located}
    {calls calls' : List Call} {writes writes' : List Attempt}
    (hs : rest.step repositoryA (repositoryA.key sampleQuery) w = .ok rest' w')
    (hcalls : calls ++ w'.calls.drop w.calls.length = calls')
    (hwrites : writes ++ rest.attempts freshView repositoryA (repositoryA.key sampleQuery) w.env =
      writes') :
    Flight.Move [repositoryA] freshView w (some (download (.running rest) calls writes))
      (download (.running rest') calls' writes') w' := by
  subst hcalls hwrites
  exact .access hs

/-- Whoever gets the lock first downloads the artifact. -/
theorem reach_downloaded {f : Nat → Option (Flight Environment)} {i : Nat}
    (hi : f i = some (download .waiting [] [])) (hfree : ∀ j l, f j = some l → ¬ l.Locks) :
    Reach [repositoryA] freshView ⟨freshWorld, f⟩ ⟨loggedWorld, update f i
      (some (download (.ended (.ok (.resolved sampleFile))) [sampleCall] [sampleAttempt]))⟩ := by
  have hlock : Step [repositoryA] freshView ⟨freshWorld, f⟩ ⟨freshWorld, update f i
      (some (download (.running (repositoryA.pendingRemote sampleQuery)) [] []))⟩ :=
    .lock hi (Option.some_ne_none _) fun j l hj hl => absurd hl (hfree j l hj)
  have hage : Flight.Move [repositoryA] freshView freshWorld
      (some (download (.running (repositoryA.pendingRemote sampleQuery)) [] []))
      (download (.running (repositoryA.callSite sampleQuery)) [] []) freshWorld :=
    download_access rfl rfl rfl
  have hcall : Flight.Move [repositoryA] freshView freshWorld
      (some (download (.running (repositoryA.callSite sampleQuery)) [] []))
      (download (.running sampleWrite) [sampleCall] []) calledWorld :=
    download_access step_callSite rfl rfl
  have hwrite : Flight.Move [repositoryA] freshView calledWorld
      (some (download (.running sampleWrite) [sampleCall] []))
      (download (.running (repositoryA.afterWrite sampleQuery sampleFile (.ok ()))) [sampleCall]
        [sampleAttempt]) keptWorld :=
    download_access step_sampleWrite rfl rfl
  have hlog : Flight.Move [repositoryA] freshView keptWorld
      (some (download (.running (repositoryA.afterWrite sampleQuery sampleFile (.ok ())))
        [sampleCall] [sampleAttempt]))
      (download (.running (.done (.resolved sampleFile))) [sampleCall] [sampleAttempt])
      loggedWorld :=
    download_access rfl rfl rfl
  have hreach := Relation.ReflTransGen.single hlock
    |>.tail (.of_move (update_self ..) hage) |>.tail (.of_move (update_self ..) hcall)
    |>.tail (.of_move (update_self ..) hwrite) |>.tail (.of_move (update_self ..) hlog)
    |>.tail (.of_move (update_self ..) .finish)
  simp only [update_idem] at hreach
  exact hreach

/-- Of two downloads of one artifact that have come at the same time, the second one waits while the
first one calls the site, and then has what that one has written. -/
theorem downloaded_once : ∃ s, Reach [repositoryA] freshView ⟨freshWorld, fun _ => none⟩ s ∧
    s.flight 0 = some (download (.ended (.ok (.resolved sampleFile))) [sampleCall]
      [sampleAttempt]) ∧
    s.flight 1 = some (download .waiting [] []) ∧
    Spared [repositoryA] freshView s 1 repositoryA sampleQuery sampleFile
      (download .waiting [] []) := by
  have hr : repositoryA ∈ [repositoryA] := List.mem_singleton_self _
  have hnames : ([repositoryA].map (·.name)).Nodup := List.nodup_singleton _
  have hsteady : ∀ r ∈ [repositoryA], r.store.Steady freshView := by
    intro r hr
    obtain rfl := List.mem_singleton.1 hr
    exact memoryStore_steady _
  let f : Nat → Option (Flight Environment) :=
    update (update (fun _ => none) 0 (some (download .waiting [] []))) 1
      (some (download .waiting [] []))
  have hcome : Reach [repositoryA] freshView ⟨freshWorld, fun _ => none⟩ ⟨freshWorld, f⟩ :=
    (Relation.ReflTransGen.single (.of_move rfl (.come hr))).tail (.of_move rfl (.come hr))
  have hwaiting : ∀ j l, f j = some l → l.progress = .waiting := by
    intro j l hj
    rcases flight_of_update hj with ⟨_, rfl⟩ | ⟨_, hj⟩
    · rfl
    · rcases flight_of_update hj with ⟨_, rfl⟩ | ⟨_, hj⟩
      · rfl
      · cases hj
  have hdownload := reach_downloaded (i := 0) (f := f) rfl fun j l hj =>
    Flight.not_locks_of_waiting (hwaiting j l hj)
  have hs := hcome.trans hdownload
  have hoccurs : freshView.occurs freshWorld.env := ⟨rfl, rfl⟩
  have hshared := single_flight hnames hsteady hoccurs (fun _ => rfl) hs (i := 0) rfl
    (List.mem_singleton_self sampleAttempt) rfl .refl rfl
  exact ⟨_, hs, rfl, rfl, hshared.2 1 _ (hwaiting 1) rfl rfl⟩

/-! ## Declared companions -/

/-- Metadata that declares that there are no sources. -/
def silentMetadata : Metadata :=
  { plainMetadata with configurations := [("sources", { name := "sources" })] }

/-- The sources as they are looked up with that metadata. -/
def silentQuery : Query (List Artifact) := .artifacts silentMetadata .sources

/-- What a probe has found by the remote half is not what the local half has next, although it is in
the cache and trusted: the metadata declares that there are no sources. -/
theorem declared_before_cached : ∃ w',
    repositoryA.remoteHalf.answer silentQuery (sourcesWorld true false) =
      .ok (.resolved [guessedSources]) w' ∧
    (view (sourcesWorld true false).env.sites).fresh w'.env
      (repositoryA.rules.trust silentQuery.kind) (repositoryA.key silentQuery) =
        some (ProbeRecord.encode [guessedSources]) ∧
    repositoryA.localHalf.answer silentQuery w' = .ok (.resolved []) w' ∧
    [guessedSources] ≠ [] := by
  have hc : Category.sources.candidate? silentMetadata.coordinate silentMetadata.extension =
    some guessedSources := rfl
  have hsite := repositoryA.siteContent_of_candidate hc (sourcesWorld true false).env
  rw [probed_repositoryA] at hsite
  have hread : repositoryA.readBack silentQuery (ProbeRecord.encode [guessedSources]) =
    .ok [guessedSources] := Repository.decode_encode_candidate hc true
  have hanswer : repositoryA.siteAnswer (sourcesWorld true false).env silentQuery =
      .ok (.resolved [guessedSources]) :=
    Repository.siteAnswer_eq_resolved_iff.2 ⟨_, hsite, hread⟩
  obtain ⟨env', hseen, ⟨value, bytes, hvalue, hfetched⟩ | ⟨hu, _⟩⟩ :=
    Repository.remoteHalf_answers_site (q := silentQuery) (w := sourcesWorld true false)
      (Repository.not_offers_of_no_record rfl) (repositoryA.call?_of_candidate hc) fun _ _ => rfl
  · rw [hanswer] at hseen
    obtain ⟨w', hlookup, rfl, _⟩ := Action.seen_eq_ok_iff.1 hseen
    have hs : repositoryA.store.Shows (view (sourcesWorld true false).env.sites) :=
      memoryStore_shows _
    have hstart : (view (sourcesWorld true false).env.sites).occurs (sourcesWorld true false).env :=
      ⟨rfl, rfl⟩
    have hcontent := hsite.symm.trans hfetched.content
    have hbytes : ProbeRecord.encode [guessedSources] = bytes :=
      Option.some.inj (Except.ok.inj (Except.ok.inj hcontent))
    subst hbytes
    have hentry := hs.entry_write hstart (repositoryA.key silentQuery)
      (ProbeRecord.encode [guessedSources]) (repositoryA.key silentQuery)
    rw [if_pos rfl] at hentry
    refine ⟨w', hlookup, ?_, ?_, List.cons_ne_nil _ _⟩
    · rw [hfetched.written, Cache.View.fresh, hentry]
      rfl
    · rw [Repository.localHalf_answer]
      rfl
  · exact absurd hanswer (hu _)

end Environment
end ArtifactResolver
