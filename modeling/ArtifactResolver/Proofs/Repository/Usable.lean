import ArtifactResolver.Proofs.Cache.Map
import ArtifactResolver.Proofs.Chain.Session
import ArtifactResolver.Proofs.Repository.Remote

/-!
# Entries that can be used

For a lookup that the metadata does not answer, all that a repository can say without its site is
what one entry of the cache holds. The entry can be used if its age can be told, if it is trusted at
that age, and if its content can be read. Then both halves answer from it. Otherwise the local half
has no value, and the remote half calls the site.
-/

namespace ArtifactResolver

variable {σ α : Type}

namespace Repository

/-- The repository has an entry that can be used for a lookup, and this is its value. Of an artifact
the content does not count, only that the entry is there and trusted. -/
structure Offers (r : Repository σ) (env : σ) (q : Query α) (value : α) : Prop where
  fresh : ∃ age, r.store.age env (r.key q) = .ok (some age) ∧
    (r.rules.trust q.kind).isFresh age = true
  reads : ∃ bytes, r.content env q = .ok (some bytes) ∧ r.readBack q bytes = .ok value

variable {r : Repository σ} {env : σ} {q : Query α} {value : α} {w : World σ}

theorem usable?_eq_some_iff : r.usable? env q = some value ↔ r.Offers env q value := by
  rw [usable?, trusted_eq]
  constructor
  · intro h
    rcases hage : r.store.age env (r.key q) with e | _ | age <;> simp only [hage] at h
    · cases h
    · cases h
    · split at h
      · next bytes htrusted =>
        split at htrusted
        · next hfresh => exact ⟨⟨age, hage, hfresh⟩, bytes, htrusted, toOption_eq_some_iff.1 h⟩
        · cases htrusted
      · cases h
  · rintro ⟨⟨age, hage, hfresh⟩, bytes, hcontent, hread⟩
    simp only [hage, hfresh, if_true, hcontent]
    exact toOption_eq_some_iff.2 hread

/-- Two values of one entry are the same. -/
theorem Offers.unique {value' : α} (h : r.Offers env q value) (h' : r.Offers env q value') :
    value = value' := by
  rw [← usable?_eq_some_iff] at h h'
  exact Option.some.inj (h.symm.trans h')

/-! ## Both halves -/

theorem localAnswer_eq_resolved_iff_offers (hd : q.declared? = none) :
    r.localAnswer env q = .resolved value ↔ r.Offers env q value := by
  rw [localAnswer_of_undeclared hd, answerOf_eq_resolved_iff, ← usable?_eq_some_iff, usable?]
  constructor
  · rintro ⟨bytes, htrusted, hread⟩
    simp only [htrusted, hread, Except.toOption]
  · intro h
    split at h
    · next bytes htrusted => exact ⟨bytes, htrusted, toOption_eq_some_iff.1 h⟩
    · cases h

/-- The value was read from what the site returned, and that was written to the cache. -/
structure Fetched (r : Repository σ) (q : Query α) (value : α) (env env' : σ) (bytes : Bytes) :
    Prop where
  content : r.siteContent env q = .ok (.ok (some bytes))
  reads : r.readBack q bytes = .ok value
  written : env' = (r.store.write env (r.key q) bytes).2

section NoOffer

variable (hn : ∀ value, ¬ r.Offers w.env q value)
include hn

theorem localAnswer_of_no_offer (hd : q.declared? = none) :
    (r.localAnswer w.env q).isResolved = false := by
  cases hr : (r.localAnswer w.env q).isResolved with
  | false => rfl
  | true =>
    obtain ⟨value, hv⟩ := Outcome.isResolved_iff.1 hr
    exact absurd ((localAnswer_eq_resolved_iff_offers hd).1 hv) (hn value)

variable {call : Call} (hcall : r.call? q = some call)
include hcall

/-- The site is called where no entry can be used. -/
theorem remoteHalf_calls_site :
    ((r.remoteHalf.answer q).finish w).2.calls = w.calls ++ [call] := by
  have hcourse := r.remoteHalf_course q w
  generalize hseen : (r.remoteHalf.answer q).seen w = seen at hcourse
  rw [Action.seen_eq_finish] at hseen
  cases hcourse with
  | idle hc => rw [hcall] at hc; cases hc
  | reused _ hv => exact absurd (usable?_eq_some_iff.1 hv) (hn _)
  | answered hc =>
    obtain rfl := Option.some.inj (hcall.symm.trans hc)
    exact (Prod.mk.inj (Prod.mk.inj hseen).2).2
  | kept hc =>
    obtain rfl := Option.some.inj (hcall.symm.trans hc)
    exact (Prod.mk.inj (Prod.mk.inj hseen).2).2

/-- The remote half answers as the site does where no entry can be used, if the lookup does not fail
for content that cannot be kept. -/
theorem remoteHalf_answers_site
    (hk : ∀ bytes value, r.keptOutcome w.env q bytes value = .resolved value) :
    ∃ env', (r.remoteHalf.answer q).seen w = (r.siteAnswer w.env q, env', w.calls ++ [call]) ∧
      ((∃ value bytes, r.siteAnswer w.env q = .ok (.resolved value) ∧
          r.Fetched q value w.env env' bytes) ∨
        (∀ value, r.siteAnswer w.env q ≠ .ok (.resolved value)) ∧ env' = w.env) := by
  have hcourse := r.remoteHalf_course q w
  generalize (r.remoteHalf.answer q).seen w = seen at hcourse
  cases hcourse with
  | idle hc => rw [hcall] at hc; cases hc
  | reused _ hv => exact absurd (usable?_eq_some_iff.1 hv) (hn _)
  | answered hc _ hu =>
    obtain rfl := Option.some.inj (hcall.symm.trans hc)
    exact ⟨w.env, rfl, Or.inr ⟨hu, rfl⟩⟩
  | @kept _ bytes value hc _ hb hv =>
    obtain rfl := Option.some.inj (hcall.symm.trans hc)
    have hanswer : r.siteAnswer w.env q = .ok (.resolved value) :=
      siteAnswer_eq_resolved_iff.2 ⟨bytes, hb, hv⟩
    refine ⟨_, ?_, Or.inl ⟨value, bytes, hanswer, hb, hv, rfl⟩⟩
    rw [hk, hanswer]

end NoOffer

/-- Where the write succeeds, the lookup has its value. -/
theorem keptOutcome_of_write {bytes : Bytes}
    (h : (r.store.write env (r.key q) bytes).1 = .ok ()) (value : α) :
    r.keptOutcome env q bytes value = .resolved value := by
  simp only [keptOutcome, h]

/-! ## A store that is a map -/

section Shows

variable {v : Cache.View σ} (hs : r.store.Shows v) (hw : v.occurs w.env)
include hs hw

theorem usable?_of_shows : r.usable? w.env q =
    (v.fresh w.env (r.rules.trust q.kind) (r.key q)).bind fun bytes =>
      (r.readBack q bytes).toOption := by
  cases q with
  | artifact a =>
    simp only [usable?, trusted, hs.hasFresh_eq hw]
    cases v.fresh w.env (r.rules.trust (Query.artifact a).kind) (r.key (.artifact a)) <;> rfl
  | _ =>
    simp only [usable?, trusted, hs.readFresh_eq hw]
    cases v.fresh w.env _ _ <;> rfl

/-- In a store that is a map, an entry can be used if the map holds it, trusted at its age. -/
theorem offers_iff_of_shows :
    r.Offers w.env q value ↔ ∃ bytes,
      v.fresh w.env (r.rules.trust q.kind) (r.key q) = some bytes ∧
        r.readBack q bytes = .ok value := by
  rw [← usable?_eq_some_iff, usable?_of_shows hs hw, Option.bind_eq_some_iff]
  simp only [toOption_eq_some_iff]

end Shows

/-! ## What a policy leaves as it is -/

section Under

variable (r : Repository σ) (p : Policy) (env : σ) (q : Query α)

@[simp] theorem under_store : (r.under p).store = r.store := rfl

@[simp] theorem under_key : (r.under p).key q = r.key q := by
  cases q <;> rfl

@[simp] theorem under_readBack : (r.under p).readBack q = r.readBack q := by
  cases q <;> rfl

@[simp] theorem under_call? : (r.under p).call? q = r.call? q := by
  cases q <;> rfl

@[simp] theorem under_siteContent : (r.under p).siteContent env q = r.siteContent env q := by
  cases q <;> rfl

@[simp] theorem under_keptOutcome (bytes : Bytes) (value : α) :
    (r.under p).keptOutcome env q bytes value = r.keptOutcome env q bytes value := by
  cases q <;> rfl

@[simp] theorem under_siteAnswer : (r.under p).siteAnswer env q = r.siteAnswer env q := by
  cases q <;> rfl

variable {r p env q}

theorem Fetched.of_under {env' : σ} {bytes : Bytes}
    (h : (r.under p).Fetched q value env env' bytes) : r.Fetched q value env env' bytes where
  content := r.under_siteContent p env q ▸ h.content
  reads := r.under_readBack p q ▸ h.reads
  written := r.under_key p q ▸ h.written

end Under

end Repository
end ArtifactResolver
