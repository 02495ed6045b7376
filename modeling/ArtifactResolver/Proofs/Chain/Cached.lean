import ArtifactResolver.Proofs.Chain.Online
import ArtifactResolver.Proofs.Installation
import ArtifactResolver.Proofs.Offline

/-!
# Lookups with a cache

A lookup goes through the local halves first. The only entry that it can find there is the right
one, as every entry of a consistent cache is. Then it goes through the remote halves, and what it
keeps of the first value it comes to leaves the cache consistent.
-/

namespace ArtifactResolver

variable {σ α β : Type}

theorem Repository.localAnswer_of_shows {r : Repository σ} {v : Cache.View σ} {env : σ}
    (hs : r.store.Shows v) (he : v.occurs env) {q : Query α} (hd : q.declared? = none) :
    r.localAnswer env q = match v.fresh env (r.rules.trust q.kind) (r.key q) with
      | some bytes => r.answerOf q (.ok (some bytes))
      | none => .unset := by
  rw [localAnswer_of_undeclared hd]
  cases q with
  | artifact a =>
    simp only [trusted, hs.hasFresh_eq he]
    cases v.fresh env (r.rules.trust (Query.artifact a).kind) (r.key (.artifact a)) <;> rfl
  | _ =>
    simp only [trusted, hs.readFresh_eq he]
    cases v.fresh env _ _ <;> rfl

namespace Installation

variable {I : Installation σ} {p : Policy} {q : Query α} {w : World σ}

/-- An entry that can be used holds the outcome without a cache. -/
theorem uncached_of_offer (hc : I.Consistent w.env) (hq : I.Admits q) (hd : q.declared? = none)
    {r : Repository σ} (hr : r ∈ I.repositories) {value : α}
    (h : (r.under p).Offers w.env q value) :
    I.uncached q = .ok (.resolved value) ∧ I.Kept w.env q := by
  have hs : (r.under p).store.Shows I.view := I.shows r hr
  obtain ⟨bytes, hfresh, hread⟩ := (Repository.offers_iff_of_shows hs hc.occurs).1 h
  rw [Repository.under_key] at hfresh
  rw [Repository.under_readBack] at hread
  obtain ⟨written, hentry⟩ := Cache.View.entry_of_fresh hfresh
  obtain ⟨before, after, hsplit⟩ := List.append_of_mem hr
  exact ⟨hc.uncached_eq hsplit hq hd hentry hread, Or.inr ⟨r, hr, by rw [hentry]; rfl⟩⟩

/-- Every entry of a consistent cache can be read, so what cannot be used is not trusted. -/
theorem fresh_of_no_offer (hc : I.Consistent w.env) (hq : I.Admits q) {r : Repository σ}
    (hr : r ∈ I.repositories) (hn : ∀ value, ¬ (r.under p).Offers w.env q value) :
    I.view.fresh w.env (p.effectiveRules.trust q.kind) (r.key q) = none := by
  have hs : (r.under p).store.Shows I.view := I.shows r hr
  cases hf : I.view.fresh w.env (p.effectiveRules.trust q.kind) (r.key q) with
  | none => rfl
  | some bytes =>
    obtain ⟨written, hentry⟩ := Cache.View.entry_of_fresh hf
    obtain ⟨before, after, hsplit⟩ := List.append_of_mem hr
    obtain ⟨⟨_, value, hv⟩, _⟩ := hc.served hsplit hq hentry
    refine absurd ((Repository.offers_iff_of_shows hs hc.occurs).2 ⟨bytes, ?_, ?_⟩) (hn value)
    · rw [Repository.under_key]
      exact hf
    · rw [Repository.under_readBack]
      exact hv

theorem entryFailures_eq_nil (hc : I.Consistent w.env) (hq : I.Admits q)
    (hd : q.declared? = none)
    (hn : ∀ r ∈ I.repositories, ∀ value, ¬ (r.under p).Offers w.env q value) :
    Chain.entryFailures p I.repositories w.env q = [] := by
  refine List.filterMap_eq_nil_iff.2 fun r hr => ?_
  have hs : (r.under p).store.Shows I.view := I.shows r hr
  have hf : I.view.fresh w.env ((r.under p).rules.trust q.kind) (r.key q) = none :=
    fresh_of_no_offer hc hq hr (hn r hr)
  rw [Repository.localAnswer_of_shows hs hc.occurs hd, Repository.under_key, hf]
  rfl

/-- The sites answer as they do without a cache. -/
theorem siteOutcome_eq_uncached (hc : I.Consistent w.env) (hd : q.declared? = none) :
    Chain.siteOutcome q [] w.env I.repositories = I.uncached q := by
  have hanswers : (I.repositories.map fun r => (r.name, r.siteAnswer w.env q)) =
      I.repositories.map fun r => (r.name, I.answer q r) := by
    refine List.map_congr_left fun r hr => ?_
    rw [answer, hd, Repository.siteAnswer_of_static (I.static r hr) hc.occurs I.origin_empty.occurs]
  rw [Chain.siteOutcome, hanswers, uncached]

/-- A value that was fetched was kept, which leaves the cache consistent: no earlier repository has
anything. -/
theorem grown_of_fetched (hc : I.Consistent w.env) (hq : I.Admits q) {value : α} {e' : σ}
    {calls : List Call}
    (h : Chain.FetchedLast I.repositories q value w.env e' calls) :
    I.Grown w.env e' ∧ I.Kept e' q := by
  obtain ⟨before, r, after, bytes, hr, hbefore, _, hfetched⟩ := h
  have hmem : r ∈ I.repositories := by simp [hr]
  have hserves : r.Serves I.origin q bytes := by
    refine ⟨?_, value, hfetched.reads⟩
    rw [← Repository.siteContent_of_static (I.static r hmem) hc.occurs I.origin_empty.occurs]
    exact hfetched.content
  have hbarren : ∀ r' ∈ before, r'.Barren I.origin q := by
    intro r' hr'
    have hmem' : r' ∈ I.repositories := by simp [hr, hr']
    obtain ⟨o, ho, hu⟩ := hbefore r' hr'
    rw [Repository.siteAnswer_of_static (I.static r' hmem') hc.occurs I.origin_empty.occurs] at ho
    exact Repository.barren_iff.2 ⟨o, ho, hu⟩
  rw [hfetched.written]
  refine ⟨.of_write hc hr hq hserves hbarren, Or.inr ⟨r, hmem, ?_⟩⟩
  rw [(I.shows r hmem).entry_write hc.occurs, if_pos rfl]
  rfl

section Declared

variable {o : Outcome α} (hd : q.declared? = some o)
include hd

theorem localHalf_declared (r : Repository σ) (w : World σ) :
    r.localHalf.answer q w = .ok o w := by
  rw [r.localHalf_answer, Repository.localAnswer_of_declared hd]

/-- Where the metadata answers without a value, no site is asked. -/
theorem remoteHalf_declared (ho : o.isResolved = false) (r : Repository σ) (w : World σ) :
    r.remoteHalf.answer q w = .ok .unset w := by
  cases q with
  | artifacts m category =>
    simp only [Query.declared?] at hd
    split at hd
    · rw [← Option.some.inj hd] at ho
      cases ho
    · rfl
    · cases hd
  | _ => cases hd

/-- What the metadata answers does not depend on the cache or on the sites. -/
theorem lookup_declared_resolved {value : α} (ho : o = .resolved value) (p : Policy)
    (halves : List (String × Half σ)) (w : World σ) (hne : I.repositories = [] → halves = []) :
    ∃ o', Chain.ask q.operation q.subject (·.answer q) []
      ((I.repositories.map fun r => (r.name, (r.under p).localHalf)) ++ halves) w = .ok o' w ∧
        I.uncached q = .ok o' := by
  subst ho
  have hanswer : ∀ r, I.answer q r = .ok (.resolved value) := fun r => by rw [answer, hd]
  rw [uncached]
  cases hr : I.repositories with
  | nil =>
    rw [hne hr]
    exact ⟨.missing, rfl, rfl⟩
  | cons r rest =>
    refine ⟨.resolved value, ?_, ?_⟩
    · rw [List.map_cons, List.cons_append, Chain.ask_cons, localHalf_declared hd]
      rfl
    · rw [List.map_cons, hanswer]
      exact Chain.settle_cons_resolved

theorem uncached_declared_unresolved (ho : o.isResolved = false) :
    I.uncached q = Chain.settle q.operation q.subject
      (I.repositories.filterMap fun r => o.failure?.map (r.name, ·)) [] := by
  have hanswer : ∀ r, I.answer q r = .ok o := fun r => by rw [answer, hd]
  simp only [uncached, hanswer]
  exact Chain.settle_still (fun r : Repository σ => r.name) (fun _ => o) (fun _ _ => ho) []

end Declared

/-- An online lookup ends as it does without a cache, and leaves the cache consistent. A value that
it ends with is in the cache then. -/
theorem lookup_online (hc : I.Consistent w.env) (hq : I.Admits q) (hp : p.offline = false) :
    ∃ e', ((p.chain I.repositories).lookup q).ends w = (I.uncached q, e') ∧ I.Grown w.env e' ∧
      ∀ value, I.uncached q = .ok (.resolved value) → I.Kept e' q := by
  cases hd : q.declared? with
  | none =>
    by_cases hoffer : ∃ r ∈ I.repositories, ∃ value, (r.under p).Offers w.env q value
    · obtain ⟨_, r, _, value, hr, _, hv, hlookup⟩ := Chain.lookup_of_offer hd hoffer
      obtain ⟨hu, hk⟩ := uncached_of_offer hc hq hd (by simp [hr]) hv
      refine ⟨w.env, ?_, .refl hc, fun _ _ => hk⟩
      rw [hu]
      exact Action.ends_of_ok hlookup
    · have hn : ∀ r ∈ I.repositories, ∀ value, ¬ (r.under p).Offers w.env q value :=
        fun r hr value hv => hoffer ⟨r, hr, value, hv⟩
      have hk : ∀ r ∈ I.repositories, ∀ bytes value,
          r.keptOutcome w.env q bytes value = .resolved value := by
        intro r hr bytes value
        exact Repository.keptOutcome_of_write ((I.shows r hr).write_eq hc.occurs _ _) value
      obtain ⟨outcome, e', hout, hseen, hcase⟩ := Chain.lookup_of_sites hd hp hn hk
      rw [entryFailures_eq_nil hc hq hd hn, siteOutcome_eq_uncached hc hd] at hout
      rw [hout]
      refine ⟨e', Action.ends_of_seen hseen, ?_⟩
      rcases hcase with ⟨value, _, hfetched⟩ | ⟨hu, rfl⟩
      · obtain ⟨hg, hkept⟩ := grown_of_fetched hc hq hfetched
        exact ⟨hg, fun _ _ => hkept⟩
      · exact ⟨.refl hc, fun value hv => absurd hv (hu value)⟩
  | some o =>
    have hk : I.Kept w.env q := Or.inl (by simp [hd])
    refine ⟨w.env, ?_, .refl hc, fun _ _ => hk⟩
    rw [Chain.lookup_eq_ask, Chain.halves_chain_online hp]
    rcases o.resolved_or_unresolved with ⟨value, ho⟩ | ho
    · obtain ⟨o', ha, hu⟩ := lookup_declared_resolved hd ho p
        (I.repositories.map fun r => (r.name, (r.under p).remoteHalf)) w fun hr => by rw [hr]; rfl
      rw [hu]
      exact Action.ends_of_ok ha
    · obtain ⟨o', ha, hu, _⟩ := Chain.ask_end q
        (I.repositories.filterMap fun r => o.failure?.map (r.name, ·)) w
      rw [uncached_declared_unresolved hd ho, hu]
      refine Action.ends_of_ok ?_
      rw [Chain.ask_still _ (fun _ => o) (fun r _ => localHalf_declared hd (r.under p) w)
        (fun _ _ => ho), Chain.ask_unset _ fun r _ => remoteHalf_declared hd ho (r.under p) w]
      exact ha

/-- An offline lookup ends with a value only if it does so without a cache, and with every value
that is in the cache. -/
theorem lookup_offline (hc : I.Consistent w.env) (hq : I.Admits q) (hp : p.offline = true) :
    ∃ o, (p.chain I.repositories).lookup q w = .ok o w ∧
      (∀ value, o = .resolved value → I.uncached q = .ok (.resolved value)) ∧
      (I.Kept w.env q → ∀ value, I.uncached q = .ok (.resolved value) → o = .resolved value) := by
  cases hd : q.declared? with
  | none =>
    by_cases hoffer : ∃ r ∈ I.repositories, ∃ value, (r.under p).Offers w.env q value
    · obtain ⟨_, r, _, value, hr, _, hv, hlookup⟩ := Chain.lookup_of_offer hd hoffer
      obtain ⟨hu, _⟩ := uncached_of_offer hc hq hd (by simp [hr]) hv
      refine ⟨.resolved value, hlookup, fun value' h => h ▸ hu, fun _ value' hu' => ?_⟩
      exact Except.ok.inj (hu.symm.trans hu')
    · have hn : ∀ r ∈ I.repositories, ∀ value, ¬ (r.under p).Offers w.env q value :=
        fun r hr value hv => hoffer ⟨r, hr, value, hv⟩
      rw [Chain.lookup_eq_ask, Chain.halves_chain_offline hp, Chain.ask_entries hd hn,
        ← List.append_nil (I.repositories.map _),
        Chain.ask_still _ _ (fun _ _ => offlineHalf_answer q w) (fun _ _ => rfl)]
      obtain ⟨o, ho, _, hu⟩ := Chain.ask_end q (_ ++ I.repositories.filterMap _) w
      refine ⟨o, ho, ?_, ?_⟩
      · rintro value rfl
        cases hu
      · rintro (hk | ⟨r, hr, hk⟩)
        · exact absurd hd hk
        · have hf := fresh_of_no_offer hc hq hr (hn r hr)
          rw [Policy.trust_of_offline hp, Cache.View.fresh_always, Option.map_eq_none_iff] at hf
          rw [hf] at hk
          cases hk
  | some o =>
    rw [Chain.lookup_eq_ask, Chain.halves_chain_offline hp]
    rcases o.resolved_or_unresolved with ⟨value, ho⟩ | ho
    · obtain ⟨o', ha, hu⟩ := lookup_declared_resolved hd ho p
        (I.repositories.map fun r => (r.name, offlineHalf)) w fun hr => by rw [hr]; rfl
      refine ⟨o', ha, fun value' h => h ▸ hu, fun _ value' hu' => ?_⟩
      exact Except.ok.inj (hu.symm.trans hu')
    · rw [Chain.ask_still _ (fun _ => o) (fun r _ => localHalf_declared hd (r.under p) w)
        (fun _ _ => ho), ← List.append_nil (I.repositories.map _),
        Chain.ask_still _ _ (fun _ _ => offlineHalf_answer q w) (fun _ _ => rfl)]
      obtain ⟨o', ha, _, hu⟩ := Chain.ask_end q (_ ++ I.repositories.filterMap _) w
      obtain ⟨o'', _, hs, hu'⟩ := Chain.ask_end q
        (I.repositories.filterMap fun r => o.failure?.map (r.name, ·)) w
      refine ⟨o', ha, ?_, fun _ value h => ?_⟩
      · rintro value rfl
        cases hu
      · rw [uncached_declared_unresolved hd ho, hs, Except.ok.injEq] at h
        rw [h] at hu'
        cases hu'

end Installation
end ArtifactResolver
