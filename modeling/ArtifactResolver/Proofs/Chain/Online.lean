import ArtifactResolver.Proofs.Chain.Settle
import ArtifactResolver.Proofs.Repository.Usable

/-!
# First the entries, then the sites

A lookup that the metadata does not answer has two phases, whatever the store does. The first
repository with an entry that can be used ends it without a call. If there is none, an online lookup
calls the sites in turn, and then it ends as they answer: all that it takes from the cache are the
failures that it lists if no site has a value either.
-/

namespace ArtifactResolver

variable {σ α β : Type}

namespace Chain

/-- Where something in a list has a property, there is a first one that has it. -/
theorem exists_first {l : List β} {P : β → Prop} (h : ∃ b ∈ l, P b) :
    ∃ before first after, l = before ++ first :: after ∧ (∀ b ∈ before, ¬ P b) ∧ P first := by
  induction l with
  | nil =>
    obtain ⟨b, hb, _⟩ := h
    cases hb
  | cons b rest ih =>
    by_cases hb : P b
    · exact ⟨[], b, rest, rfl, by simp, hb⟩
    · have hrest : ∃ b' ∈ rest, P b' := by
        obtain ⟨b', hb', hP⟩ := h
        rcases List.mem_cons.1 hb' with rfl | hb'
        · exact absurd hP hb
        · exact ⟨b', hb', hP⟩
      obtain ⟨before, first, after, rfl, hbefore, hfirst⟩ := ih hrest
      refine ⟨b :: before, first, after, rfl, ?_, hfirst⟩
      intro b' hb'
      rcases List.mem_cons.1 hb' with rfl | hb'
      · exact hb
      · exact hbefore b' hb'

variable {p : Policy} {q : Query α} {w : World σ} {repositories : List (Repository σ)}

/-! ## Entries -/

/-- The failures of repositories to look at their entries. -/
def entryFailures (p : Policy) (repositories : List (Repository σ)) (env : σ) (q : Query α) :
    List (String × Failure) :=
  repositories.filterMap fun r => ((r.under p).localAnswer env q).failure?.map (r.name, ·)

/-- Whatever the policy, the local halves are asked first. -/
theorem halves_chain (p : Policy) (repositories : List (Repository σ)) :
    ∃ after, (p.chain repositories).halves =
      (repositories.map fun r => (r.name, (r.under p).localHalf)) ++ after := by
  cases hp : p.offline with
  | true => exact ⟨_, halves_chain_offline hp repositories⟩
  | false => exact ⟨_, halves_chain_online hp repositories⟩

section Entries

variable (hd : q.declared? = none)
include hd

/-- Repositories without an entry that can be used leave a lookup with their failures. -/
theorem ask_entries (hn : ∀ r ∈ repositories, ∀ value, ¬ (r.under p).Offers w.env q value)
    (after : List (String × Half σ)) :
    ask q.operation q.subject (·.answer q) []
        ((repositories.map fun r => (r.name, (r.under p).localHalf)) ++ after) w =
      ask q.operation q.subject (·.answer q) (entryFailures p repositories w.env q) after w := by
  have hu : ∀ r ∈ repositories, ((r.under p).localAnswer w.env q).isResolved = false := by
    intro r hr
    exact Repository.localAnswer_of_no_offer (hn r hr) hd
  rw [ask_still _ (fun r => (r.under p).localAnswer w.env q)
    (fun r _ => (r.under p).localHalf_answer q w) hu]
  rfl

/-- The first entry that can be used ends a lookup, and nothing else happens. -/
theorem lookup_of_offer
    (h : ∃ r ∈ repositories, ∃ value, (r.under p).Offers w.env q value) :
    ∃ before first after value, repositories = before ++ first :: after ∧
      (∀ r ∈ before, ∀ value, ¬ (r.under p).Offers w.env q value) ∧
      (first.under p).Offers w.env q value ∧
      (p.chain repositories).lookup q w = .ok (.resolved value) w := by
  obtain ⟨before, first, after, rfl, hbefore, value, hv⟩ := exists_first h
  have hnone : ∀ r ∈ before, ∀ value, ¬ (r.under p).Offers w.env q value :=
    fun r hr value hv => hbefore r hr ⟨value, hv⟩
  have hanswer : (first.under p).localHalf.answer q w = .ok (.resolved value) w := by
    rw [Repository.localHalf_answer, (Repository.localAnswer_eq_resolved_iff_offers hd).2 hv]
  refine ⟨before, first, after, value, rfl, hnone, hv, ?_⟩
  obtain ⟨others, hhalves⟩ := halves_chain p (before ++ first :: after)
  rw [lookup_eq_ask, hhalves, List.map_append, List.append_assoc, ask_entries hd hnone,
    List.map_cons, List.cons_append, ask_cons, hanswer]
  rfl

/-- Without such an entry an online lookup is left to the remote halves. -/
theorem lookup_of_no_offer (hp : p.offline = false)
    (hn : ∀ r ∈ repositories, ∀ value, ¬ (r.under p).Offers w.env q value) :
    (p.chain repositories).lookup q w =
      ask q.operation q.subject (·.answer q) (entryFailures p repositories w.env q)
        (repositories.map fun r => (r.name, (r.under p).remoteHalf)) w := by
  rw [lookup_eq_ask, halves_chain_online hp, ask_entries hd hn]

end Entries

/-! ## Calls -/

section Calls

variable {halves : List (String × Half σ)}

/-- No call is taken back when the halves behind one are asked. -/
theorem ask_cons_calls (half : String × Half σ) {rest : List (String × Half σ)}
    (hrest : ∀ failures w, w.calls <+:
      ((ask q.operation q.subject (·.answer q) failures rest).finish w).2.calls)
    (failures : List (String × Failure)) (w : World σ) :
    ((half.2.answer q).finish w).2.calls <+:
      ((ask q.operation q.subject (·.answer q) failures (half :: rest)).finish w).2.calls := by
  rw [Action.finish, Action.finish, ask_cons]
  cases half.2.answer q w with
  | error panic w' => exact List.prefix_refl _
  | ok o w' =>
    rcases o with ⟨_ | value | failure | _⟩
    · exact hrest failures w'
    · exact List.prefix_refl _
    · exact hrest (failures ++ [(half.1, failure)]) w'
    · exact hrest failures w'

theorem ask_calls (h : ∀ half ∈ halves, ∀ w : World σ,
      w.calls <+: ((half.2.answer q).finish w).2.calls)
    (failures : List (String × Failure)) (w : World σ) :
    w.calls <+: ((ask q.operation q.subject (·.answer q) failures halves).finish w).2.calls := by
  induction halves generalizing failures w with
  | nil =>
    obtain ⟨o, ho, _⟩ := ask_end q failures w
    have hcalls : ((ask q.operation q.subject (·.answer q) failures []).finish w).2.calls =
        w.calls := by
      rw [Action.finish, ho]
    exact hcalls ▸ List.prefix_refl _
  | cons half rest ih =>
    have hrest := ih fun half' hh => h half' (List.mem_cons_of_mem _ hh)
    exact (h half List.mem_cons_self w).trans (ask_cons_calls half hrest failures w)

/-- Without an entry that can be used, an online lookup calls a site. -/
theorem lookup_calls (hd : q.declared? = none) (hp : p.offline = false) (hne : repositories ≠ [])
    (hn : ∀ r ∈ repositories, ∀ value, ¬ (r.under p).Offers w.env q value) :
    ∃ call, w.calls ++ [call] <+: (((p.chain repositories).lookup q).finish w).2.calls := by
  obtain ⟨first, after, rfl⟩ := List.exists_cons_of_ne_nil hne
  obtain ⟨call, hcall⟩ := Repository.call?_of_undeclared hd (first.under p)
  have hcalls := Repository.remoteHalf_calls_site (hn first List.mem_cons_self) hcall
  have hprefix : ∀ half ∈ after.map (fun r => (r.name, (r.under p).remoteHalf)), ∀ w : World σ,
      w.calls <+: ((half.2.answer q).finish w).2.calls := by
    intro half hhalf w
    obtain ⟨r, _, rfl⟩ := List.mem_map.1 hhalf
    obtain ⟨calls, hmore⟩ := (r.under p).remoteHalf_calls q w
    exact ⟨calls, hmore.symm⟩
  refine ⟨call, ?_⟩
  rw [← hcalls, Action.finish_congr (lookup_of_no_offer hd hp hn)]
  exact ask_cons_calls (first.name, (first.under p).remoteHalf) (ask_calls hprefix) _ w

end Calls

/-! ## Sites -/

/-- What a chain makes of the answers of the sites. -/
def siteOutcome (q : Query α) (failures : List (String × Failure)) (env : σ)
    (repositories : List (Repository σ)) : Except Panic (Outcome α) :=
  settle q.operation q.subject failures (repositories.map fun r => (r.name, r.siteAnswer env q))

/-- The calls of a lookup that no entry answers: the sites are called in turn, up to the first one
that has a value or panics. -/
def siteCalls (q : Query α) (env : σ) : List (Repository σ) → List Call
  | [] => []
  | r :: rest => (r.call? q).toList ++ match r.siteAnswer env q with
    | .ok o => if o.isResolved then [] else siteCalls q env rest
    | .error _ => []

/-- The last of the calls was to the site of one of the repositories, and the value was read from
what that returned, which was written to the cache. The sites of the repositories before it have
answered without a value. -/
def FetchedLast (repositories : List (Repository σ)) (q : Query α) (value : α) (env env' : σ)
    (calls : List Call) : Prop :=
  ∃ before winner after bytes, repositories = before ++ winner :: after ∧
    (∀ r ∈ before, ∃ o, r.siteAnswer env q = .ok o ∧ o.isResolved = false) ∧
    calls.getLast? = winner.call? q ∧ winner.Fetched q value env env' bytes

theorem FetchedLast.behind {r : Repository σ} {rest : List (Repository σ)} {value : α}
    {env env' : σ} {o : Outcome α} {call : Call} {calls : List Call}
    (h : FetchedLast rest q value env env' calls) (hd : q.declared? = none)
    (ha : r.siteAnswer env q = .ok o) (ho : o.isResolved = false) :
    FetchedLast (r :: rest) q value env env' (call :: calls) := by
  obtain ⟨before, winner, after, bytes, rfl, hbefore, hlast, hfetched⟩ := h
  obtain ⟨last, hl⟩ := Repository.call?_of_undeclared hd winner
  refine ⟨r :: before, winner, after, bytes, rfl, ?_, ?_, hfetched⟩
  · intro r' hr'
    rcases List.mem_cons.1 hr' with rfl | hr'
    · exact ⟨o, ha, ho⟩
    · exact hbefore r' hr'
  · rw [List.getLast?_cons, hlast, hl]
    rfl

section Sites

variable (hd : q.declared? = none)
include hd

theorem siteCalls_ne_nil (env : σ) (hne : repositories ≠ []) :
    siteCalls q env repositories ≠ [] := by
  obtain ⟨r, rest, rfl⟩ := List.exists_cons_of_ne_nil hne
  obtain ⟨call, hcall⟩ := Repository.call?_of_undeclared hd r
  simp [siteCalls, hcall]

/-- The remote halves end a lookup as the sites answer in the environment in which it started: only
the repository that ends it writes to the cache. -/
theorem ask_sites (hn : ∀ r ∈ repositories, ∀ value, ¬ (r.under p).Offers w.env q value)
    (hk : ∀ r ∈ repositories, ∀ bytes value, r.keptOutcome w.env q bytes value = .resolved value)
    (failures : List (String × Failure)) :
    ∃ e', (ask q.operation q.subject (·.answer q) failures
        (repositories.map fun r => (r.name, (r.under p).remoteHalf))).seen w =
          (siteOutcome q failures w.env repositories, e',
            w.calls ++ siteCalls q w.env repositories) ∧
      ((∃ value, siteOutcome q failures w.env repositories = .ok (.resolved value) ∧
          FetchedLast repositories q value w.env e' (siteCalls q w.env repositories)) ∨
        (∀ value, siteOutcome q failures w.env repositories ≠ .ok (.resolved value)) ∧
          e' = w.env) := by
  induction repositories generalizing failures w with
  | nil =>
    obtain ⟨o, ho, hs, hu⟩ := ask_end q failures w
    refine ⟨w.env, ?_, Or.inr ⟨?_, rfl⟩⟩
    · rw [Action.seen, List.map_nil, ho, siteOutcome, List.map_nil, hs, siteCalls, List.append_nil]
    · intro value hv
      rw [siteOutcome, List.map_nil, hs] at hv
      cases hv
      cases hu
  | cons r rest ih =>
    obtain ⟨call, hcall⟩ := Repository.call?_of_undeclared hd (r.under p)
    have hkept : ∀ bytes value, (r.under p).keptOutcome w.env q bytes value = .resolved value := by
      intro bytes value
      rw [Repository.under_keptOutcome]
      exact hk r List.mem_cons_self bytes value
    obtain ⟨env', hseen, hcase⟩ := Repository.remoteHalf_answers_site
      (hn r List.mem_cons_self) hcall hkept
    rw [Repository.under_siteAnswer] at hseen hcase
    rw [Repository.under_call?] at hcall
    simp only [siteOutcome, List.map_cons, siteCalls, hcall, Option.toList_some]
    cases ha : r.siteAnswer w.env q with
    | error panic =>
      rw [ha] at hseen hcase
      obtain ⟨w₁, hw₁, rfl, hcalls⟩ := Action.seen_eq_error_iff.1 hseen
      have henv : w₁.env = w.env := by
        rcases hcase with ⟨_, _, hv, _⟩ | ⟨_, he⟩
        · cases hv
        · exact he
      refine ⟨w₁.env, ?_, Or.inr ⟨?_, henv⟩⟩
      · rw [Action.seen, ask_cons, hw₁, settle_cons_error]
        dsimp only
        rw [hcalls, List.append_nil]
      · intro value hv
        rw [settle_cons_error] at hv
        cases hv
    | ok o =>
      rw [ha] at hseen hcase
      obtain ⟨w₁, hw₁, rfl, hcalls⟩ := Action.seen_eq_ok_iff.1 hseen
      rcases hcase with ⟨value, bytes, hv, hfetched⟩ | ⟨hu, henv⟩
      · obtain rfl : o = .resolved value := Except.ok.inj hv
        rw [settle_cons_resolved]
        refine ⟨w₁.env, ?_, Or.inl ⟨value, rfl, [], r, rest, bytes, rfl, by simp, ?_, ?_⟩⟩
        · rw [Action.seen, ask_cons, hw₁]
          dsimp only [Outcome.resolved]
          rw [hcalls]
          rfl
        · exact hcall.symm
        · exact hfetched.of_under
      · have ho : o.isResolved = false := by
          rcases o.resolved_or_unresolved with ⟨value, rfl⟩ | ho
          · exact absurd rfl (hu value)
          · exact ho
        -- nothing was written, so the others are asked in the same environment
        obtain ⟨e', hask, hrest⟩ := ih (w := w₁)
          (fun r' hr' => by rw [henv]; exact hn r' (List.mem_cons_of_mem _ hr'))
          (fun r' hr' => by rw [henv]; exact hk r' (List.mem_cons_of_mem _ hr'))
          (noting failures r.name o)
        rw [henv, hcalls, List.append_assoc] at hask
        rw [henv] at hrest
        simp only [settle_cons_unresolved ho, ho, Bool.false_eq_true, if_false]
        refine ⟨e', ?_, ?_⟩
        · rw [Action.seen, ask_cons_unresolved hw₁ ho]
          exact hask
        · rcases hrest with ⟨value, hv, hlast⟩ | hrest
          · exact Or.inl ⟨value, hv, hlast.behind hd ha ho⟩
          · exact Or.inr hrest

/-- Without an entry that can be used, an online lookup ends as the sites answer. -/
theorem lookup_of_sites (hp : p.offline = false)
    (hn : ∀ r ∈ repositories, ∀ value, ¬ (r.under p).Offers w.env q value)
    (hk : ∀ r ∈ repositories, ∀ bytes value, r.keptOutcome w.env q bytes value = .resolved value) :
    ∃ outcome e', siteOutcome q (entryFailures p repositories w.env q) w.env repositories =
        outcome ∧
      ((p.chain repositories).lookup q).seen w =
        (outcome, e', w.calls ++ siteCalls q w.env repositories) ∧
      ((∃ value, outcome = .ok (.resolved value) ∧
          FetchedLast repositories q value w.env e' (siteCalls q w.env repositories)) ∨
        (∀ value, outcome ≠ .ok (.resolved value)) ∧ e' = w.env) := by
  obtain ⟨e', hask, hcase⟩ := ask_sites hd hn hk (entryFailures p repositories w.env q)
  refine ⟨_, e', rfl, ?_, hcase⟩
  rw [Action.seen, lookup_of_no_offer hd hp hn]
  exact hask

end Sites

end Chain
end ArtifactResolver
