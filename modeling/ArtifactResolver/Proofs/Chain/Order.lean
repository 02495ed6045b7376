import ArtifactResolver.Lens
import ArtifactResolver.Proofs.Chain.Query

/-!
# The order in which a chain asks

A chain is specified by the answers that its halves give when they are asked one after the other:
the first value wins, and the halves behind it are not asked; without a value the failures of all
halves count, in their order; without a failure there is no such thing.

Halves may act on the world, so each of them is asked in the world that the ones before it left. To
see which halves are asked at all, they are made to note it when they are.
-/

namespace ArtifactResolver

variable {σ μ α : Type}

/-! ## Noting -/

/-- The place of an environment beside notes. -/
def Lens.besideNotes : Lens (σ × List μ) σ := ⟨Prod.fst, fun env whole => (env, whole.2)⟩

/-- The world with notes beside its environment. -/
def World.withNotes (w : World σ) (notes : List μ) : World (σ × List μ) :=
  ⟨(w.env, notes), w.held, w.calls, w.log⟩

/-- The action, which first leaves a mark in the notes. -/
def Action.noted (mark : μ) (a : Action σ α) : Action (σ × List μ) α := do
  modify fun w => { w with env := (w.env.1, w.env.2 ++ [mark]) }
  Action.within Lens.besideNotes a

/-- Leaving a mark changes nothing else. -/
theorem Action.noted_apply (mark : μ) (a : Action σ α) (w : World σ) (notes : List μ) :
    a.noted mark (w.withNotes notes) = match a w with
      | .ok v w' => .ok v (w'.withNotes (notes ++ [mark]))
      | .error p w' => .error p (w'.withNotes (notes ++ [mark])) := by
  unfold noted
  rw [bind_apply, modify_apply]
  show within Lens.besideNotes a (w.withNotes (notes ++ [mark])) = _
  unfold within
  show (match a w with
    | .ok value w' => _
    | .error panic w' => _) = _
  cases a w <;> rfl

/-- The half, which leaves a mark in the notes whenever it is asked. -/
def Half.noted (mark : μ) (h : Half σ) : Half (σ × List μ) where
  versions s := (h.versions s).noted mark
  metadata c := (h.metadata c).noted mark
  artifacts m category := (h.artifacts m category).noted mark
  artifact a := (h.artifact a).noted mark

theorem Half.answer_noted (mark : μ) (h : Half σ) (q : Query α) :
    (h.noted mark).answer q = (h.answer q).noted mark := by
  cases q <;> rfl

namespace Chain

/-- Halves that leave the marks `first`, `first + 1` and so on in the notes. -/
def numbered (first : Nat) (halves : List (String × Half σ)) :
    List (String × Half (σ × List Nat)) :=
  (halves.zipIdx first).map fun entry => (entry.1.1, entry.1.2.noted entry.2)

/-- The chain whose halves leave their numbers in the notes. The local halves have the numbers from
zero on, and the remote halves those behind them. -/
def noted (c : Chain σ) : Chain (σ × List Nat) where
  members := c.members.zipIdx.map fun entry =>
    ⟨entry.1.name, entry.1.localHalf.noted entry.2,
      entry.1.remoteHalf.noted (c.members.length + entry.2)⟩

theorem numbered_append (first : Nat) (before after : List (String × Half σ)) :
    numbered first (before ++ after) =
      numbered first before ++ numbered (first + before.length) after := by
  simp [numbered, List.zipIdx_append]

theorem length_numbered (first : Nat) (halves : List (String × Half σ)) :
    (numbered first halves).length = halves.length := by
  simp [numbered]

/-- The halves of the noted chain are those of the chain, numbered in the order in which they are
asked. -/
theorem halves_noted (c : Chain σ) : c.noted.halves = numbered 0 c.halves := by
  rw [halves, halves, numbered_append, List.length_map, Nat.zero_add]
  simp only [numbered, noted, List.zipIdx_map, List.map_map, Function.comp_def]
  rw [List.zipIdx_eq_map_add (i := c.members.length)]
  simp [Function.comp_def]

/-! ## The specification -/

/-- Asking halves one after the other, each in the world that the ones before it left, gives these
answers and leaves that world in the end. -/
inductive Answers (q : Query α) :
    World σ → List (String × Half σ) → List (Outcome α) → World σ → Prop where
  /-- Nobody is asked. -/
  | nil (w : World σ) : Answers q w [] [] w
  /-- A half is asked, and then the others. -/
  | cons {w w₁ w₂ : World σ} {half : String × Half σ} {rest : List (String × Half σ)}
      {o : Outcome α} {answers : List (Outcome α)} (asked : half.2.answer q w = .ok o w₁)
      (others : Answers q w₁ rest answers w₂) : Answers q w (half :: rest) (o :: answers) w₂

/-- The failures among answers, each with the name of the repository that it comes from. -/
def failuresOf (halves : List (String × Half σ)) (answers : List (Outcome α)) :
    List (String × Failure) :=
  (halves.zip answers).filterMap fun entry => entry.2.failure?.map (entry.1.1, ·)

/-- What a chain has to make of the answers of its halves: how many halves it asks, the outcome, and
the world that it leaves. -/
inductive Verdict (c : Chain σ) (q : Query α) (w : World σ) :
    Nat → Outcome α → World σ → Prop where
  /-- The first value is the outcome, and no half behind it is asked. -/
  | resolved {before after : List (String × Half σ)} {half : String × Half σ}
      {answers : List (Outcome α)} {value : α} {w₁ w₂ : World σ}
      (hc : c.halves = before ++ half :: after) (ha : Answers q w before answers w₁)
      (hu : ∀ o ∈ answers, o.isResolved = false)
      (hv : half.2.answer q w₁ = .ok (.resolved value) w₂) :
      Verdict c q w (before.length + 1) (.resolved value) w₂
  /-- Without a value all failures count, in their order. -/
  | exhausted {answers : List (Outcome α)} {w' : World σ} (ha : Answers q w c.halves answers w')
      (hu : ∀ o ∈ answers, o.isResolved = false) (hf : ∃ o ∈ answers, o.isFailed = true) :
      Verdict c q w (2 * c.members.length)
        (.failed (.exhausted q.operation q.subject (failuresOf c.halves answers))) w'
  /-- Without a value and a failure there is no such thing. -/
  | missing {answers : List (Outcome α)} {w' : World σ} (ha : Answers q w c.halves answers w')
      (hu : ∀ o ∈ answers, o.isResolved = false) (hn : ∀ o ∈ answers, o.isFailed = false) :
      Verdict c q w (2 * c.members.length) .missing w'

section Spec

variable {q : Query α} {w w' : World σ} {halves before : List (String × Half σ)}
  {answers : List (Outcome α)}

theorem length_halves (c : Chain σ) : c.halves.length = 2 * c.members.length := by
  simp [Chain.halves]
  omega

/-- The failures after an answer without a value. -/
def noting (failures : List (String × Failure)) (name : String) (o : Outcome α) :
    List (String × Failure) :=
  failures ++ (o.failure?.map (name, ·)).toList

theorem ask_cons_unresolved {operation : Operation} {subject : String}
    {query : Half σ → Action σ (Outcome α)} {failures : List (String × Failure)}
    {half : String × Half σ} {o : Outcome α} (h : query half.2 w = .ok o w')
    (hu : o.isResolved = false) (rest : List (String × Half σ)) :
    ask operation subject query failures (half :: rest) w =
      ask operation subject query (noting failures half.1 o) rest w' := by
  rw [ask_cons, h, noting]
  rcases o with ⟨_ | value | failure | _⟩
  · simp [Outcome.failure?]
  · cases hu
  · simp [Outcome.failure?]
  · simp [Outcome.failure?]

theorem failuresOf_cons (half : String × Half σ) (o : Outcome α) :
    failuresOf (half :: halves) (o :: answers) =
      (o.failure?.map (half.1, ·)).toList ++ failuresOf halves answers := by
  cases hf : o.failure? <;> simp [failuresOf, hf]

theorem failuresOf_map {β : Type} (l : List β) (half : β → String × Half σ) (o : β → Outcome α) :
    failuresOf (l.map half) (l.map o) =
      l.filterMap fun b => (o b).failure?.map ((half b).1, ·) := by
  rw [failuresOf, List.zip_map', List.filterMap_map]
  rfl

/-- Halves that have no value leave a lookup with their failures. -/
theorem ask_of_answers (h : Answers q w before answers w')
    (hu : ∀ o ∈ answers, o.isResolved = false) (after : List (String × Half σ))
    (operation : Operation) (subject : String) (failures : List (String × Failure)) :
    ask operation subject (·.answer q) failures (before ++ after) w =
      ask operation subject (·.answer q) (failures ++ failuresOf before answers) after w' := by
  induction h generalizing failures with
  | nil w => simp [failuresOf]
  | @cons w w₁ w₂ half rest o answers asked others ih =>
    have hrest := ih fun o ho => hu o (List.mem_cons_of_mem _ ho)
    rw [List.cons_append, ask_cons_unresolved asked (hu o List.mem_cons_self), hrest, noting,
      failuresOf_cons, List.append_assoc]

theorem failuresOf_eq_nil (h : ∀ o ∈ answers, o.isFailed = false) :
    failuresOf halves answers = [] := by
  rw [failuresOf, List.filterMap_eq_nil_iff]
  rintro ⟨half, o⟩ ho
  have := h o (List.of_mem_zip ho).2
  rcases o with ⟨_ | _ | _ | _⟩ <;> simp_all [Outcome.failure?, Outcome.isFailed]

theorem Answers.length_eq (h : Answers q w halves answers w') :
    answers.length = halves.length := by
  induction h with
  | nil w => rfl
  | cons asked others ih => simp [ih]

/-- Halves are asked one after the other, so the answers to the same question are the same. -/
theorem Answers.unique {answers' : List (Outcome α)} {w'' : World σ}
    (h : Answers q w halves answers w') (h' : Answers q w halves answers' w'') :
    answers = answers' ∧ w' = w'' := by
  induction h generalizing answers' with
  | nil w =>
    cases h'
    exact ⟨rfl, rfl⟩
  | cons asked others ih =>
    cases h' with
    | cons asked' others' =>
      rw [asked, EStateM.Result.ok.injEq] at asked'
      obtain ⟨rfl, rfl⟩ := asked'
      obtain ⟨rfl, rfl⟩ := ih others'
      exact ⟨rfl, rfl⟩

theorem Answers.append {halves' : List (String × Half σ)} {answers' : List (Outcome α)}
    {w'' : World σ} (h : Answers q w halves answers w') (h' : Answers q w' halves' answers' w'') :
    Answers q w (halves ++ halves') (answers ++ answers') w'' := by
  induction h with
  | nil w => exact h'
  | cons asked others ih => exact .cons asked (ih h')

/-- Halves that leave a world as it is answer in that world, each for itself. -/
theorem Answers.of_still {β : Type} {l : List β} (half : β → String × Half σ)
    (answer : β → Outcome α) (h : ∀ b ∈ l, (half b).2.answer q w = .ok (answer b) w) :
    Answers q w (l.map half) (l.map answer) w := by
  induction l with
  | nil => exact .nil w
  | cons b rest ih =>
    exact .cons (h b List.mem_cons_self) (ih fun b hb => h b (List.mem_cons_of_mem _ hb))

theorem failuresOf_append {halves' : List (String × Half σ)} {answers' : List (Outcome α)}
    (hl : answers.length = halves.length) :
    failuresOf (halves ++ halves') (answers ++ answers') =
      failuresOf halves answers ++ failuresOf halves' answers' := by
  rw [failuresOf, List.zip_append hl.symm, List.filterMap_append]
  rfl

theorem failuresOf_ne_nil (hl : answers.length = halves.length)
    (h : ∃ o ∈ answers, o.isFailed = true) : failuresOf halves answers ≠ [] := by
  obtain ⟨o, ho, hf⟩ := h
  rw [failuresOf, Ne, List.filterMap_eq_nil_iff]
  intro hnone
  obtain ⟨i, hi, rfl⟩ := List.getElem_of_mem ho
  have hi' : i < (halves.zip answers).length := by
    rw [List.length_zip]
    omega
  have := hnone _ (List.getElem_mem hi')
  rw [List.getElem_zip] at this
  rcases hans : answers[i] with ⟨_ | _ | _ | _⟩ <;> simp_all [Outcome.failure?, Outcome.isFailed]

/-- A chain does what its specification says. -/
theorem Verdict.lookup_eq {c : Chain σ} {asked : Nat} {o : Outcome α}
    (h : c.Verdict q w asked o w') : c.lookup q w = .ok o w' := by
  rw [lookup_eq_ask]
  cases h with
  | resolved hc ha hu hv => rw [hc, ask_of_answers ha hu, ask_cons, hv]; rfl
  | exhausted ha hu hf =>
    have hask := ask_of_answers ha hu [] q.operation q.subject []
    rw [List.append_nil, List.nil_append] at hask
    rw [hask, ask_nil (failuresOf_ne_nil ha.length_eq hf)]
  | missing ha hu hn =>
    have hask := ask_of_answers ha hu [] q.operation q.subject []
    rw [List.append_nil, List.nil_append, failuresOf_eq_nil hn] at hask
    rw [hask, ask_nil_nil]

/-- Halves that are asked in turn come to a first value, or all answer without one, or one of them
panics after others that have none. -/
theorem asked_cases (q : Query α) (halves : List (String × Half σ)) (w : World σ) :
    (∃ before half after answers value w₁ w₂, halves = before ++ half :: after ∧
      Answers q w before answers w₁ ∧ (∀ o ∈ answers, o.isResolved = false) ∧
      half.2.answer q w₁ = .ok (.resolved value) w₂) ∨
    (∃ answers w', Answers q w halves answers w' ∧ ∀ o ∈ answers, o.isResolved = false) ∨
    ∃ before half after answers p w₁ w₂, halves = before ++ half :: after ∧
      Answers q w before answers w₁ ∧ (∀ o ∈ answers, o.isResolved = false) ∧
      half.2.answer q w₁ = .error p w₂ := by
  induction halves generalizing w with
  | nil => exact Or.inr (Or.inl ⟨[], w, .nil w, by simp⟩)
  | cons half rest ih =>
    cases hask : half.2.answer q w with
    | error p w₂ =>
      exact Or.inr (Or.inr ⟨[], half, rest, [], p, w, w₂, rfl, .nil w, by simp, hask⟩)
    | ok o w₁ =>
      by_cases ho : o.isResolved = true
      · obtain ⟨value, rfl⟩ := Outcome.isResolved_iff.1 ho
        exact Or.inl ⟨[], half, rest, [], value, w, w₁, rfl, .nil w, by simp, hask⟩
      · have hu : ∀ answers : List (Outcome α), (∀ o ∈ answers, o.isResolved = false) →
            ∀ o' ∈ o :: answers, o'.isResolved = false := by
          intro answers h o' ho'
          rcases List.mem_cons.1 ho' with rfl | ho'
          · simpa using ho
          · exact h o' ho'
        rcases ih w₁ with ⟨before, next, after, answers, value, v₁, v₂, rfl, ha, h, hv⟩ |
          ⟨answers, w', ha, h⟩ | ⟨before, next, after, answers, p, v₁, v₂, rfl, ha, h, hv⟩
        · exact Or.inl ⟨half :: before, next, after, o :: answers, value, v₁, v₂, rfl,
            .cons hask ha, hu answers h, hv⟩
        · exact Or.inr (Or.inl ⟨o :: answers, w', .cons hask ha, hu answers h⟩)
        · exact Or.inr (Or.inr ⟨half :: before, next, after, o :: answers, p, v₁, v₂, rfl,
            .cons hask ha, hu answers h, hv⟩)

/-- A lookup has a verdict, or a half panics, and then the lookup does. -/
theorem verdict_or_panic (c : Chain σ) (q : Query α) (w : World σ) :
    (∃ asked o w', c.Verdict q w asked o w') ∨
      ∃ half ∈ c.halves, ∃ p w₁ w₂, half.2.answer q w₁ = .error p w₂ ∧
        c.lookup q w = .error p w₂ := by
  rcases asked_cases q c.halves w with
    ⟨before, half, after, answers, value, w₁, w₂, hc, ha, hu, hv⟩ | ⟨answers, w', ha, hu⟩ |
    ⟨before, half, after, answers, p, w₁, w₂, hc, ha, hu, hv⟩
  · exact Or.inl ⟨_, _, _, .resolved hc ha hu hv⟩
  · by_cases hf : ∃ o ∈ answers, o.isFailed = true
    · exact Or.inl ⟨_, _, _, .exhausted ha hu hf⟩
    · exact Or.inl ⟨_, _, _, .missing ha hu fun o ho => by simpa using fun h => hf ⟨o, ho, h⟩⟩
  · refine Or.inr ⟨half, by simp [hc], p, w₁, w₂, hv, ?_⟩
    rw [lookup_eq_ask, hc, ask_of_answers ha hu, ask_cons, hv]

theorem verdict_of_lookup {c : Chain σ} {o : Outcome α} (h : c.lookup q w = .ok o w') :
    ∃ asked, c.Verdict q w asked o w' := by
  rcases verdict_or_panic c q w with ⟨asked, o', w₂, hv⟩ | ⟨_, _, _, _, _, _, hpanic⟩
  · rw [hv.lookup_eq, EStateM.Result.ok.injEq] at h
    obtain ⟨rfl, rfl⟩ := h
    exact ⟨asked, hv⟩
  · rw [hpanic] at h
    cases h

/-! ## What is noted -/

/-- Halves with numbers answer as those without, and leave their numbers. -/
theorem Answers.noted (h : Answers q w halves answers w') (first : Nat) (notes : List Nat) :
    Answers q (w.withNotes notes) (numbered first halves) answers
      (w'.withNotes (notes ++ List.range' first halves.length)) := by
  induction h generalizing first notes with
  | nil w => simpa [numbered] using Answers.nil _
  | @cons w w₁ w₂ half rest o answers asked others ih =>
    have hrest := ih (first + 1) (notes ++ [first])
    rw [List.append_assoc, List.singleton_append] at hrest
    refine .cons ?_ hrest
    rw [Half.answer_noted, Action.noted_apply, asked]

theorem failuresOf_numbered (first : Nat) (halves : List (String × Half σ))
    (answers : List (Outcome α)) :
    failuresOf (numbered first halves) answers = failuresOf halves answers := by
  induction halves generalizing first answers with
  | nil => rfl
  | cons half rest ih =>
    cases answers with
    | nil => rfl
    | cons o answers =>
      have := ih (first + 1) answers
      simp only [failuresOf, numbered, List.zipIdx_cons, List.map_cons, List.zip_cons_cons,
        List.filterMap_cons] at this ⊢
      rw [this]

/-- The verdict on the noted chain is the one on the chain, and the notes hold the numbers of the
halves that were asked, in the order of asking. -/
theorem Verdict.noted {c : Chain σ} {asked : Nat} {o : Outcome α}
    (h : c.Verdict q w asked o w') :
    c.noted.Verdict q (w.withNotes []) asked o (w'.withNotes (List.range asked)) := by
  have hn : c.noted.members.length = c.members.length := by simp [Chain.noted]
  cases h with
  | @resolved before after half answers value w₁ w₂ hc ha hu hv =>
    have ha' := ha.noted 0 []
    rw [List.nil_append, ← List.range_eq_range'] at ha'
    have hc' : c.noted.halves = numbered 0 before ++
        (half.1, half.2.noted before.length) :: numbered (before.length + 1) after := by
      rw [halves_noted, hc, numbered_append, Nat.zero_add]
      rfl
    rw [← length_numbered 0 before]
    refine .resolved hc' ha' hu ?_
    rw [Half.answer_noted, Action.noted_apply, hv, List.range_succ, length_numbered]
  | exhausted ha hu hf =>
    have ha' := ha.noted 0 []
    rw [List.nil_append, ← List.range_eq_range', ← halves_noted, length_halves] at ha'
    rw [← failuresOf_numbered 0, ← halves_noted]
    simpa only [hn] using Verdict.exhausted ha' hu hf
  | missing ha hu hn' =>
    have ha' := ha.noted 0 []
    rw [List.nil_append, ← List.range_eq_range', ← halves_noted, length_halves] at ha'
    simpa only [hn] using Verdict.missing ha' hu hn'

/-- A chain refines its specification. -/
theorem lookup_refines_verdict (c : Chain σ) (q : Query α) (w : World σ) :
    (∀ o w', c.lookup q w = .ok o w' ↔ ∃ asked, c.Verdict q w asked o w') ∧
    (∀ asked o w', c.Verdict q w asked o w' →
      c.noted.lookup q (w.withNotes []) = .ok o (w'.withNotes (List.range asked))) ∧
    (∀ o w', c.lookup q w = .ok o w' → o.isSet = true) ∧
    ((∀ half ∈ c.halves, ∀ p w₁ w₂, half.2.answer q w₁ ≠ .error p w₂) →
      ∃ o w', c.lookup q w = .ok o w') := by
  have hiff : ∀ o w', c.lookup q w = .ok o w' ↔ ∃ asked, c.Verdict q w asked o w' := by
    intro o w'
    constructor
    · intro h
      rcases verdict_or_panic c q w with ⟨asked, o', w'', hv⟩ | ⟨_, _, p, _, w₂, _, hp⟩
      · rw [hv.lookup_eq, EStateM.Result.ok.injEq] at h
        obtain ⟨rfl, rfl⟩ := h
        exact ⟨asked, hv⟩
      · rw [hp] at h
        cases h
    · rintro ⟨asked, h⟩
      exact h.lookup_eq
  refine ⟨hiff, fun asked o w' h => h.noted.lookup_eq, fun o w' h => ?_, fun h => ?_⟩
  · obtain ⟨asked, hv⟩ := (hiff o w').1 h
    cases hv <;> rfl
  · rcases verdict_or_panic c q w with ⟨asked, o, w', hv⟩ | ⟨half, hh, p, w₁, w₂, hp, _⟩
    · exact ⟨o, w', hv.lookup_eq⟩
    · exact absurd hp (h half hh p w₁ w₂)

/-- Of three repositories the second one has a value, for which its remote half is the last of five
that are asked: the failure of the first remote half does not count. -/
theorem lookup_of_second_remote :
    let half : Outcome Metadata → Half Unit := fun o =>
      ⟨fun _ => pure .unset, fun _ => pure o, fun _ _ => pure .unset, fun _ => pure .unset⟩
    let m : Metadata := { coordinate := ⟨"g", "m", "1"⟩ }
    let failure : Failure := .offline .metadata "g:m:1"
    let c : Chain Unit := ⟨[⟨"first", half .unset, half (.failed failure)⟩,
      ⟨"second", half .missing, half (.resolved m)⟩, ⟨"third", half .unset, half .missing⟩]⟩
    let w : World Unit := { env := () }
    c.lookup (.metadata m.coordinate) w = .ok (.resolved m) w ∧
      c.noted.lookup (.metadata m.coordinate) (w.withNotes []) =
        .ok (.resolved m) (w.withNotes [0, 1, 2, 3, 4]) := by
  intro half m failure c w
  obtain ⟨hiff, hnoted, _, _⟩ := lookup_refines_verdict c (.metadata m.coordinate) w
  have hanswers : Answers (.metadata m.coordinate) w
      [("first", half .unset), ("second", half .missing), ("third", half .unset),
        ("first", half (.failed failure))] [.unset, .missing, .unset, .failed failure] w :=
    .cons rfl (.cons rfl (.cons rfl (.cons rfl (.nil w))))
  have hhalves : c.halves = [("first", half .unset), ("second", half .missing),
      ("third", half .unset), ("first", half (.failed failure))] ++
        ("second", half (.resolved m)) :: [("third", half .missing)] := rfl
  have hverdict : c.Verdict (.metadata m.coordinate) w 5 (.resolved m) w := by
    refine .resolved hhalves hanswers ?_ rfl
    simp [Outcome.isResolved, Outcome.unset, Outcome.missing, Outcome.failed]
  exact ⟨(hiff _ _).2 ⟨5, hverdict⟩, hnoted _ _ _ hverdict⟩

end Spec

end Chain
end ArtifactResolver
