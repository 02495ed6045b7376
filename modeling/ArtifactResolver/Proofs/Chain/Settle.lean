import ArtifactResolver.Proofs.Chain.Order

/-!
# Answers that are known beforehand

Where halves leave the world as it is, what they answer is known before they are asked, and what a
chain makes of that is a matter of the answers alone.
-/

namespace ArtifactResolver

variable {σ α β : Type}

/-- An outcome is a value, or it is not. -/
theorem Outcome.resolved_or_unresolved (o : Outcome α) :
    (∃ value, o = .resolved value) ∨ o.isResolved = false := by
  cases ho : o.isResolved with
  | true => exact Or.inl (isResolved_iff.1 ho)
  | false => exact Or.inr rfl

namespace Chain

/-- What a chain makes of answers that are known beforehand. -/
def settle (operation : Operation) (subject : String) :
    List (String × Failure) → List (String × Except Panic (Outcome α)) → Except Panic (Outcome α)
  | [], [] => .ok .missing
  | failures, [] => .ok (.failed (.exhausted operation subject failures))
  | failures, (name, answer) :: rest =>
    match answer with
    | .error p => .error p
    | .ok ⟨some (.resolved value)⟩ => .ok (.resolved value)
    | .ok ⟨some (.failed failure)⟩ => settle operation subject (failures ++ [(name, failure)]) rest
    | .ok ⟨some .missing⟩ => settle operation subject failures rest
    | .ok ⟨none⟩ => settle operation subject failures rest

section Answers

variable {operation : Operation} {subject name : String} {failures : List (String × Failure)}
  {answers before after rest : List (String × Except Panic (Outcome α))} {value : α}

theorem settle_cons_error {panic : Panic} :
    settle operation subject failures ((name, .error panic) :: rest) = .error panic := by
  cases failures <;> rfl

theorem settle_cons_resolved :
    settle operation subject failures ((name, .ok (.resolved value)) :: rest) =
      .ok (.resolved value) := by
  cases failures <;> rfl

theorem settle_cons_unresolved {o : Outcome α} (hu : o.isResolved = false) :
    settle operation subject failures ((name, .ok o) :: rest) =
      settle operation subject (noting failures name o) rest := by
  rw [noting]
  rcases o with ⟨_ | value | failure | _⟩
  · cases failures <;> simp [settle, Outcome.failure?]
  · cases hu
  · cases failures <;> simp [settle, Outcome.failure?]
  · cases failures <;> simp [settle, Outcome.failure?]

/-- Answers in front of a value do not count, unless they are panics. -/
theorem settle_resolved (h : ∀ answer ∈ before, ∃ o, answer.2 = .ok o ∧ o.isResolved = false)
    (failures : List (String × Failure)) :
    settle operation subject failures (before ++ (name, .ok (.resolved value)) :: after) =
      .ok (.resolved value) := by
  induction before generalizing failures with
  | nil => exact settle_cons_resolved
  | cons answer before ih =>
    obtain ⟨name', answer⟩ := answer
    obtain ⟨o, rfl, ho⟩ := h _ List.mem_cons_self
    rw [List.cons_append, settle_cons_unresolved ho]
    exact ih (fun answer ha => h answer (List.mem_cons_of_mem _ ha)) _

/-- Of answers with a value among them a chain makes a value, or the panic of an earlier one. -/
theorem settle_of_value {answer : String × Except Panic (Outcome α)}
    (ha : answers = before ++ answer :: after) (hv : answer.2 = .ok (.resolved value))
    (failures : List (String × Failure)) :
    (∃ value', settle operation subject failures answers = .ok (.resolved value')) ∨
    ∃ earlier ∈ before, ∃ panic, earlier.2 = .error panic ∧
      settle operation subject failures answers = .error panic := by
  subst ha
  induction before generalizing failures with
  | nil =>
    obtain ⟨name, answer⟩ := answer
    obtain rfl : answer = .ok (.resolved value) := hv
    exact Or.inl ⟨value, settle_cons_resolved⟩
  | cons earlier before ih =>
    obtain ⟨name, earlier⟩ := earlier
    rw [List.cons_append]
    cases earlier with
    | error panic => exact Or.inr ⟨_, List.mem_cons_self, panic, rfl, settle_cons_error⟩
    | ok o =>
      rcases o.resolved_or_unresolved with ⟨value', rfl⟩ | ho
      · exact Or.inl ⟨value', settle_cons_resolved⟩
      · rw [settle_cons_unresolved ho]
        rcases ih (noting failures name o) with hvalue | ⟨earlier, he, panic, hp, hs⟩
        · exact Or.inl hvalue
        · exact Or.inr ⟨earlier, List.mem_cons_of_mem _ he, panic, hp, hs⟩

/-- A value is one of the answers. -/
theorem exists_of_settle (h : settle operation subject failures answers = .ok (.resolved value)) :
    ∃ answer ∈ answers, answer.2 = .ok (.resolved value) := by
  induction answers generalizing failures with
  | nil => cases failures <;> cases h
  | cons answer rest ih =>
    obtain ⟨name, answer⟩ := answer
    cases answer with
    | error panic =>
      rw [settle_cons_error] at h
      cases h
    | ok o =>
      rcases o.resolved_or_unresolved with ⟨value', rfl⟩ | ho
      · rw [settle_cons_resolved] at h
        exact ⟨_, List.mem_cons_self, h⟩
      · rw [settle_cons_unresolved ho] at h
        obtain ⟨answer, ha, hv⟩ := ih h
        exact ⟨answer, List.mem_cons_of_mem _ ha, hv⟩

end Answers

section Halves

variable {q : Query α} {w : World σ} {l : List β}

/-- Halves that have no value and leave a world as it is only note their failures. -/
theorem ask_still (half : β → String × Half σ) (o : β → Outcome α)
    (h : ∀ b ∈ l, (half b).2.answer q w = .ok (o b) w) (hu : ∀ b ∈ l, (o b).isResolved = false)
    (failures : List (String × Failure)) (after : List (String × Half σ)) :
    ask q.operation q.subject (·.answer q) failures (l.map half ++ after) w =
      ask q.operation q.subject (·.answer q)
        (failures ++ l.filterMap fun b => (o b).failure?.map ((half b).1, ·)) after w := by
  have hunresolved : ∀ answer ∈ l.map o, answer.isResolved = false := by
    intro answer ha
    obtain ⟨b, hb, rfl⟩ := List.mem_map.1 ha
    exact hu b hb
  rw [ask_of_answers (.of_still half o h) hunresolved, failuresOf_map]

theorem settle_still (name : β → String) (o : β → Outcome α)
    (hu : ∀ b ∈ l, (o b).isResolved = false) (failures : List (String × Failure)) :
    settle q.operation q.subject failures (l.map fun b => (name b, .ok (o b))) =
      settle q.operation q.subject
        (failures ++ l.filterMap fun b => (o b).failure?.map (name b, ·)) [] := by
  induction l generalizing failures with
  | nil => simp
  | cons b rest ih =>
    rw [List.map_cons, settle_cons_unresolved (hu b List.mem_cons_self),
      ih fun b hb => hu b (List.mem_cons_of_mem _ hb), noting, List.append_assoc]
    cases hf : (o b).failure? <;> simp [hf]

/-- Halves that leave their outcomes open have no part in a lookup. -/
theorem ask_unset (half : β → String × Half σ)
    (h : ∀ b ∈ l, (half b).2.answer q w = .ok .unset w) (failures : List (String × Failure)) :
    ask q.operation q.subject (·.answer q) failures (l.map half) w =
      ask q.operation q.subject (·.answer q) failures [] w := by
  induction l with
  | nil => rfl
  | cons b rest ih =>
    rw [List.map_cons, ask_cons, h b List.mem_cons_self]
    exact ih fun b hb => h b (List.mem_cons_of_mem _ hb)

/-- Once all have been asked, there is no value. -/
theorem ask_end (q : Query α) (failures : List (String × Failure)) (w : World σ) :
    ∃ o : Outcome α, ask q.operation q.subject (·.answer q) failures [] w = .ok o w ∧
      settle q.operation q.subject failures [] = .ok o ∧ o.isResolved = false := by
  cases failures with
  | nil => exact ⟨.missing, rfl, rfl, rfl⟩
  | cons f rest => exact ⟨_, rfl, rfl, rfl⟩

end Halves

end Chain
end ArtifactResolver
