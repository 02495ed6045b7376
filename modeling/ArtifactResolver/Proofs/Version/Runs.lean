import ArtifactResolver.Version

/-!
# The parts of a version are its maximal runs

A version is read one character at a time. What this comes to is said without reading anything: the
text is its parts in their order with separators between them, and no part can be extended by the
character behind it. There is one such sequence of parts for every text, and reading finds it. Where
a text is cut between two characters that belong to no common part, both pieces can be read on their
own.
-/

namespace ArtifactResolver.Version

variable {c : Char} {cs ds : List Char} {part : Part} {parts : List Part} {r : Reading}

namespace Part

/-- Whether a character can stand in the part. -/
def Takes (part : Part) (c : Char) : Prop :=
  isSeparator c = false ∧ Text.isDigit c = part.isNumber

/-- The part has characters, and each of them can stand in it. -/
structure IsRun (part : Part) : Prop where
  chars_ne_nil : part.chars ≠ []
  takes : ∀ c ∈ part.chars, part.Takes c

@[simp] theorem chars_start (c : Char) : (start c).chars = [c] := by
  rw [start]
  split <;> rfl

@[simp] theorem isNumber_start (c : Char) : (start c).isNumber = Text.isDigit c := by
  rw [start]
  split <;> simp_all [isNumber]

@[simp] theorem chars_push (c : Char) (part : Part) : (part.push c).chars = part.chars ++ [c] := by
  cases part <;> rfl

@[simp] theorem isNumber_push (c : Char) (part : Part) :
    (part.push c).isNumber = part.isNumber := by
  cases part <;> rfl

theorem eq_of_chars {part whole : Part} (h : whole.chars = part.chars)
    (hkind : whole.isNumber = part.isNumber) : whole = part := by
  cases whole <;> cases part <;> simp_all [chars, isNumber]

theorem isRun_start (h : isSeparator c = false) : (start c).IsRun where
  chars_ne_nil := by simp
  takes d hd := by
    rw [chars_start, List.mem_singleton] at hd
    subst hd
    exact ⟨h, (isNumber_start d).symm⟩

theorem IsRun.push (h : part.IsRun) (hc : part.Takes c) : (part.push c).IsRun where
  chars_ne_nil := by simp
  takes d hd := by
    rw [chars_push, List.mem_append, List.mem_singleton] at hd
    rw [Takes, isNumber_push]
    rcases hd with hd | rfl
    · exact h.takes d hd
    · exact hc

end Part

/-- The text consists of the parts, from left to right, with separators before, between and behind
them, and each part is a run that the character behind it does not extend. -/
inductive Runs : List Char → List Part → Prop where
  | nil : Runs [] []
  | separator {c : Char} {cs : List Char} {parts : List Part} :
    isSeparator c = true → Runs cs parts → Runs (c :: cs) parts
  | run {part : Part} {cs : List Char} {parts : List Part} :
    part.IsRun → (∀ c ∈ cs.head?, ¬ part.Takes c) → Runs cs parts →
    Runs (part.chars ++ cs) (part :: parts)

/-! ## One character -/

namespace Reading

theorem step_of_separator (h : isSeparator c = true) : r.step c = r.close := by
  rw [step, if_pos h]

theorem step_of_none (h : isSeparator c = false) (hr : r.current = none) :
    r.step c = { r with current := some (.start c) } := by
  rw [step, if_neg (by simp [h]), hr]

theorem step_of_takes (hr : r.current = some part) (h : part.Takes c) :
    r.step c = { r with current := some (part.push c) } := by
  rw [step, if_neg (by simp [h.1]), hr]
  exact if_pos h.2

theorem step_of_not_takes (hc : isSeparator c = false) (hr : r.current = some part)
    (h : ¬ part.Takes c) : r.step c = { r.close with current := some (.start c) } := by
  rw [step, if_neg (by simp [hc]), hr]
  exact if_neg fun hd => h ⟨hc, hd⟩

/-- Parts that are complete have no say in what becomes of a character. -/
theorem step_eq (r : Reading) (c : Char) :
    r.step c = ⟨r.parts ++ (step { current := r.current } c).parts,
      (step { current := r.current } c).current⟩ := by
  obtain ⟨parts, current⟩ := r
  unfold step close
  cases current with
  | none => split <;> simp
  | some part =>
    split
    · simp
    · dsimp only
      split <;> simp

/-- The part that is being read holds the last character. -/
theorem takes_of_step (h : (r.step c).current = some part) : part.Takes c := by
  unfold step at h
  split at h
  · cases h
  next hc =>
    have hc : isSeparator c = false := by simpa using hc
    have hstart : (Part.start c).Takes c := ⟨hc, (Part.isNumber_start c).symm⟩
    split at h
    · exact Option.some.inj h ▸ hstart
    next before _ =>
      split at h
      next hd => exact Option.some.inj h ▸ ⟨hc, hd.trans (Part.isNumber_push c before).symm⟩
      next => exact Option.some.inj h ▸ hstart

end Reading

/-! ## Texts -/

/-- The parts that are found from a part on that is being read. -/
def partsFrom (current : Option Part) (cs : List Char) : List Part :=
  (cs.foldl Reading.step { current }).close.parts

theorem partsFrom_none (cs : List Char) : partsFrom none cs = partsOf cs := rfl

theorem close_foldl (r : Reading) (cs : List Char) :
    (cs.foldl Reading.step r).close.parts = r.parts ++ partsFrom r.current cs := by
  induction cs generalizing r with
  | nil => rfl
  | cons c cs ih =>
    rw [partsFrom, List.foldl_cons, List.foldl_cons, ih, ih, r.step_eq c, List.append_assoc]

theorem partsFrom_cons (current : Option Part) (c : Char) (cs : List Char) :
    partsFrom current (c :: cs) = (Reading.step { current } c).parts ++
      partsFrom (Reading.step { current } c).current cs := by
  rw [partsFrom, List.foldl_cons, close_foldl]

theorem partsFrom_of_separator (h : isSeparator c = true) (current : Option Part)
    (cs : List Char) : partsFrom current (c :: cs) = current.toList ++ partsOf cs := by
  rw [partsFrom_cons, Reading.step_of_separator h]
  rfl

theorem partsOf_of_separator (h : isSeparator c = true) (cs : List Char) :
    partsOf (c :: cs) = partsOf cs := partsFrom_of_separator h none cs

theorem partsOf_cons (h : isSeparator c = false) (cs : List Char) :
    partsOf (c :: cs) = partsFrom (some (.start c)) cs := by
  rw [← partsFrom_none, partsFrom_cons, Reading.step_of_none h rfl]
  rfl

theorem partsFrom_of_takes (h : part.Takes c) (cs : List Char) :
    partsFrom (some part) (c :: cs) = partsFrom (some (part.push c)) cs := by
  rw [partsFrom_cons, Reading.step_of_takes rfl h]
  rfl

/-- A part that does not hold the next character is complete. -/
theorem partsFrom_of_not_takes (h : ∀ c ∈ cs.head?, ¬ part.Takes c) :
    partsFrom (some part) cs = part :: partsOf cs := by
  cases cs with
  | nil => rfl
  | cons c cs =>
    have hc : ¬ part.Takes c := h c rfl
    cases hs : isSeparator c with
    | true => rw [partsFrom_of_separator hs, partsOf_of_separator hs]; rfl
    | false =>
      rw [partsOf_cons hs, partsFrom_cons, Reading.step_of_not_takes hs rfl hc]
      rfl

/-- Where no part goes on, the parts of the text are those of its two pieces. -/
theorem partsOf_append
    (h : ∀ part, (cs.foldl Reading.step {}).current = some part →
      ∀ c ∈ ds.head?, ¬ part.Takes c) :
    partsOf (cs ++ ds) = partsOf cs ++ partsOf ds := by
  rw [partsOf, List.foldl_append, close_foldl, partsOf, Reading.close]
  cases hcurrent : (cs.foldl Reading.step {}).current with
  | none => rw [partsFrom_none]; simp
  | some part => rw [partsFrom_of_not_takes (h part hcurrent)]; simp

/-! ## Maximal runs -/

/-- Reading finds maximal runs, also from a run on that is being read. -/
theorem runs_partsFrom (cs : List Char) : Runs cs (partsOf cs) ∧
    ∀ part : Part, part.IsRun → Runs (part.chars ++ cs) (partsFrom (some part) cs) := by
  induction cs with
  | nil => exact ⟨.nil, fun part hpart => .run hpart (by simp) .nil⟩
  | cons c cs ih =>
    have hfirst : Runs (c :: cs) (partsOf (c :: cs)) := by
      cases hs : isSeparator c with
      | true =>
        rw [partsOf_of_separator hs]
        exact .separator hs ih.1
      | false =>
        rw [partsOf_cons hs]
        simpa using ih.2 (.start c) (Part.isRun_start hs)
    refine ⟨hfirst, fun part hpart => ?_⟩
    by_cases hc : part.Takes c
    · rw [partsFrom_of_takes hc]
      simpa using ih.2 (part.push c) (hpart.push hc)
    · have hhead : ∀ d ∈ (c :: cs).head?, ¬ part.Takes d := by simpa using hc
      rw [partsFrom_of_not_takes hhead]
      exact .run hpart hhead hfirst

/-- The characters of a run that has begun are read without an end of the part. -/
theorem partsFrom_append {whole : Part} (h : ∀ c ∈ ds, whole.Takes c)
    (hchars : whole.chars = part.chars ++ ds) (hkind : whole.isNumber = part.isNumber)
    (cs : List Char) : partsFrom (some part) (ds ++ cs) = partsFrom (some whole) cs := by
  induction ds generalizing part with
  | nil =>
    rw [List.append_nil] at hchars
    rw [Part.eq_of_chars hchars hkind, List.nil_append]
  | cons d ds ih =>
    rw [List.forall_mem_cons] at h
    have hd : part.Takes d := ⟨h.1.1, h.1.2.trans hkind⟩
    rw [List.cons_append, partsFrom_of_takes hd]
    exact ih h.2 (by simp [hchars]) (by rw [hkind, Part.isNumber_push])

/-- A maximal run in front of a text is its first part. -/
theorem partsOf_run (h : part.IsRun) (hend : ∀ c ∈ cs.head?, ¬ part.Takes c) :
    partsOf (part.chars ++ cs) = part :: partsOf cs := by
  obtain ⟨c, rest, hchars⟩ := List.exists_cons_of_ne_nil h.chars_ne_nil
  have htakes := h.takes
  rw [hchars, List.forall_mem_cons] at htakes
  have hkind : part.isNumber = (Part.start c).isNumber := by
    rw [Part.isNumber_start]
    exact htakes.1.2.symm
  rw [hchars, List.cons_append, partsOf_cons htakes.1.1,
    partsFrom_append htakes.2 (by simp [hchars]) hkind, partsFrom_of_not_takes hend]

theorem Runs.partsOf_eq (h : Runs cs parts) : partsOf cs = parts := by
  induction h with
  | nil => rfl
  | separator hc _ ih => rw [partsOf_of_separator hc, ih]
  | run hpart hend _ ih => rw [partsOf_run hpart hend, ih]

/-- Every text has one sequence of maximal runs, and reading finds it. -/
theorem runs_iff : Runs cs parts ↔ parts = partsOf cs :=
  ⟨fun h => h.partsOf_eq.symm, fun h => h ▸ (runs_partsFrom cs).1⟩

theorem runs_partsOf (cs : List Char) : Runs cs (partsOf cs) := runs_iff.2 rfl

theorem Runs.isRun (h : Runs cs parts) : ∀ part ∈ parts, part.IsRun := by
  induction h with
  | nil => simp
  | separator _ _ ih => exact ih
  | run hpart _ _ ih => exact List.forall_mem_cons.2 ⟨hpart, ih⟩

/-- A text that does not start with a separator starts with a part. -/
theorem Runs.exists_part (h : Runs cs parts) (hc : cs.head? = some c)
    (hs : isSeparator c = false) : ∃ part rest, parts = part :: rest ∧ part.Takes c := by
  cases h with
  | nil => cases hc
  | separator hd _ =>
    rw [Option.some.inj hc, hs] at hd
    cases hd
  | @run part _ rest hpart _ _ =>
    obtain ⟨d, ds, hchars⟩ := List.exists_cons_of_ne_nil hpart.chars_ne_nil
    rw [hchars] at hc
    obtain rfl := Option.some.inj hc
    exact ⟨part, rest, rfl, hpart.takes d (hchars ▸ List.mem_cons_self)⟩

/-- No character is lost but the separators. -/
theorem Runs.flatMap_chars (h : Runs cs parts) :
    parts.flatMap Part.chars = cs.filter (!isSeparator ·) := by
  induction h with
  | nil => rfl
  | separator hc _ ih => simp [ih, hc]
  | @run part _ _ hpart _ _ ih =>
    have hkept : part.chars.filter (!isSeparator ·) = part.chars :=
      List.filter_eq_self.2 fun c hc => by simp [(hpart.takes c hc).1]
    rw [List.flatMap_cons, List.filter_append, hkept, ih]

end ArtifactResolver.Version
