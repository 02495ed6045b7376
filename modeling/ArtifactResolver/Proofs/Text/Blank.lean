import ArtifactResolver.Text.Blank
import Mathlib.Data.List.TakeWhile

/-!
# Trimmed texts

Trimming takes blanks away at both ends and nothing else, so what is left is what neither starts nor
ends with a blank.
-/

namespace ArtifactResolver.Text

variable {c : Char} {cs : List Char}

/-- The text neither starts nor ends with a blank. -/
def IsTrimmed (cs : List Char) : Prop :=
  cs.head?.all (!isBlank ·) = true ∧ cs.getLast?.all (!isBlank ·) = true

instance (cs : List Char) : Decidable (IsTrimmed cs) := inferInstanceAs (Decidable (_ ∧ _))

theorem dropWhile_eq_self_of_head? {p : Char → Bool} (h : cs.head?.all (!p ·) = true) :
    cs.dropWhile p = cs := by
  cases cs with
  | nil => rfl
  | cons c cs =>
    have hc : p c = false := by simpa using h
    rw [List.dropWhile_cons, hc]
    rfl

theorem head?_dropWhile (p : Char → Bool) (cs : List Char) :
    (cs.dropWhile p).head?.all (!p ·) = true := by
  have h := List.head?_dropWhile_not p cs
  cases hhead : (cs.dropWhile p).head? with
  | none => rfl
  | some c =>
    rw [hhead] at h
    simpa using h

theorem trim_of_isTrimmed (h : IsTrimmed cs) : trim cs = cs := by
  obtain ⟨hhead, hlast⟩ := h
  rw [← List.head?_reverse] at hlast
  unfold trim trimStart trimEnd
  rw [dropWhile_eq_self_of_head? hhead, dropWhile_eq_self_of_head? hlast, List.reverse_reverse]

theorem isTrimmed_trim (cs : List Char) : IsTrimmed (trim cs) := by
  have hlast : (trim cs).getLast?.all (!isBlank ·) = true := by
    unfold trim trimEnd
    rw [List.getLast?_reverse]
    exact head?_dropWhile _ _
  refine ⟨?_, hlast⟩
  -- what is taken away at the end leaves the first character, if it leaves anything
  obtain ⟨after, hafter⟩ : trim cs <+: trimStart cs := by
    unfold trim trimEnd
    have hsuffix := List.dropWhile_suffix (l := (trimStart cs).reverse) isBlank
    simpa using List.reverse_prefix.2 hsuffix
  have hstart : (trimStart cs).head?.all (!isBlank ·) = true := head?_dropWhile _ _
  rw [← hafter] at hstart
  cases htrim : trim cs with
  | nil => rfl
  | cons c rest =>
    rw [htrim] at hstart
    exact hstart

/-- What is taken away is blank. -/
theorem exists_eq_trim (cs : List Char) : ∃ before after, cs = before ++ trim cs ++ after ∧
    before.all isBlank = true ∧ after.all isBlank = true := by
  have hstart := List.takeWhile_append_dropWhile (p := isBlank) (l := cs)
  have hend := List.takeWhile_append_dropWhile (p := isBlank) (l := (trimStart cs).reverse)
  have hrest : trimStart cs = trim cs ++ ((trimStart cs).reverse.takeWhile isBlank).reverse := by
    rw [← List.reverse_inj, ← hend, trim, trimEnd]
    simp
  refine ⟨cs.takeWhile isBlank, ((trimStart cs).reverse.takeWhile isBlank).reverse, ?_, ?_, ?_⟩
  · rw [List.append_assoc, ← hrest]
    exact hstart.symm
  · exact List.all_takeWhile
  · rw [List.all_reverse]
    exact List.all_takeWhile

theorem mem_of_mem_trim (h : c ∈ trim cs) : c ∈ cs := by
  unfold trim trimEnd trimStart at h
  exact (List.dropWhile_sublist _).subset (List.mem_reverse.1
    ((List.dropWhile_sublist _).subset (List.mem_reverse.1 h)))

/-- A text with a character that is not blank does not vanish. -/
theorem trim_ne_nil (hc : c ∈ cs) (hblank : isBlank c = false) : trim cs ≠ [] := by
  have hstart : c ∈ trimStart cs := by
    unfold trimStart
    rw [← List.takeWhile_append_dropWhile (p := isBlank) (l := cs)] at hc
    rcases List.mem_append.1 hc with hc | hc
    · rw [List.mem_takeWhile_imp hc] at hblank
      cases hblank
    · exact hc
  intro hnil
  unfold trim trimEnd at hnil
  rw [List.reverse_eq_nil_iff, List.dropWhile_eq_nil_iff] at hnil
  rw [hnil c (List.mem_reverse.2 hstart)] at hblank
  cases hblank

end ArtifactResolver.Text
