import ArtifactResolver.Proofs.Version.Order

/-!
# Versions that extend a version

Text behind a version adds parts to it unless it goes on with the last one. The first part that is
added decides how the longer version compares to the one that it extends, as there is nothing but an
end for it to be compared to: a word makes it less and a number makes it greater. Separators alone
add no part, but the longer text is the greater one.
-/

namespace ArtifactResolver.Version

variable {c : Char} {cs : List Char} {v : Version} {s : String} {part : Part}

/-- A character of a word. -/
def isLetter (c : Char) : Bool := !isSeparator c && !Text.isDigit c

theorem isLetter_iff : isLetter c = true ↔ isSeparator c = false ∧ Text.isDigit c = false := by
  simp [isLetter]

theorem isSeparator_of_isDigit (h : Text.isDigit c = true) : isSeparator c = false := by
  have hc := Text.toNat_of_isDigit h
  cases hs : isSeparator c with
  | false => rfl
  | true =>
    simp only [isSeparator, Bool.or_eq_true, beq_iff_eq] at hs
    rcases hs with ((rfl | rfl) | rfl) | rfl <;> cases h

/-- The version with more text behind it. -/
def extend (v : Version) (s : String) : Version := ⟨v.text ++ s⟩

/-! ## Added parts -/

theorem Part.compare_self (part : Part) : compare part part = .eq := by
  cases part with
  | number digits =>
    show Text.compareDigits digits digits = .eq
    rw [Text.compareDigits, Std.ReflOrd.compare_self, Std.ReflOrd.compare_self]
    rfl
  | word letters => exact Std.ReflOrd.compare_self (a := letters)

/-- The first part that one sequence has more than the other decides. -/
theorem compareParts_append (as : List Part) (part : Part) (parts : List Part) :
    compareParts (as ++ part :: parts) as = if part.isNumber then .gt else .lt := by
  induction as with
  | nil => rfl
  | cons a as ih =>
    rw [List.cons_append, compareParts, Part.compare_self, ih]
    rfl

theorem compare_of_part {w : Version} {parts : List Part}
    (h : w.parts = v.parts ++ part :: parts) :
    compare w v = if part.isNumber then .gt else .lt := by
  show (compareParts w.parts v.parts).then (compare w.text v.text) = _
  rw [h, compareParts_append]
  split <;> rfl

theorem compare_extend_of_no_part (hs : s ≠ "") (h : (v.extend s).parts = v.parts) :
    compare (v.extend s) v = .gt := by
  have hself : compareParts v.parts v.parts = .eq := by
    rw [compareParts_eq v.isRun_of_mem_parts v.isRun_of_mem_parts]
    exact Std.ReflOrd.compare_self
  obtain ⟨d, ds, hd⟩ := List.exists_cons_of_ne_nil (String.toList_eq_nil_iff.not.2 hs)
  show (compareParts (v.extend s).parts v.parts).then (compare (v.text ++ s) v.text) = .gt
  rw [h, hself, ← Text.compare_toList, String.toList_append, hd]
  have htexts := Text.compare_append v.text.toList (d :: ds) []
  rw [List.append_nil] at htexts
  exact htexts

/-! ## Where a text can be cut -/

/-- A separator ends the version in front of it. -/
theorem parts_extend_of_separator (h : s.toList.head?.any isSeparator = true) :
    (v.extend s).parts = v.parts ++ partsOf s.toList := by
  rw [extend, parts, String.toList_append]
  refine partsOf_append fun part _ c hc htakes => ?_
  rw [Option.mem_def.1 hc, Option.any_some, htakes.1] at h
  cases h

/-- A letter does so behind a digit, behind a separator, and where there is no version yet. -/
theorem parts_extend_of_letter (h : s.toList.head?.any isLetter = true)
    (hv : v.text.toList.getLast?.all (!isLetter ·) = true) :
    (v.extend s).parts = v.parts ++ partsOf s.toList := by
  rw [extend, parts, String.toList_append]
  refine partsOf_append fun part hcurrent c hc htakes => ?_
  rw [Option.mem_def.1 hc, Option.any_some, isLetter_iff] at h
  rcases List.eq_nil_or_concat' v.text.toList with hnil | ⟨before, d, hd⟩
  · rw [hnil] at hcurrent
    cases hcurrent
  · rw [hd, List.foldl_append, List.foldl_cons, List.foldl_nil] at hcurrent
    -- the part that is being read is a word, as it goes on with a letter
    have hlast : part.Takes d := Reading.takes_of_step hcurrent
    have hletter : isLetter d = true :=
      isLetter_iff.2 ⟨hlast.1, hlast.2.trans (htakes.2.symm.trans h.2)⟩
    rw [hd, List.getLast?_concat, Option.all_some, hletter] at hv
    cases hv

/-! ## The first part of a text -/

theorem partsOf_of_separators (h : cs.all isSeparator = true) : partsOf cs = [] := by
  induction cs with
  | nil => rfl
  | cons c cs ih =>
    rw [List.all_cons, Bool.and_eq_true] at h
    rw [partsOf_of_separator h.1, ih h.2]

theorem head?_partsOf (hc : cs.head? = some c) (hs : isSeparator c = false) :
    ∃ part, (partsOf cs).head? = some part ∧ part.isNumber = Text.isDigit c := by
  obtain ⟨part, rest, hparts, htakes⟩ := (runs_partsOf cs).exists_part hc hs
  exact ⟨part, by rw [hparts, List.head?_cons], htakes.2.symm⟩

/-- The first part of the text that is added decides. -/
theorem compare_extend_of_head (hparts : (v.extend s).parts = v.parts ++ partsOf s.toList)
    (h : (partsOf s.toList).head? = some part) :
    compare (v.extend s) v = if part.isNumber then .gt else .lt := by
  obtain ⟨rest, hrest⟩ := List.head?_eq_some_iff.1 h
  rw [hrest] at hparts
  exact compare_of_part hparts

/-- Behind a separator, a letter makes a version less and a digit makes it greater. -/
theorem compare_extend_separated {separator : String} {d : Char}
    (hseparator : separator.toList = [d]) (hd : isSeparator d = true)
    (hc : s.toList.head? = some c) (hs : isSeparator c = false) (v : Version) :
    compare (v.extend (separator ++ s)) v = if Text.isDigit c then .gt else .lt := by
  have hlist : (separator ++ s).toList = d :: s.toList := by
    rw [String.toList_append, hseparator, List.singleton_append]
  obtain ⟨part, hpart, hkind⟩ := head?_partsOf hc hs
  rw [← partsOf_of_separator hd, ← hlist] at hpart
  rw [compare_extend_of_head (parts_extend_of_separator (by simp [hlist, hd])) hpart, hkind]

/-- Behind a separator, text makes a version less if its first part is a word, and greater if that
is a number or if there is none. A letter makes a version less also without a separator in front of
it, unless the version ends in a letter. -/
theorem compare_extend (v : Version) (s : String) :
    (s.toList.head?.any isSeparator = true →
      (∀ letters, (partsOf s.toList).head? = some (.word letters) →
        compare (v.extend s) v = .lt) ∧
      (∀ digits, (partsOf s.toList).head? = some (.number digits) →
        compare (v.extend s) v = .gt) ∧
      (s.toList.all isSeparator = true → compare (v.extend s) v = .gt)) ∧
    (s.toList.head?.any isLetter = true →
      (v.text.toList.getLast?.all (!isLetter ·) = true → compare (v.extend s) v = .lt) ∧
      compare (v.extend ("-" ++ s)) v = .lt) ∧
    (s ≠ "" → s.toList.all Text.isDigit = true → compare v (v.extend ("." ++ s)) = .lt) := by
  refine ⟨fun hs => ⟨fun letters h => ?_, fun digits h => ?_, fun h => ?_⟩,
    fun hs => ⟨fun hv => ?_, ?_⟩, fun hs h => ?_⟩
  · exact compare_extend_of_head (parts_extend_of_separator hs) h
  · exact compare_extend_of_head (parts_extend_of_separator hs) h
  · have hne : s ≠ "" := by
      rintro rfl
      cases hs
    refine compare_extend_of_no_part hne ?_
    rw [parts_extend_of_separator hs, partsOf_of_separators h, List.append_nil]
  · obtain ⟨c, hc, hletter⟩ := (Option.any_eq_true _ _).1 hs
    obtain ⟨part, hpart, hkind⟩ := head?_partsOf hc (isLetter_iff.1 hletter).1
    rw [compare_extend_of_head (parts_extend_of_letter hs hv) hpart, hkind,
      (isLetter_iff.1 hletter).2]
    rfl
  · obtain ⟨c, hc, hletter⟩ := (Option.any_eq_true _ _).1 hs
    rw [compare_extend_separated (d := '-') rfl rfl hc (isLetter_iff.1 hletter).1,
      (isLetter_iff.1 hletter).2]
    rfl
  · obtain ⟨c, cs, hc⟩ := List.exists_cons_of_ne_nil (String.toList_eq_nil_iff.not.2 hs)
    have hdigit : Text.isDigit c = true := List.all_eq_true.1 h c (hc ▸ List.mem_cons_self)
    rw [Std.OrientedOrd.eq_swap, compare_extend_separated (d := '.') rfl rfl
      (by rw [hc, List.head?_cons]) (isSeparator_of_isDigit hdigit), hdigit]
    rfl

/-- A release candidate is less than its release, and a version with another number is greater, even
if that is zero. -/
theorem extended_one_zero :
    compare (extend ⟨"1.0"⟩ "-rc1") ⟨"1.0"⟩ = .lt ∧ compare (extend ⟨"1.0"⟩ "_00") ⟨"1.0"⟩ = .gt ∧
      compare (extend ⟨"1.0"⟩ "+-") ⟨"1.0"⟩ = .gt ∧ compare (extend ⟨"1.0"⟩ "rc1") ⟨"1.0"⟩ = .lt ∧
      compare ⟨"1.0"⟩ (extend ⟨"1.0"⟩ ".00") = .lt := by
  obtain ⟨hword, _, _⟩ := compare_extend ⟨"1.0"⟩ "-rc1"
  obtain ⟨hnumber, _, _⟩ := compare_extend ⟨"1.0"⟩ "_00"
  obtain ⟨hnone, _, _⟩ := compare_extend ⟨"1.0"⟩ "+-"
  obtain ⟨_, hletter, _⟩ := compare_extend ⟨"1.0"⟩ "rc1"
  obtain ⟨_, _, hdigits⟩ := compare_extend ⟨"1.0"⟩ "00"
  exact ⟨(hword (by decide)).1 ['r', 'c'] (by decide),
    (hnumber (by decide)).2.1 ['0', '0'] (by decide), (hnone (by decide)).2.2 (by decide),
    (hletter (by decide)).1 (by decide), hdigits (by decide) (by decide)⟩

end ArtifactResolver.Version
