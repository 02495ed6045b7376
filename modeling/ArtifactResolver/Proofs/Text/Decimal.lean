import ArtifactResolver.Text.Decimal
import Mathlib.Data.Char
import Mathlib.Tactic.Ring

/-!
# Digits compare like numbers

Of two runs of digits without leading zeros the longer one stands for the greater number, and runs
of one length are ordered like their numbers. So the comparison that looks at the digits alone is
that of the numbers, however long the runs are.
-/

namespace ArtifactResolver.Text

variable {c d : Char} {a b digits : List Char}

/-! ## One digit -/

theorem toNat_of_isDigit (h : isDigit c = true) : '0'.toNat ≤ c.toNat ∧ c.toNat ≤ '9'.toNat := by
  simpa only [isDigit, Bool.and_eq_true, decide_eq_true_eq] using h

theorem digitValue_lt (h : isDigit c = true) : digitValue c < 10 := by
  have hc := toNat_of_isDigit h
  have h9 : '9'.toNat = '0'.toNat + 9 := rfl
  rw [digitValue]
  omega

theorem digitValue_pos (h : isDigit c = true) (h0 : c ≠ '0') : 0 < digitValue c := by
  have hc := toNat_of_isDigit h
  have hne : c.toNat ≠ '0'.toNat := fun heq => h0 (Char.toNat_inj.1 heq)
  rw [digitValue]
  omega

theorem compare_digitValue (hc : isDigit c = true) (hd : isDigit d = true) :
    compare (digitValue c) (digitValue d) = compare c d := by
  have hc0 := (toNat_of_isDigit hc).1
  have hd0 := (toNat_of_isDigit hd).1
  cases h : compare c d with
  | lt =>
    have hlt : c.toNat < d.toNat := UInt32.lt_iff_toNat_lt.1 (compare_lt_iff_lt.1 h)
    rw [Nat.compare_eq_lt, digitValue, digitValue]
    omega
  | eq => rw [compare_eq_iff_eq.1 h, Nat.compare_eq_eq]
  | gt =>
    have hlt : d.toNat < c.toNat := UInt32.lt_iff_toNat_lt.1 (compare_gt_iff_gt.1 h)
    rw [Nat.compare_eq_gt, digitValue, digitValue]
    omega

/-! ## Runs of digits -/

theorem decimalValue_cons (d : Char) (digits : List Char) :
    decimalValue (d :: digits) = digitValue d * 10 ^ digits.length + decimalValue digits := by
  have hfrom : ∀ (digits : List Char) (value : Nat),
      digits.foldl (fun value digit => 10 * value + digitValue digit) value =
        value * 10 ^ digits.length + decimalValue digits := by
    intro digits
    induction digits with
    | nil => simp
    | cons e digits ih =>
      intro value
      rw [decimalValue, List.foldl_cons, List.foldl_cons, ih, ih, List.length_cons, pow_succ]
      ring
  rw [decimalValue, List.foldl_cons, hfrom]
  simp

/-- The first digit of a number counts for more than all that is behind it. -/
theorem mul_add_lt {k m n x : Nat} (h : m < n) (hx : x < k) (y : Nat) :
    m * k + x < n * k + y :=
  calc m * k + x < m * k + k := Nat.add_lt_add_left hx _
    _ = (m + 1) * k := (Nat.succ_mul m k).symm
    _ ≤ n * k := Nat.mul_le_mul_right k h
    _ ≤ n * k + y := Nat.le_add_right _ _

theorem decimalValue_lt (h : ∀ c ∈ digits, isDigit c = true) :
    decimalValue digits < 10 ^ digits.length := by
  induction digits with
  | nil => simp
  | cons d digits ih =>
    rw [List.forall_mem_cons] at h
    rw [decimalValue_cons, List.length_cons, pow_succ, Nat.mul_comm _ 10]
    exact mul_add_lt (digitValue_lt h.1) (ih h.2) 0

theorem le_decimalValue (h : isDigit d = true) (h0 : d ≠ '0') (digits : List Char) :
    10 ^ digits.length ≤ decimalValue (d :: digits) := by
  have hd := digitValue_pos h h0
  rw [decimalValue_cons]
  exact (Nat.le_mul_of_pos_left _ hd).trans (Nat.le_add_right _ _)

theorem compare_mul_add {k m n x y : Nat} (hx : x < k) (hy : y < k) :
    compare (m * k + x) (n * k + y) = (compare m n).then (compare x y) := by
  rcases lt_trichotomy m n with h | rfl | h
  · rw [Nat.compare_eq_lt.2 h, Nat.compare_eq_lt.2 (mul_add_lt h hx y)]
    rfl
  · simp [Nat.compare_eq_ite_lt]
  · rw [Nat.compare_eq_gt.2 h, Nat.compare_eq_gt.2 (mul_add_lt h hy x)]
    rfl

/-- Runs of digits of one length are ordered like their numbers. -/
theorem compare_decimalValue (hlength : a.length = b.length) (ha : ∀ c ∈ a, isDigit c = true)
    (hb : ∀ c ∈ b, isDigit c = true) : compare (decimalValue a) (decimalValue b) = compare a b := by
  induction a generalizing b with
  | nil =>
    rw [List.eq_nil_of_length_eq_zero hlength.symm]
    rfl
  | cons c a ih =>
    cases b with
    | nil => cases hlength
    | cons d b =>
      have hlength : a.length = b.length := Nat.succ.inj hlength
      rw [List.forall_mem_cons] at ha hb
      rw [decimalValue_cons, decimalValue_cons, hlength,
        compare_mul_add (hlength ▸ decimalValue_lt ha.2) (decimalValue_lt hb.2),
        compare_digitValue ha.1 hb.1, ih hlength ha.2 hb.2, List.compare_cons_cons]

/-! ## Leading zeros -/

theorem decimalValue_significant (digits : List Char) :
    decimalValue (significant digits) = decimalValue digits := by
  induction digits with
  | nil => rfl
  | cons d digits ih =>
    by_cases hd : d = '0'
    · rw [hd, decimalValue_zero_cons, ← ih]
      rfl
    · simp [significant, hd]

theorem isDigit_of_mem_significant (h : ∀ c ∈ digits, isDigit c = true) :
    ∀ c ∈ significant digits, isDigit c = true :=
  fun c hc => h c ((List.dropWhile_sublist _).subset hc)

/-- A run of digits without leading zeros stands for a greater number than every shorter one. -/
theorem decimalValue_lt_decimalValue (hlength : a.length < (significant b).length)
    (ha : ∀ c ∈ a, isDigit c = true) (hb : ∀ c ∈ b, isDigit c = true) :
    decimalValue a < decimalValue b := by
  cases hs : significant b with
  | nil =>
    rw [hs] at hlength
    cases hlength
  | cons d rest =>
    have hd0 : d ≠ '0' := by
      have hhead := List.head?_dropWhile_not (· == '0') b
      rw [show b.dropWhile (· == '0') = d :: rest from hs] at hhead
      simpa using hhead
    have hd : isDigit d = true := isDigit_of_mem_significant hb d (hs ▸ List.mem_cons_self)
    rw [hs, List.length_cons] at hlength
    calc decimalValue a < 10 ^ a.length := decimalValue_lt ha
      _ ≤ 10 ^ rest.length := Nat.pow_le_pow_right (by decide) (Nat.le_of_lt_succ hlength)
      _ ≤ decimalValue (d :: rest) := le_decimalValue hd hd0 rest
      _ = decimalValue b := by rw [← hs, decimalValue_significant]

/-- Runs of digits compare like the numbers that they stand for. -/
theorem compareDigits_eq (ha : ∀ c ∈ a, isDigit c = true) (hb : ∀ c ∈ b, isDigit c = true) :
    compareDigits a b = compare (decimalValue a) (decimalValue b) := by
  have ha' := isDigit_of_mem_significant ha
  have hb' := isDigit_of_mem_significant hb
  rw [compareDigits]
  rcases lt_trichotomy (significant a).length (significant b).length with h | h | h
  · have hlt := decimalValue_lt_decimalValue h ha' hb
    rw [decimalValue_significant] at hlt
    rw [Nat.compare_eq_lt.2 h, Nat.compare_eq_lt.2 hlt]
    rfl
  · rw [Nat.compare_eq_eq.2 h, ← compare_decimalValue h ha' hb', decimalValue_significant,
      decimalValue_significant]
    rfl
  · have hlt := decimalValue_lt_decimalValue h hb' ha
    rw [decimalValue_significant] at hlt
    rw [Nat.compare_eq_gt.2 h, Nat.compare_eq_gt.2 hlt]
    rfl

end ArtifactResolver.Text
