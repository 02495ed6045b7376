import ArtifactResolver.Policy
import ArtifactResolver.Proofs.Text.Blank
import ArtifactResolver.Proofs.Text.Decimal

/-!
# Written trust

Trust is written as the word `always`, or as an amount with a unit behind it. Blanks around the text
and the case of its letters do not count. What a text means is said here without reading it; reading
finds that meaning exactly, and refuses a text that has none. A window that would be longer than a
count of seconds can say is cut down to the longest one, so it never wraps around to a short one.
-/

namespace ArtifactResolver.Trust

open Text (isDigit decimalValue decimal? IsTrimmed)

/-- The text without the blanks around it, in lower case. -/
def plain (text : String) : List Char := (Text.trim text.toList).map Char.toLower

/-- Seconds that can be counted: a run of ASCII digits for a number of 64 bits. -/
structure IsAmount (digits : List Char) : Prop where
  ne_nil : digits ≠ []
  all_digits : ∀ c ∈ digits, isDigit c = true
  lt : decimalValue digits < Nat.pow 2 64

/-- What can stand behind an amount, and how many seconds that is. -/
inductive IsUnit : List Char → Nat → Prop
  | absent : IsUnit [] 1
  | second : IsUnit ['s'] 1
  | minute : IsUnit ['m'] 60
  | hour : IsUnit ['h'] 3600
  | day : IsUnit ['d'] 86400

/-- The window of an amount in a unit, cut down to what 64 bits can count. -/
def windowOf (digits : List Char) (perUnit : Nat) : Duration :=
  .ofSeconds (min (decimalValue digits * perUnit) (Nat.pow 2 64 - 1))

/-- What a plain text means. -/
inductive Means : List Char → Trust → Prop
  | always : Means "always".toList always
  | window {digits unit : List Char} {perUnit : Nat} (hd : IsAmount digits)
      (hu : IsUnit unit perUnit) :
      Means (digits ++ unit) (within (windowOf digits perUnit))

variable {text : String} {cs digits digits' unit : List Char} {perUnit : Nat} {t : Trust}

/-! ## Units -/

theorem secondsPer?_eq_some_iff : secondsPer? unit = some perUnit ↔ IsUnit unit perUnit := by
  constructor
  · intro h
    unfold secondsPer? at h
    split at h <;> cases h
    · exact .absent
    · exact .second
    · exact .minute
    · exact .hour
    · exact .day
  · intro h
    cases h <;> rfl

theorem IsUnit.takeWhile_eq (h : IsUnit unit perUnit) : unit.takeWhile isDigit = [] := by
  cases h <;> rfl

theorem IsUnit.dropWhile_eq (h : IsUnit unit perUnit) : unit.dropWhile isDigit = unit := by
  cases h <;> rfl

/-! ## Amounts -/

theorem IsAmount.decimal?_eq (h : IsAmount digits) :
    decimal? digits = some (decimalValue digits) := by
  have hall : digits.all isDigit = true := List.all_eq_true.2 h.all_digits
  simp [decimal?, hall, h.ne_nil]

theorem IsAmount.takeWhile_append (h : IsAmount digits) (hu : IsUnit unit perUnit) :
    (digits ++ unit).takeWhile isDigit = digits := by
  rw [List.takeWhile_append_of_pos h.all_digits, hu.takeWhile_eq, List.append_nil]

theorem IsAmount.dropWhile_append (h : IsAmount digits) (hu : IsUnit unit perUnit) :
    (digits ++ unit).dropWhile isDigit = unit := by
  rw [List.dropWhile_append_of_pos h.all_digits, hu.dropWhile_eq]

theorem eq_of_decimal? {n : Nat} (h : decimal? digits = some n) :
    digits ≠ [] ∧ n = decimalValue digits := by
  unfold decimal? at h
  split at h
  · cases h
  · next hgood =>
    refine ⟨?_, (Option.some.inj h).symm⟩
    rintro rfl
    exact hgood rfl

/-- A text that starts with a digit is no word. -/
theorem IsAmount.append_ne_always (h : IsAmount digits) :
    digits ++ unit ≠ "always".toList := by
  intro heq
  obtain ⟨c, rest, rfl⟩ := List.exists_cons_of_ne_nil h.ne_nil
  obtain rfl : c = 'a' := (List.cons.inj heq).1
  exact absurd (h.all_digits 'a' List.mem_cons_self) (by decide)

/-! ## Reading -/

/-- A plain text is read as what it means. -/
theorem ofTrimmed?_eq_some_iff : ofTrimmed? cs = some t ↔ Means cs t := by
  constructor
  · intro h
    unfold ofTrimmed? at h
    split at h
    · next hword =>
      obtain rfl := Option.some.inj h
      exact hword ▸ .always
    · obtain ⟨amount, hamount, h⟩ := Option.bind_eq_some_iff.1 h
      obtain ⟨perUnit, hunit, h⟩ := Option.bind_eq_some_iff.1 h
      obtain ⟨hne, rfl⟩ := eq_of_decimal? hamount
      split at h
      · next hle =>
        obtain rfl := Option.some.inj h
        have hd : IsAmount (cs.takeWhile isDigit) :=
          ⟨hne, fun c hc => List.mem_takeWhile_imp hc, Nat.lt_of_le_pred (by decide) hle⟩
        have hmeans := Means.window hd (secondsPer?_eq_some_iff.1 hunit)
        rwa [List.takeWhile_append_dropWhile] at hmeans
      · cases h
  · intro h
    cases h with
    | always => rfl
    | window hd hu =>
      have hle : decimalValue _ ≤ maxSeconds := Nat.le_pred_of_lt hd.lt
      simp only [ofTrimmed?, if_neg hd.append_ne_always, hd.takeWhile_append hu,
        hd.dropWhile_append hu, hd.decimal?_eq, secondsPer?_eq_some_iff.2 hu, Option.bind_eq_bind,
        Option.bind_some, if_pos hle]
      rfl

theorem parse_eq_ok_iff : parse text = .ok t ↔ Means (plain text) t := by
  rw [← ofTrimmed?_eq_some_iff, parse, plain]
  cases ofTrimmed? _ <;> simp

theorem parse_eq_error_iff {e : ParseError} : parse text = .error e ↔
    e = .invalidDuration text ∧ ∀ t, ¬ Means (plain text) t := by
  simp only [← ofTrimmed?_eq_some_iff]
  rw [parse, plain]
  cases ofTrimmed? _ <;> simp [eq_comm]

/-! ## Displaying -/

theorem decimalValue_repr (n : Nat) : decimalValue n.repr.toList = n := by
  rw [Nat.toList_repr]
  exact Nat.ofDigitChars_ten_toDigits

theorem isAmount_repr {n : Nat} (h : n < Nat.pow 2 64) : IsAmount n.repr.toList where
  ne_nil := by
    rw [Nat.toList_repr]
    exact Nat.toDigits_ne_nil
  all_digits c hc := by
    rw [Nat.toList_repr] at hc
    have hdigit := Nat.isDigit_of_mem_toDigits (by decide) (by decide) hc
    simpa [Char.isDigit, isDigit, Char.le_def, UInt32.le_iff_toNat_le] using hdigit
  lt := by rwa [decimalValue_repr]

theorem isBlank_of_isDigit {c : Char} (h : isDigit c = true) : Text.isBlank c = false := by
  obtain ⟨hlo, hhi⟩ := Text.toNat_of_isDigit h
  change 48 ≤ c.toNat at hlo
  change c.toNat ≤ 57 at hhi
  simp [Text.isBlank, Text.blankRanges]
  omega

theorem toLower_of_isDigit {c : Char} (h : isDigit c = true) : c.toLower = c := by
  obtain ⟨_, hhi⟩ := Text.toNat_of_isDigit h
  refine dif_neg fun hupper => ?_
  have hA : 'A'.toNat ≤ c.toNat := UInt32.le_iff_toNat_le.1 hupper.1
  exact absurd (hA.trans hhi) (by decide)

/-- A count of seconds is displayed as a plain text. -/
theorem plain_display {n : Nat} (h : n < Nat.pow 2 64) :
    plain (within (.ofSeconds n)).display = n.repr.toList ++ ['s'] := by
  have hd := isAmount_repr h
  obtain ⟨c, rest, hc⟩ := List.exists_cons_of_ne_nil hd.ne_nil
  have htext : (within (.ofSeconds n)).display.toList = n.repr.toList ++ ['s'] := by
    simp [display, Duration.seconds, Duration.ofSeconds, toString]
  have htrimmed : Text.IsTrimmed (n.repr.toList ++ ['s']) := by
    refine ⟨?_, ?_⟩
    · have hblank := isBlank_of_isDigit (hd.all_digits c (hc ▸ List.mem_cons_self))
      simp [hc, hblank]
    · simp
      decide
  have hlower : n.repr.toList.map Char.toLower = n.repr.toList :=
    (List.map_congr_left fun c hc => toLower_of_isDigit (hd.all_digits c hc)).trans (List.map_id _)
  rw [plain, htext, Text.trim_of_isTrimmed htrimmed, List.map_append, hlower]
  rfl

theorem windowOf_repr {n : Nat} (h : n < Nat.pow 2 64) : windowOf n.repr.toList 1 = .ofSeconds n := by
  rw [windowOf, decimalValue_repr, Nat.mul_one, Nat.min_eq_left (Nat.le_sub_one_of_lt h)]

/-- Whatever a text can mean is displayed as a text that means it. -/
theorem Means.parse_display (h : Means cs t) : parse t.display = .ok t := by
  cases h with
  | always => rfl
  | @window digits unit perUnit hd hu =>
    have hn : min (decimalValue digits * perUnit) (Nat.pow 2 64 - 1) < Nat.pow 2 64 :=
      Nat.lt_of_le_pred (by decide) (Nat.min_le_right _ _)
    have hmeans := Means.window (isAmount_repr hn) .second
    rw [windowOf_repr hn] at hmeans
    exact parse_eq_ok_iff.2 (plain_display hn ▸ hmeans)

/-! ## Amounts in one unit -/

theorem windowOf_mono (h : decimalValue digits ≤ decimalValue digits') (perUnit : Nat) :
    (windowOf digits perUnit).millis ≤ (windowOf digits' perUnit).millis :=
  Nat.mul_le_mul_right 1000 (min_le_min_right _ (Nat.mul_le_mul_right perUnit h))

/-- A text is read as trust exactly if, without the blanks around it and in lower case, it is the
word or an amount with a unit; a text that is refused is reported as it was given. What was read is
read again from its displayed form, and of two amounts in one unit the greater one has no shorter
window. -/
theorem read_exactly (text : String) :
    ((∃ before after, text.toList = before ++ Text.trim text.toList ++ after ∧
      before.all Text.isBlank = true ∧ after.all Text.isBlank = true) ∧
      IsTrimmed (Text.trim text.toList)) ∧
    (∀ t, parse text = .ok t ↔ Means (plain text) t) ∧
    (∀ e, parse text = .error e ↔ e = .invalidDuration text ∧ ∀ t, ¬ Means (plain text) t) ∧
    (∀ t, parse text = .ok t → parse t.display = .ok t) ∧
    ∀ other digits digits' unit unit' perUnit, IsUnit unit perUnit → IsUnit unit' perUnit →
      IsAmount digits → IsAmount digits' → plain text = digits ++ unit →
      plain other = digits' ++ unit' →
      decimalValue digits ≤ decimalValue digits' →
      ∃ window window', parse text = .ok (within window) ∧ parse other = .ok (within window') ∧
        window.millis ≤ window'.millis := by
  refine ⟨⟨Text.exists_eq_trim _, Text.isTrimmed_trim _⟩, fun _ => parse_eq_ok_iff,
    fun _ => parse_eq_error_iff, fun t h => (parse_eq_ok_iff.1 h).parse_display, ?_⟩
  intro other digits digits' unit unit' perUnit hu hu' hd hd' htext hother hle
  refine ⟨windowOf digits perUnit, windowOf digits' perUnit, ?_, ?_, windowOf_mono hle perUnit⟩
  · exact parse_eq_ok_iff.2 (htext ▸ .window hd hu)
  · exact parse_eq_ok_iff.2 (hother ▸ .window hd' hu')

/-- A window that is too long is cut down, so of two such windows neither is shorter. An amount that
64 bits cannot count means nothing, in whatever unit. -/
theorem read_around_limit :
    parse "\u00a018446744073709551615D\n" = .ok (within (.ofSeconds 18446744073709551615)) ∧
    (∀ t, ¬ Means (plain "18446744073709551616") t) ∧
    ∃ window window', parse "18446744073709551614d" = .ok (within window) ∧
      parse "18446744073709551615D" = .ok (within window') ∧ window.millis ≤ window'.millis := by
  have hd : IsAmount "18446744073709551614".toList :=
    ⟨by decide, List.all_eq_true.1 (by decide), by decide⟩
  have hd' : IsAmount "18446744073709551615".toList :=
    ⟨by decide, List.all_eq_true.1 (by decide), by decide⟩
  have hwindow : windowOf "18446744073709551615".toList 86400 = .ofSeconds 18446744073709551615 :=
    by decide
  obtain ⟨_, hblanks, _⟩ := read_exactly "\u00a018446744073709551615D\n"
  obtain ⟨_, _, hrefused, _⟩ := read_exactly "18446744073709551616"
  obtain ⟨_, _, _, _, hmono⟩ := read_exactly "18446744073709551614d"
  refine ⟨(hblanks _).2 (hwindow ▸ Means.window hd' .day), ?_, ?_⟩
  · exact ((hrefused (.invalidDuration "18446744073709551616")).1 (by decide +kernel)).2
  · exact hmono "18446744073709551615D" _ _ _ _ _ .day .day hd hd' rfl rfl (by decide)

end ArtifactResolver.Trust
