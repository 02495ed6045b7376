import ArtifactResolver.Text.Hex

/-!
# Reading back what was encoded

Every character is encoded to one to four bytes, which are told apart by the first of them. Decoding
them gives the character back, and goes on with what is behind them. A byte is written with two
digits, which make up the byte again.
-/

namespace ArtifactResolver.Text

/-! ## Characters -/

section Sequences

variable {a b c d : UInt8}

theorem decodeFrom_one (h : a < 0x80) (index : Nat) (rest : Bytes) :
    decodeFrom index (a :: rest) =
      (decodeFrom (index + 1) rest).map (Char.ofNat a.toNat :: ·) := by
  rw [decodeFrom.eq_def]
  simp only [h, if_true]

theorem decodeFrom_two (h : 0xC2 ≤ a ∧ a ≤ 0xDF) (hb : isContinuation b = true)
    (index : Nat) (rest : Bytes) :
    decodeFrom index (a :: b :: rest) =
      (decodeFrom (index + 2) rest).map (charOfBits (a.toNat % 32) [b] :: ·) := by
  have h₁ : ¬ a < 0x80 := by grind
  rw [decodeFrom.eq_def]
  simp [h₁, h, hb]

theorem decodeFrom_three (h : 0xE0 ≤ a ∧ a ≤ 0xEF) (hb : startsThree a b = true)
    (hc : isContinuation c = true) (index : Nat) (rest : Bytes) :
    decodeFrom index (a :: b :: c :: rest) =
      (decodeFrom (index + 3) rest).map (charOfBits (a.toNat % 16) [b, c] :: ·) := by
  have h₁ : ¬ a < 0x80 := by grind
  have h₂ : ¬ a ≤ 0xDF := by grind
  rw [decodeFrom.eq_def]
  simp [h₁, h₂, h, hb, hc]

theorem decodeFrom_four (h : 0xF0 ≤ a ∧ a ≤ 0xF4) (hb : startsFour a b = true)
    (hc : isContinuation c = true) (hd : isContinuation d = true) (index : Nat) (rest : Bytes) :
    decodeFrom index (a :: b :: c :: d :: rest) =
      (decodeFrom (index + 4) rest).map (charOfBits (a.toNat % 8) [b, c, d] :: ·) := by
  have h₁ : ¬ a < 0x80 := by grind
  have h₂ : ¬ a ≤ 0xDF := by grind
  have h₃ : ¬ a ≤ 0xEF := by grind
  rw [decodeFrom.eq_def]
  simp [h₁, h₂, h₃, h, hb, hc, hd]

end Sequences

section Characters

variable {n : Nat}

/-- The value of a byte that was made from a number. -/
theorem toNat_ofNat_of_lt (h : n < 256) : (UInt8.ofNat n).toNat = n := by
  rw [UInt8.toNat_ofNat']
  omega

theorem ofNat_mem_range (h : n < 256) {low high : UInt8} :
    (low ≤ UInt8.ofNat n ∧ UInt8.ofNat n ≤ high) ↔ low.toNat ≤ n ∧ n ≤ high.toNat := by
  rw [UInt8.le_iff_toNat_le, UInt8.le_iff_toNat_le, toNat_ofNat_of_lt h]

theorem isContinuation_ofNat (n : Nat) : isContinuation (UInt8.ofNat (n % 64 + 0x80)) = true := by
  rw [isContinuation, Bool.and_eq_true, decide_eq_true_eq, decide_eq_true_eq,
    ofNat_mem_range (by omega)]
  exact ⟨Nat.le_add_left _ _, Nat.lt_succ_iff.1 (Nat.add_lt_add_right (Nat.mod_lt _ (by decide)) _)⟩

theorem startsThree_ofNat (h : 0x7ff < n) (h' : n < 0xD800 ∨ 0xDFFF < n) (hn : n < 0x10000) :
    startsThree (UInt8.ofNat (n / 4096 % 16 + 0xe0)) (UInt8.ofNat (n / 64 % 64 + 0x80)) = true := by
  have ha : (UInt8.ofNat (n / 4096 % 16 + 0xe0)).toNat = n / 4096 % 16 + 0xe0 :=
    toNat_ofNat_of_lt (by omega)
  have hb : (UInt8.ofNat (n / 64 % 64 + 0x80)).toNat = n / 64 % 64 + 0x80 :=
    toNat_ofNat_of_lt (by omega)
  simp only [startsThree, isContinuation, Bool.or_eq_true, Bool.and_eq_true, decide_eq_true_eq,
    beq_iff_eq, UInt8.le_iff_toNat_le, ← UInt8.toNat_inj, ha, hb]
  simp
  omega

theorem startsFour_ofNat (h : 0xFFFF < n) (hn : n < 0x110000) :
    startsFour (UInt8.ofNat (n / 262144 % 8 + 0xf0)) (UInt8.ofNat (n / 4096 % 64 + 0x80)) =
      true := by
  have ha : (UInt8.ofNat (n / 262144 % 8 + 0xf0)).toNat = n / 262144 % 8 + 0xf0 :=
    toNat_ofNat_of_lt (by omega)
  have hb : (UInt8.ofNat (n / 4096 % 64 + 0x80)).toNat = n / 4096 % 64 + 0x80 :=
    toNat_ofNat_of_lt (by omega)
  simp only [startsFour, isContinuation, Bool.or_eq_true, Bool.and_eq_true, decide_eq_true_eq,
    beq_iff_eq, UInt8.le_iff_toNat_le, ← UInt8.toNat_inj, ha, hb]
  simp
  omega

end Characters

theorem charOfBits_eq {c : Char} {lead : Nat} {tail : List UInt8}
    (h : tail.foldl (fun bits b => bits * 64 + b.toNat % 64) lead = c.val.toNat) :
    charOfBits lead tail = c := by
  rw [charOfBits, h]
  exact Char.ofNat_toNat c

/-- Decoding starts with the character whose encoding the bytes start with. -/
theorem decodeFrom_utf8EncodeChar (c : Char) (index : Nat) (rest : Bytes) :
    ∃ next, decodeFrom index (String.utf8EncodeChar c ++ rest) =
      (decodeFrom next rest).map (c :: ·) := by
  have hrange : c.val.toNat < 0xD800 ∨ 0xDFFF < c.val.toNat ∧ c.val.toNat < 0x110000 := c.valid
  have hcont : ∀ m, (UInt8.ofNat (m % 64 + 0x80)).toNat = m % 64 + 0x80 :=
    fun m => toNat_ofNat_of_lt (by omega)
  generalize hn : c.val.toNat = n at hrange
  by_cases h₁ : n ≤ 0x7f
  · have hc : Char.ofNat n = c := hn ▸ Char.ofNat_toNat c
    have ha : UInt8.ofNat n < 0x80 := by
      rw [UInt8.lt_iff_toNat_lt, toNat_ofNat_of_lt (by omega)]
      exact Nat.lt_succ_of_le h₁
    refine ⟨index + 1, ?_⟩
    rw [String.utf8EncodeChar, hn]
    simp only [h₁, if_true, List.cons_append, List.nil_append]
    rw [decodeFrom_one ha, toNat_ofNat_of_lt (by omega), hc]
  by_cases h₂ : n ≤ 0x7ff
  · refine ⟨index + 2, ?_⟩
    rw [String.utf8EncodeChar, hn]
    simp only [h₁, h₂, if_true, if_false, List.cons_append, List.nil_append]
    rw [decodeFrom_two ((ofNat_mem_range (by omega)).2 (by simp; omega)) (isContinuation_ofNat n),
      charOfBits_eq]
    rw [toNat_ofNat_of_lt (by omega), List.foldl_cons, List.foldl_nil, hcont, hn]
    omega
  by_cases h₃ : n ≤ 0xffff
  · refine ⟨index + 3, ?_⟩
    rw [String.utf8EncodeChar, hn]
    simp only [h₁, h₂, h₃, if_true, if_false, List.cons_append, List.nil_append]
    rw [decodeFrom_three ((ofNat_mem_range (by omega)).2 (by simp; omega))
      (startsThree_ofNat (by omega) (by omega) (by omega)) (isContinuation_ofNat n), charOfBits_eq]
    simp only [List.foldl_cons, List.foldl_nil, hcont, hn]
    rw [toNat_ofNat_of_lt (by omega)]
    omega
  · refine ⟨index + 4, ?_⟩
    rw [String.utf8EncodeChar, hn]
    simp only [h₁, h₂, h₃, if_false, List.cons_append, List.nil_append]
    rw [decodeFrom_four ((ofNat_mem_range (by omega)).2 (by simp; omega))
      (startsFour_ofNat (by omega) (by omega)) (isContinuation_ofNat (n / 64))
      (isContinuation_ofNat n), charOfBits_eq]
    simp only [List.foldl_cons, List.foldl_nil, hcont, hn]
    rw [toNat_ofNat_of_lt (by omega)]
    omega

theorem decodeFrom_encoded (cs : List Char) (index : Nat) :
    decodeFrom index (cs.flatMap String.utf8EncodeChar) = .ok cs := by
  induction cs generalizing index with
  | nil => rfl
  | cons c rest ih =>
    rw [List.flatMap_cons]
    obtain ⟨next, h⟩ := decodeFrom_utf8EncodeChar c index (rest.flatMap String.utf8EncodeChar)
    rw [h, ih next]
    rfl

/-- Decoding gives back every text that was encoded. -/
theorem decode_encode (text : String) : decode (encode text) = .ok text := by
  rw [decode, encode, decodeFrom_encoded]
  simp [Except.map]

/-- Texts are told apart by their bytes. -/
theorem utf8_injective {cs ds : List Char}
    (h : cs.flatMap String.utf8EncodeChar = ds.flatMap String.utf8EncodeChar) : cs = ds := by
  have hd := decodeFrom_encoded cs 0
  rw [h, decodeFrom_encoded, Except.ok.injEq] at hd
  exact hd.symm

/-! ## Digits -/

theorem hexValue?_hexDigit {n : Nat} (h : n < 16) : hexValue? (hexDigit n) = some n := by
  revert n
  decide

/-- Two digits of a byte make up the byte. -/
theorem bytesOfHex_hexDigit (b : UInt8) :
    bytesOfHex [hexDigit (b.toNat / 16), hexDigit (b.toNat % 16)] = [b] := by
  have hb : b.toNat < 256 := b.toNat_lt
  have hsum : b.toNat / 16 * 16 + b.toNat % 16 = b.toNat := by omega
  rw [bytesOfHex, hexValue?_hexDigit (by omega), hexValue?_hexDigit (by omega)]
  simp only [hsum, UInt8.ofNat_toNat]
  rfl

end ArtifactResolver.Text
