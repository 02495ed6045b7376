import ArtifactResolver.Proofs.Text.Encoding
import ArtifactResolver.Toml.Printer

/-!
# Reading back written strings

A string that was written is read back as it was, whatever form it was written in, together with
the end of line behind it. The two forms with escapes share what is said about escapes; the two
forms on several lines share what is said about quotes, of which no more than two stand together
within the string.
-/

namespace ArtifactResolver.Toml

/-! ## Escapes -/

/-- The scanner reads the escapes of a string with escapes. -/
structure ReadsEscapes (scan : Mode → Scan (List Char)) : Prop where
  /-- It takes a backslash for the start of an escape. -/
  start : ∀ rest, scan .plain ('\\' :: rest) = scan .escape rest
  /-- It reads the first character of an escape, if that is none of a folded line. -/
  first : ∀ (c : Char) (rest : List Char) (next : Mode × List Char), afterEscape? c = some next →
    scan .escape (c :: rest) = pushAll next.2 (scan next.1 rest)
  /-- It reads a digit of an escape by number. -/
  digit : ∀ (count value : Nat) (c : Char) (rest : List Char) (next : Mode × List Char),
    afterDigit? count value c = some next →
    scan (.digits count value) (c :: rest) = pushAll next.2 (scan next.1 rest)

theorem pushAll_nil (read : Option (List Char × List Char)) : pushAll [] read = read := by
  cases read <;> rfl

theorem scanBasic_readsEscapes : ReadsEscapes scanBasic where
  start rest := by simp [scanBasic]
  first c rest next h := by simp [scanBasic, h]
  digit count value c rest next h := by simp [scanBasic, h]

theorem scanBasicLines_readsEscapes : ReadsEscapes scanBasicLines where
  start rest := by simp [scanBasicLines]
  first c rest next h := by
    have hspace : isSpace c = false := by
      cases hs : isSpace c with
      | false => rfl
      | true =>
        have hc : c = ' ' ∨ c = '\t' := by simpa [isSpace] using hs
        rcases hc with rfl | rfl <;>
          exact absurd h (by simp [afterEscape?, escaped?, escapeDigits?])
    have hline : c ≠ '\n' ∧ c ≠ '\r' := by
      constructor <;> rintro rfl <;>
        exact absurd h (by simp [afterEscape?, escaped?, escapeDigits?])
    simp [scanBasicLines, h, hspace, hline]
  digit count value c rest next h := by simp [scanBasicLines, h]

/-- A character is escaped by a letter, or by its number, or not at all. -/
theorem escape?_cases (c : Char) :
    (∃ letter, escape? c = some ['\\', letter] ∧ escaped? letter = some c) ∨
    (escape? c = some (escapeByNumber c) ∧ c.toNat < 0x80) ∨
    escape? c = none ∧ c ≠ '\\' ∧ c ≠ '\r' ∧ needsEscape c = false := by
  by_cases hb : c = '\x08'
  · exact Or.inl ⟨'b', by rw [hb]; rfl, by rw [hb]; rfl⟩
  by_cases ht : c = '\t'
  · exact Or.inl ⟨'t', by rw [ht]; rfl, by rw [ht]; rfl⟩
  by_cases hf : c = '\x0c'
  · exact Or.inl ⟨'f', by rw [hf]; rfl, by rw [hf]; rfl⟩
  by_cases hr : c = '\r'
  · exact Or.inl ⟨'r', by rw [hr]; rfl, by rw [hr]; rfl⟩
  by_cases hs : c = '\\'
  · exact Or.inl ⟨'\\', by rw [hs]; rfl, by rw [hs]; rfl⟩
  have he : escape? c = if needsEscape c then some (escapeByNumber c) else none := by
    simp [escape?, hb, ht, hf, hr, hs]
  cases hn : needsEscape c with
  | false => exact Or.inr (Or.inr ⟨by rw [he, hn]; rfl, hs, hr, rfl⟩)
  | true =>
    refine Or.inr (Or.inl ⟨by rw [he, hn]; rfl, ?_⟩)
    simp only [needsEscape, Bool.and_eq_true, Bool.or_eq_true, decide_eq_true_eq] at hn
    omega

/-- A character without an escape can stand in a line, unless it is the end of the line. -/
theorem isInline_of_not_needsEscape {c : Char} (h : needsEscape c = false) (hn : c ≠ '\n') :
    isInline c = true := by
  by_cases ht : c = '\t'
  · rw [ht]
    rfl
  · have hc : 0x20 ≤ c.toNat ∧ c.toNat ≠ 0x7F := by simpa [needsEscape, ht, hn] using h
    simp only [isInline, Bool.or_eq_true, Bool.and_eq_true, decide_eq_true_eq]
    omega

section Escapes

variable {scan : Mode → Scan (List Char)} (h : ReadsEscapes scan)
include h

/-- An escape of one letter is read as the character that it stands for. -/
theorem ReadsEscapes.letter {letter c : Char} (hc : escaped? letter = some c) (rest : List Char) :
    scan .plain ('\\' :: letter :: rest) = push c (scan .plain rest) := by
  rw [h.start, h.first letter rest (.plain, [c]) (by rw [afterEscape?, hc])]
  rfl

/-- The digits of the number of a character are read as the character. -/
theorem ReadsEscapes.number {c : Char} (hc : c.toNat < 0x80) (rest : List Char) :
    scan .plain (escapeByNumber c ++ rest) = push c (scan .plain rest) := by
  have hdigit : ∀ count value m, 1 < count →
      afterDigit? count value (Text.hexDigit (m % 16)) =
        some (.digits (count - 1) (value * 16 + m % 16), []) := by
    intro count value m hcount
    rw [afterDigit?, Text.hexValue?_hexDigit (Nat.mod_lt _ (by decide))]
    simp [Nat.not_le.2 hcount]
  have hvalue : (((0 * 16 + c.toNat / 4096 % 16) * 16 + c.toNat / 256 % 16) * 16 +
      c.toNat / 16 % 16) * 16 + c.toNat % 16 = c.toNat := by omega
  have hlast : ∀ value, value * 16 + c.toNat % 16 = c.toNat →
      afterDigit? 1 value (Text.hexDigit (c.toNat % 16)) = some (.plain, [c]) := by
    intro value hv
    have hvalid : c.toNat.isValidChar := c.valid
    rw [afterDigit?, Text.hexValue?_hexDigit (Nat.mod_lt _ (by decide))]
    simp [hv, charOfNat?, hvalid, Char.ofNat_toNat]
  show scan .plain ('\\' :: 'u' :: _ :: _ :: _ :: _ :: rest) = _
  rw [h.start, h.first 'u' _ (.digits 4 0, []) rfl, pushAll_nil,
    h.digit 4 _ _ _ _ (hdigit 4 _ _ (by decide)), pushAll_nil,
    h.digit 3 _ _ _ _ (hdigit 3 _ _ (by decide)), pushAll_nil,
    h.digit 2 _ _ _ _ (hdigit 2 _ _ (by decide)), pushAll_nil,
    h.digit 1 _ _ _ _ (hlast _ hvalue)]
  rfl

/-- A character is read back from what it is written as, if that is its escape. -/
theorem ReadsEscapes.escaped {c : Char} {written : List Char} (hc : escape? c = some written)
    (rest : List Char) : scan .plain (written ++ rest) = push c (scan .plain rest) := by
  rcases escape?_cases c with ⟨letter, he, hl⟩ | ⟨he, hn⟩ | ⟨he, _⟩
  · obtain rfl := Option.some.inj (he.symm.trans hc)
    exact h.letter hl rest
  · obtain rfl := Option.some.inj (he.symm.trans hc)
    exact h.number hn rest
  · rw [he] at hc
    cases hc

end Escapes

/-! ## Strings of one line -/

theorem scanBasic_writeBasic (cs rest : List Char) :
    scanBasic .plain (writeBasic cs ++ '"' :: rest) = some (cs, rest) := by
  induction cs with
  | nil => simp [writeBasic, scanBasic]
  | cons c cs ih =>
    have hpush :
        push c (scanBasic .plain (writeBasic cs ++ '"' :: rest)) = some (c :: cs, rest) := by
      rw [ih]
      rfl
    rw [writeBasic, List.append_assoc]
    by_cases hq : c = '"'
    · rw [if_pos hq, ← hpush, hq]
      exact scanBasic_readsEscapes.letter rfl _
    by_cases hn : c = '\n'
    · rw [if_neg hq, if_pos hn, ← hpush, hn]
      exact scanBasic_readsEscapes.letter rfl _
    rw [if_neg hq, if_neg hn, ← hpush]
    cases he : escape? c with
    | some written => exact scanBasic_readsEscapes.escaped he _
    | none =>
      rcases escape?_cases c with ⟨letter, he', _⟩ | ⟨he', _⟩ | ⟨_, hs, hr, hcode⟩
      · rw [he] at he'
        cases he'
      · rw [he] at he'
        cases he'
      · simp [scanBasic, hq, hs, isInline_of_not_needsEscape hcode hn]

theorem scanLiteral_append {cs : List Char} (hq : '\'' ∉ cs) (hcode : cs.any needsEscape = false)
    (hn : '\n' ∉ cs) (rest : List Char) :
    scanLiteral (cs ++ '\'' :: rest) = some (cs, rest) := by
  induction cs with
  | nil => simp [scanLiteral]
  | cons c cs ih =>
    rw [List.any_cons, Bool.or_eq_false_iff] at hcode
    rw [List.mem_cons, not_or] at hq hn
    have hc := isInline_of_not_needsEscape hcode.1 (Ne.symm hn.1)
    rw [List.cons_append, scanLiteral, if_neg (Ne.symm hq.1), if_pos hc, ih hq.2 hcode.2 hn.2]
    rfl

/-! ## Strings of several lines -/

section Quotes

variable {quote : Char}

/-- Of up to two quotes before the closing ones it is known that they belong to the string, and of
quotes with anything behind them that they do not close it. -/
theorem closing?_cases (hq : quote ≠ '\n') {cs : List Char}
    (h : ¬ [quote, quote, quote] <+: cs) (rest : List Char) :
    (∃ j, cs = List.replicate j quote ∧
      closing? quote (cs ++ quote :: quote :: quote :: '\n' :: rest) = some j) ∨
    closing? quote (cs ++ quote :: quote :: quote :: '\n' :: rest) = none := by
  match cs, h with
  | [], _ => exact Or.inl ⟨0, rfl, by simp [closing?, Ne.symm hq]⟩
  | [a], _ =>
    by_cases ha : a = quote
    · exact Or.inl ⟨1, by rw [ha]; rfl, by simp [closing?, Ne.symm hq, ha]⟩
    · exact Or.inr (by simp [closing?, ha])
  | [a, b], _ =>
    by_cases ha : a = quote
    · by_cases hb : b = quote
      · exact Or.inl ⟨2, by rw [ha, hb]; rfl, by simp [closing?, Ne.symm hq, ha, hb]⟩
      · exact Or.inr (by simp [closing?, ha, hb])
    · exact Or.inr (by simp [closing?, ha])
  | a :: b :: c :: cs, h =>
    have h : a = quote → b = quote → c ≠ quote := by
      rintro rfl rfl rfl
      exact h ⟨cs, rfl⟩
    by_cases ha : a = quote
    · by_cases hb : b = quote
      · exact Or.inr (by simp [closing?, ha, hb, h ha hb])
      · exact Or.inr (by simp [closing?, ha, hb])
    · exact Or.inr (by simp [closing?, ha])

/-- Three quotes in a row make the longest run longer than two. -/
theorem not_infix_of_longestRun_le {cs : List Char} (h : longestRun quote cs ≤ 2) :
    ¬ [quote, quote, quote] <:+: cs := by
  have hmono : ∀ (ds : List Char) (run best : Nat), best ≤ (ds.foldl (fun runs d =>
      if d = quote then (runs.1 + 1, max runs.2 (runs.1 + 1)) else (0, runs.2)) (run, best)).2 := by
    intro ds
    induction ds with
    | nil => exact fun _ best => Nat.le_refl best
    | cons d ds ih =>
      intro run best
      rw [List.foldl_cons]
      by_cases hd : d = quote
      · rw [if_pos hd]
        exact Nat.le_trans (Nat.le_max_left _ _) (ih _ _)
      · rw [if_neg hd]
        exact ih _ _
  rintro ⟨before, after, rfl⟩
  rw [longestRun, List.append_assoc, List.foldl_append] at h
  generalize before.foldl _ (0, 0) = runs at h
  simp only [List.cons_append, List.nil_append, List.foldl_cons, if_true] at h
  have := hmono after (runs.1 + 1 + 1 + 1)
    (max (max (max runs.2 (runs.1 + 1)) (runs.1 + 1 + 1)) (runs.1 + 1 + 1 + 1))
  omega

end Quotes

/-- Where the written text goes on with a quote, the string does, and it is not the third. -/
theorem writeBasicLines_eq_cons_quote {quotes : Nat} {cs written : List Char}
    (h : writeBasicLines quotes cs = '"' :: written) :
    quotes < 2 ∧ ∃ cs', cs = '"' :: cs' ∧ written = writeBasicLines (quotes + 1) cs' := by
  cases cs with
  | nil => simp [writeBasicLines] at h
  | cons c cs =>
    rw [writeBasicLines] at h
    by_cases hq : c = '"'
    · by_cases hlt : quotes < 2
      · rw [if_pos hq, if_pos hlt, List.cons.injEq] at h
        exact ⟨hlt, cs, by rw [hq], h.2.symm⟩
      · simp [hq, hlt] at h
    · by_cases hn : c = '\n'
      · simp [hn] at h
      · rw [if_neg hq, if_neg hn] at h
        rcases escape?_cases c with ⟨letter, he, _⟩ | ⟨he, _⟩ | ⟨he, _⟩
        · simp [he] at h
        · simp [he, escapeByNumber] at h
        · simp [he, hq] at h

theorem eq_nil_of_writeBasicLines {quotes : Nat} {cs : List Char}
    (h : writeBasicLines quotes cs = []) : cs = [] := by
  cases cs with
  | nil => rfl
  | cons c cs =>
    rw [writeBasicLines] at h
    by_cases hq : c = '"'
    · by_cases hlt : quotes < 2 <;> simp [hq, hlt] at h
    · by_cases hn : c = '\n'
      · simp [hn] at h
      · rw [if_neg hq, if_neg hn] at h
        rcases escape?_cases c with ⟨letter, he, _⟩ | ⟨he, _⟩ | ⟨he, _⟩ <;>
          simp [he, escapeByNumber] at h

theorem eq_replicate_of_writeBasicLines {quotes j : Nat} {cs : List Char}
    (h : writeBasicLines quotes cs = List.replicate j '"') : cs = List.replicate j '"' := by
  induction j generalizing quotes cs with
  | zero => exact eq_nil_of_writeBasicLines h
  | succ j ih =>
    obtain ⟨_, cs', rfl, hw⟩ := writeBasicLines_eq_cons_quote h
    rw [ih hw.symm, List.replicate_succ]

theorem not_prefix_writeBasicLines (quotes : Nat) (cs : List Char) :
    ¬ ['"', '"', '"'] <+: writeBasicLines quotes cs := by
  rintro ⟨after, h⟩
  obtain ⟨h₁, cs₁, _, hw₁⟩ := writeBasicLines_eq_cons_quote h.symm
  obtain ⟨h₂, cs₂, _, hw₂⟩ := writeBasicLines_eq_cons_quote hw₁.symm
  obtain ⟨h₃, _⟩ := writeBasicLines_eq_cons_quote hw₂.symm
  omega

theorem scanBasicLines_quote (rest : List Char) :
    scanBasicLines .plain ('"' :: rest) = match closing? '"' ('"' :: rest) with
      | some extra => some (List.replicate extra '"', rest.drop (extra + 2))
      | none => push '"' (scanBasicLines .plain rest) := by
  cases h : closing? '"' ('"' :: rest) <;> simp [scanBasicLines, h]

/-- What is left behind the quotes that close a string. -/
theorem drop_closing {quote : Char} {j : Nat} {cs : List Char}
    (h : quote :: cs = List.replicate j quote) (behind : List Char) :
    (cs ++ quote :: quote :: quote :: behind).drop (j + 2) = behind := by
  have hj : j = cs.length + 1 := by
    have := congrArg List.length h
    rw [List.length_replicate, List.length_cons] at this
    exact this.symm
  rw [List.drop_append, List.drop_eq_nil_of_le (by omega), hj,
    show cs.length + 1 + 2 - cs.length = 3 by omega]
  rfl

theorem scanBasicLines_writeBasicLines (quotes : Nat) (cs rest : List Char) :
    scanBasicLines .plain (writeBasicLines quotes cs ++ '"' :: '"' :: '"' :: '\n' :: rest) =
      some (cs, '\n' :: rest) := by
  induction cs generalizing quotes with
  | nil => simp [writeBasicLines, scanBasicLines, closing?]
  | cons c cs ih =>
    have hpush : ∀ quotes, push c (scanBasicLines .plain
        (writeBasicLines quotes cs ++ '"' :: '"' :: '"' :: '\n' :: rest)) =
          some (c :: cs, '\n' :: rest) := by
      intro quotes
      rw [ih]
      rfl
    have hclosing := closing?_cases (by decide) (not_prefix_writeBasicLines quotes (c :: cs)) rest
    rw [writeBasicLines] at hclosing ⊢
    by_cases hq : c = '"'
    · subst hq
      by_cases hlt : quotes < 2
      · rw [if_pos rfl, if_pos hlt] at hclosing ⊢
        rw [List.cons_append, scanBasicLines_quote]
        rcases hclosing with ⟨j, hj, hclose⟩ | hclose
        · have hcs : '"' :: cs = List.replicate j '"' := by
            have hwrite : writeBasicLines quotes ('"' :: cs) = List.replicate j '"' := by
              rw [writeBasicLines, if_pos rfl, if_pos hlt, hj]
            exact eq_replicate_of_writeBasicLines hwrite
          rw [List.cons_append] at hclose
          rw [hclose, hcs]
          simp only [drop_closing hj]
        · rw [List.cons_append] at hclose
          rw [hclose]
          exact hpush _
      · rw [if_pos rfl, if_neg hlt, List.cons_append, List.cons_append,
          scanBasicLines_readsEscapes.letter rfl]
        exact hpush 0
    by_cases hn : c = '\n'
    · rw [if_neg hq, if_pos hn, ← hpush 0, hn]
      simp [scanBasicLines]
    rw [if_neg hq, if_neg hn, List.append_assoc, ← hpush 0]
    cases he : escape? c with
    | some written => exact scanBasicLines_readsEscapes.escaped he _
    | none =>
      rcases escape?_cases c with ⟨letter, he', _⟩ | ⟨he', _⟩ | ⟨_, hs, hr, hcode⟩
      · rw [he] at he'
        cases he'
      · rw [he] at he'
        cases he'
      · simp [scanBasicLines, hq, hs, hr, hn, isInline_of_not_needsEscape hcode hn]

theorem scanLiteralLines_append {cs : List Char} (hq : ¬ ['\'', '\'', '\''] <:+: cs)
    (hcode : cs.any needsEscape = false) (rest : List Char) :
    scanLiteralLines (cs ++ '\'' :: '\'' :: '\'' :: '\n' :: rest) = some (cs, '\n' :: rest) := by
  induction cs with
  | nil => simp [scanLiteralLines, closing?]
  | cons c cs ih =>
    have hclosing := closing?_cases (by decide) (fun h => hq h.isInfix) rest
    rw [List.any_cons, Bool.or_eq_false_iff] at hcode
    have hrest := ih (fun h => hq (h.trans (List.suffix_cons c cs).isInfix)) hcode.2
    have hr : c ≠ '\r' := by
      rintro rfl
      exact absurd hcode.1 (by decide)
    by_cases hc : c = '\''
    · subst hc
      rw [List.cons_append] at hclosing ⊢
      rw [scanLiteralLines, if_neg hr, if_pos rfl]
      rcases hclosing with ⟨j, hj, hclose⟩ | hclose
      · rw [hclose, hj]
        simp only [drop_closing hj]
      · rw [hclose, hrest]
        rfl
    · have hin : (c = '\n' || isInline c) = true := by
        by_cases hn : c = '\n'
        · simp [hn]
        · simp [isInline_of_not_needsEscape hcode.1 hn]
      rw [List.cons_append, scanLiteralLines, if_neg hr, if_neg hc, if_pos hin, hrest]
      rfl

/-! ## Strings of any form -/

section Forms

variable {cs : List Char}

theorem formOf_eq_literal (h : formOf cs = .literal) :
    '\'' ∉ cs ∧ cs.any needsEscape = false ∧ '\n' ∉ cs := by
  unfold formOf at h
  dsimp only at h
  split at h
  · cases h
  split at h
  · next hl => simpa [and_assoc] using hl
  repeat (split at h <;> try cases h)

theorem formOf_eq_literalLines (h : formOf cs = .literalLines) :
    cs.any needsEscape = false ∧ longestRun '\'' cs ≤ 2 := by
  unfold formOf at h
  dsimp only at h
  split at h
  · cases h
  split at h
  · cases h
  split at h
  · cases h
  split at h
  · next hl => simpa using hl
  · split at h <;> cases h

theorem writeBasic_ne_cons_quote (written : List Char) : writeBasic cs ≠ '"' :: written := by
  intro h
  cases cs with
  | nil => simp [writeBasic] at h
  | cons c cs =>
    rw [writeBasic] at h
    by_cases hq : c = '"'
    · simp [hq] at h
    by_cases hn : c = '\n'
    · simp [hn] at h
    rw [if_neg hq, if_neg hn] at h
    rcases escape?_cases c with ⟨letter, he, _⟩ | ⟨he, _⟩ | ⟨he, _⟩
    · simp [he] at h
    · simp [he, escapeByNumber] at h
    · simp [he, hq] at h

end Forms

theorem scanString?_basic {cs : List Char} (h : ¬ ['"', '"'] <+: cs) :
    scanString? ('"' :: cs) =
      (scanBasic .plain cs).map fun result => (String.ofList result.1, result.2) := by
  rw [scanString?]
  rintro rest rfl
  exact h ⟨rest, rfl⟩

theorem scanString?_literal {cs : List Char} (h : ¬ ['\'', '\''] <+: cs) :
    scanString? ('\'' :: cs) =
      (scanLiteral cs).map fun result => (String.ofList result.1, result.2) := by
  rw [scanString?]
  rintro rest rfl
  exact h ⟨rest, rfl⟩

/-- The end of line in front of a string that has one is dropped, and nothing else is. -/
theorem dropLineEnd_linesStart {cs written : List Char}
    (h : '\n' ∉ cs → written.head? ≠ some '\n' ∧ written.head? ≠ some '\r') :
    dropLineEnd (linesStart cs ++ written) = written := by
  rw [linesStart]
  by_cases hn : '\n' ∈ cs
  · rw [if_pos (by simpa using hn)]
    rfl
  · obtain ⟨hl, hr⟩ := h hn
    rw [if_neg (by simpa using hn), List.nil_append]
    unfold dropLineEnd
    split
    · exact absurd rfl hl
    · exact absurd rfl hr
    · rfl

theorem head?_writeBasicLines {cs : List Char} (hn : '\n' ∉ cs) (written : List Char) :
    (writeBasicLines 0 cs ++ '"' :: written).head? ≠ some '\n' ∧
      (writeBasicLines 0 cs ++ '"' :: written).head? ≠ some '\r' := by
  cases cs with
  | nil => simp [writeBasicLines]
  | cons c cs =>
    rw [List.mem_cons, not_or] at hn
    rw [writeBasicLines]
    by_cases hq : c = '"'
    · simp [hq]
    rw [if_neg hq, if_neg (Ne.symm hn.1)]
    rcases escape?_cases c with ⟨letter, he, _⟩ | ⟨he, _⟩ | ⟨he, _, hr, _⟩
    · simp [he]
    · simp [he, escapeByNumber]
    · simp [he, hr, Ne.symm hn.1]

/-- A string is read back from what it is written as. -/
theorem scanString?_writeString (cs rest : List Char) :
    scanString? (writeString cs ++ '\n' :: rest) = some (String.ofList cs, '\n' :: rest) := by
  unfold writeString
  cases hf : formOf cs with
  | basic =>
    have hstart : ¬ ['"', '"'] <+: writeBasic cs ++ '"' :: '\n' :: rest := by
      rintro ⟨behind, h⟩
      cases hw : writeBasic cs with
      | nil => simp [hw] at h
      | cons c written =>
        rw [hw] at h
        exact writeBasic_ne_cons_quote written ((List.cons.inj h).1 ▸ hw)
    have happend : '"' :: writeBasic cs ++ ['"'] ++ '\n' :: rest =
        '"' :: (writeBasic cs ++ '"' :: '\n' :: rest) := by simp
    simp only [happend]
    rw [scanString?_basic hstart, scanBasic_writeBasic]
    rfl
  | literal =>
    obtain ⟨hq, hcode, hn⟩ := formOf_eq_literal hf
    have hstart : ¬ ['\'', '\''] <+: cs ++ '\'' :: '\n' :: rest := by
      rintro ⟨behind, h⟩
      cases cs with
      | nil => simp at h
      | cons c cs => exact hq ((List.cons.inj h).1 ▸ List.mem_cons_self)
    have happend : '\'' :: cs ++ ['\''] ++ '\n' :: rest =
        '\'' :: (cs ++ '\'' :: '\n' :: rest) := by simp
    simp only [happend]
    rw [scanString?_literal hstart, scanLiteral_append hq hcode hn]
    rfl
  | basicLines =>
    have happend : ['"', '"', '"'] ++ linesStart cs ++ writeBasicLines 0 cs ++ ['"', '"', '"'] ++
        '\n' :: rest = '"' :: '"' :: '"' :: (linesStart cs ++
          (writeBasicLines 0 cs ++ '"' :: '"' :: '"' :: '\n' :: rest)) := by simp
    simp only [happend]
    rw [scanString?, dropLineEnd_linesStart fun hn => head?_writeBasicLines hn _,
      scanBasicLines_writeBasicLines]
    rfl
  | literalLines =>
    obtain ⟨hcode, hrun⟩ := formOf_eq_literalLines hf
    have hhead : '\n' ∉ cs → (cs ++ '\'' :: '\'' :: '\'' :: '\n' :: rest).head? ≠ some '\n' ∧
        (cs ++ '\'' :: '\'' :: '\'' :: '\n' :: rest).head? ≠ some '\r' := by
      intro hn
      cases cs with
      | nil => simp
      | cons c cs =>
        rw [List.mem_cons, not_or] at hn
        rw [List.any_cons, Bool.or_eq_false_iff] at hcode
        have hr : c ≠ '\r' := by
          rintro rfl
          exact absurd hcode.1 (by decide)
        simp [hr, Ne.symm hn.1]
    have happend : ['\'', '\'', '\''] ++ linesStart cs ++ cs ++ ['\'', '\'', '\''] ++ '\n' :: rest =
        '\'' :: '\'' :: '\'' :: (linesStart cs ++
          (cs ++ '\'' :: '\'' :: '\'' :: '\n' :: rest)) := by simp
    simp only [happend]
    rw [scanString?, dropLineEnd_linesStart hhead,
      scanLiteralLines_append (not_infix_of_longestRun_le hrun) hcode]
    rfl

end ArtifactResolver.Toml
