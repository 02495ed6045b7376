import ArtifactResolver.Proofs.Toml.Strings
import ArtifactResolver.Toml.Reader

/-!
# Reading lines

A document that was written line by line is read line by line, each line as one statement. How much
fuel there is does not matter as long as there is some for every character.
-/

namespace ArtifactResolver.Toml

/-- The text of lines is read as statements, whenever there is fuel for each of its characters. -/
def ReadAs (cs : List Char) (statements : List Statement) : Prop :=
  ∀ fuel, cs.length < fuel → scanStatements fuel cs = some statements

theorem ReadAs.nil : ReadAs [] [] := by
  intro fuel h
  cases fuel with
  | zero => omega
  | succ fuel => rfl

/-- A blank line is no statement. -/
theorem ReadAs.blank {cs : List Char} {statements : List Statement} (h : ReadAs cs statements) :
    ReadAs ('\n' :: cs) statements := by
  intro fuel hfuel
  cases fuel with
  | zero => omega
  | succ fuel =>
    rw [List.length_cons] at hfuel
    have := h (fuel + 1) (by omega)
    rw [scanStatements] at this ⊢
    rwa [skipTrivia?, if_pos rfl]

/-- A line that is a statement comes before those of the lines behind it. -/
theorem ReadAs.cons {line cs : List Char} {s : Statement} {statements : List Statement}
    (h : ReadAs cs statements) (hs : scanStatement (line ++ '\n' :: cs) = some (s, '\n' :: cs))
    (hline : skipTrivia? false (line ++ '\n' :: cs) = some (line ++ '\n' :: cs)) (hne : line ≠ []) :
    ReadAs (line ++ '\n' :: cs) (s :: statements) := by
  intro fuel hfuel
  cases fuel with
  | zero => omega
  | succ fuel =>
    rw [List.length_append, List.length_cons] at hfuel
    have hrest := h fuel (by omega)
    obtain ⟨c, line, rfl⟩ := List.exists_cons_of_ne_nil hne
    rw [scanStatements, hline]
    simp only [List.cons_append] at hs ⊢
    have hend : restOfLine? ('\n' :: cs) = some cs := rfl
    simp [hs, hend, hrest]

/-! ## Fields -/

theorem skipTrivia?_cons {c : Char} (h : c ≠ '\n' ∧ c ≠ '\r' ∧ c ≠ '#' ∧ isSpace c = false)
    (rest : List Char) : skipTrivia? false (c :: rest) = some (c :: rest) := by
  simp [skipTrivia?, h]

theorem ne_of_isBare {c d : Char} (hc : isBare c = true) (hd : isBare d = false) : c ≠ d := by
  rintro rfl
  rw [hc] at hd
  cases hd

theorem isSpace_of_isBare {c : Char} (h : isBare c = true) : isSpace c = false := by
  simp [isSpace, ne_of_isBare h (d := ' ') rfl, ne_of_isBare h (d := '\t') rfl]

/-- A bare key is read up to the first character that it cannot hold. -/
theorem scanPath_bare {key behind rest : List Char} {c : Char} (hkey : key ≠ [])
    (hbare : ∀ d ∈ key, isBare d = true) (hstop : behind.takeWhile isBare = [])
    (hbehind : skipSpace behind = c :: rest) (hc : c ≠ '.') :
    scanPath (key ++ behind) = some ([String.ofList key], c :: rest) := by
  obtain ⟨k, ks, rfl⟩ := List.exists_cons_of_ne_nil hkey
  have hk : isBare k = true := hbare k List.mem_cons_self
  have hspace : skipSpace (k :: ks ++ behind) = k :: ks ++ behind := by
    simp [skipSpace, isSpace_of_isBare hk]
  have hdrop : (k :: ks ++ behind).dropWhile isBare = behind := by
    rw [List.dropWhile_append_of_pos hbare]
    cases behind with
    | nil => rfl
    | cons b behind =>
      have hb : isBare b = false := by
        by_cases hb : isBare b = true
        · simp [hb] at hstop
        · simpa using hb
      simp [hb]
  have hsimple : scanSimpleKey? (k :: ks ++ behind) = some (String.ofList (k :: ks), behind) := by
    have htake : (k :: ks ++ behind).takeWhile isBare = k :: ks := by
      rw [List.takeWhile_append_of_pos hbare, hstop, List.append_nil]
    unfold scanSimpleKey?
    split
    · next heq => exact absurd (List.cons.inj heq).1 (ne_of_isBare hk rfl)
    · next heq => exact absurd (List.cons.inj heq).1 (ne_of_isBare hk rfl)
    · simp only [htake, hdrop]
      rfl
  have hspaced : scanSpacedKey (k :: ks ++ behind) = some (String.ofList (k :: ks), c :: rest) := by
    rw [scanSpacedKey, hspace, hsimple, Option.map_some, hbehind]
  rw [scanPath, separated, hspaced]
  simp [hc, nestingLimit]

theorem scanValue_writeString (depth : Nat) (cs rest : List Char) :
    scanValue depth (writeString cs ++ '\n' :: rest) =
      some (.string (String.ofList cs), '\n' :: rest) := by
  have hstring := scanString?_writeString cs rest
  cases depth with
  | zero => rw [scanValue, hstring]
  | succ depth =>
    rw [scanValue.eq_def]
    dsimp only
    split
    · next heq =>
      rw [heq] at hstring
      cases hstring
    · next heq =>
      rw [heq] at hstring
      cases hstring
    · rw [hstring]

theorem skipSpace_writeString (cs rest : List Char) :
    skipSpace (' ' :: (writeString cs ++ rest)) = writeString cs ++ rest := by
  unfold writeString
  cases formOf cs <;> simp [skipSpace, isSpace]

/-- A line that does not start with a bracket is an assignment. -/
theorem scanStatement_assign {c : Char} (hc : c ≠ '[') (cs : List Char) :
    scanStatement (c :: cs) = (scanAssignment (scanValue nestingLimit) (c :: cs)).map
      fun result => (.assign result.1.1 result.1.2, result.2) := by
  unfold scanStatement
  split
  · next heq => exact absurd (List.cons.inj heq).1 hc
  · next heq => exact absurd (List.cons.inj heq).1 hc
  · cases scanAssignment (scanValue nestingLimit) (c :: cs) <;> rfl

/-- The line of a key and a value is read as the assignment of the value to the key. -/
theorem ReadAs.assign {key : String} (hkey : key.toList ≠ [])
    (hbare : ∀ d ∈ key.toList, isBare d = true) {written cs : List Char} {v : Value}
    {statements : List Statement} (h : ReadAs cs statements)
    (hspace : skipSpace (' ' :: (written ++ '\n' :: cs)) = written ++ '\n' :: cs)
    (hv : scanValue nestingLimit (written ++ '\n' :: cs) = some (v, '\n' :: cs)) :
    ReadAs ((key.toList ++ ' ' :: '=' :: ' ' :: written) ++ '\n' :: cs)
      (.assign [key] v :: statements) := by
  have hpath : scanPath (key.toList ++ ' ' :: '=' :: ' ' :: (written ++ '\n' :: cs)) =
      some ([key], '=' :: ' ' :: (written ++ '\n' :: cs)) := by
    rw [scanPath_bare (c := '=') hkey hbare (by simp [isBare]) rfl (by decide),
      String.ofList_toList]
  have hassign : scanAssignment (scanValue nestingLimit)
      (key.toList ++ ' ' :: '=' :: ' ' :: (written ++ '\n' :: cs)) =
        some (([key], v), '\n' :: cs) := by
    rw [scanAssignment, hpath]
    simp [after?, hspace, hv]
  obtain ⟨k, ks, hks⟩ := List.exists_cons_of_ne_nil hkey
  have hk : isBare k = true := hbare k (hks ▸ List.mem_cons_self)
  refine h.cons ?_ ?_ (by simp [hks])
  · rw [List.append_assoc, List.cons_append, List.cons_append, List.cons_append]
    rw [hks, List.cons_append] at hassign ⊢
    rw [scanStatement_assign (ne_of_isBare hk rfl), hassign]
    rfl
  · rw [hks]
    exact skipTrivia?_cons ⟨ne_of_isBare hk rfl, ne_of_isBare hk rfl, ne_of_isBare hk rfl,
      isSpace_of_isBare hk⟩ _

theorem ReadAs.field {key text : String} (hkey : key.toList ≠ [])
    (hbare : ∀ d ∈ key.toList, isBare d = true) {cs : List Char} {statements : List Statement}
    (h : ReadAs cs statements) :
    ReadAs (writeField key text ++ cs) (.assign [key] (.string text) :: statements) := by
  have happend : writeField key text ++ cs =
      (key.toList ++ ' ' :: '=' :: ' ' :: writeString text.toList) ++ '\n' :: cs := by
    simp [writeField]
  have hv := scanValue_writeString nestingLimit text.toList cs
  rw [String.ofList_toList] at hv
  rw [happend]
  exact h.assign hkey hbare (skipSpace_writeString _ _) hv

/-- The line that opens a table of an array is read as that. -/
theorem ReadAs.element {key : String} (hkey : key.toList ≠ [])
    (hbare : ∀ d ∈ key.toList, isBare d = true) {cs : List Char} {statements : List Statement}
    (h : ReadAs cs statements) :
    ReadAs ("[[".toList ++ key.toList ++ "]]\n".toList ++ cs) (.element [key] :: statements) := by
  have happend : "[[".toList ++ key.toList ++ "]]\n".toList ++ cs =
      ('[' :: '[' :: (key.toList ++ [']', ']'])) ++ '\n' :: cs := by simp
  have hpath : scanPath (key.toList ++ ']' :: ']' :: '\n' :: cs) =
      some ([key], ']' :: ']' :: '\n' :: cs) := by
    rw [scanPath_bare (c := ']') hkey hbare (by simp [isBare]) rfl (by decide),
      String.ofList_toList]
  rw [happend]
  refine h.cons ?_ (skipTrivia?_cons (by decide) _) (by simp)
  rw [List.cons_append, List.cons_append, List.append_assoc, List.cons_append, List.cons_append,
    List.nil_append, scanStatement, hpath]
  simp [after?]

end ArtifactResolver.Toml
