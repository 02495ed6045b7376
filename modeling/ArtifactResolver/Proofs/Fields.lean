import ArtifactResolver.Proofs.Text.Blank
import ArtifactResolver.Selector
import Mathlib.Data.List.Basic
import Mathlib.Tactic.Push

/-!
# Texts of fields

Coordinates and selectors are written as fields with colons between them. A text is read as one
exactly if, without the blanks around it, it is a coordinate of three fields or a selector of two or
three. The last field of a selector is a constraint, and there is no field that cannot be read as
one: it might be blank to Unicode but not to ASCII, but then it would have been trimmed away.
-/

namespace ArtifactResolver

variable {text : String} {fields : List String}

/-- A text that can stand between colons. -/
def IsField (text : String) : Prop :=
  text ≠ "" ∧ ∀ c ∈ text.toList, c ≠ ':' ∧ Text.isAsciiBlank c = false

/-- The text is made of fields with colons between them. -/
def ConsistsOf (text : String) (fields : List String) : Prop :=
  (∀ field ∈ fields, IsField field) ∧ text = ":".intercalate fields

/-- The text without the blanks around it. -/
def stripped (text : String) : String := String.ofList (Text.trim text.toList)

theorem isField_iff : isField text.toList = true ↔ IsField text := by
  unfold isField IsField isFieldBoundary
  simp [← String.toList_eq_nil_iff]

instance (text : String) : Decidable (IsField text) := decidable_of_iff _ isField_iff

instance (text : String) (fields : List String) : Decidable (ConsistsOf text fields) :=
  decidable_of_iff ((fields.all fun field => isField field.toList) = true ∧
    text = ":".intercalate fields) (by simp [ConsistsOf, isField_iff])

theorem isField_ofList_iff {cs : List Char} : IsField (String.ofList cs) ↔
    cs ≠ [] ∧ ∀ c ∈ cs, c ≠ ':' ∧ Text.isAsciiBlank c = false := by
  unfold IsField
  rw [String.toList_ofList]
  simp [← String.toList_eq_nil_iff]

theorem IsField.toList_ne_nil (h : IsField text) : text.toList ≠ [] :=
  String.toList_eq_nil_iff.not.2 h.1

theorem IsField.no_colon (h : IsField text) : ':' ∉ text.toList := fun hcolon =>
  (h.2 ':' hcolon).1 rfl

theorem isTrimmed_stripped (text : String) : Text.IsTrimmed (stripped text).toList := by
  unfold stripped
  rw [String.toList_ofList]
  exact Text.isTrimmed_trim _

/-- The fields of a text are found, and nothing else is. -/
theorem fields?_eq_some_iff (hne : fields ≠ []) :
    fields? text = some fields ↔ ConsistsOf (stripped text) fields := by
  unfold fields? ConsistsOf stripped
  dsimp only
  generalize Text.trim text.toList = cs
  constructor
  · intro h
    split at h
    · next hall =>
      obtain rfl := Option.some.inj h
      refine ⟨fun field hfield => ?_, ?_⟩
      · obtain ⟨piece, hpiece, rfl⟩ := List.mem_map.1 hfield
        rw [← isField_iff, String.toList_ofList]
        exact List.all_eq_true.1 hall piece hpiece
      · rw [← String.toList_inj, String.toList_ofList, String.toList_intercalate, List.map_map]
        have hback : String.toList ∘ String.ofList = id := by
          funext piece
          exact String.toList_ofList
        rw [hback, List.map_id]
        exact (List.intercalate_splitOn ':').symm
    · cases h
  · rintro ⟨hfields, htext⟩
    have hcs : cs = [':'].intercalate (fields.map String.toList) := by
      rw [← String.toList_ofList (l := cs), htext, String.toList_intercalate]
      rfl
    have hsplit : cs.splitOn ':' = fields.map String.toList := by
      rw [hcs]
      refine List.splitOn_intercalate ':' (fun piece hpiece => ?_) (by simpa using hne)
      obtain ⟨field, hfield, rfl⟩ := List.mem_map.1 hpiece
      exact (hfields field hfield).no_colon
    rw [hsplit, if_pos, List.map_map]
    · simp [Function.comp_def]
    · refine List.all_eq_true.2 fun piece hpiece => ?_
      obtain ⟨field, hfield, rfl⟩ := List.mem_map.1 hpiece
      exact isField_iff.2 (hfields field hfield)

theorem toList_three (first second third : String) :
    (":".intercalate [first, second, third]).toList =
      first.toList ++ ':' :: (second.toList ++ ':' :: third.toList) := by
  simp

/-- A text of fields starts as its first one does. -/
theorem head?_intercalate {first : String} (rest : List String) (h : IsField first) :
    (":".intercalate (first :: rest)).toList.head? = first.toList.head? := by
  obtain ⟨c, cs, hc⟩ := List.exists_cons_of_ne_nil h.toList_ne_nil
  rw [String.toList_intercalate, List.map_cons, hc]
  cases rest with
  | nil => simp
  | cons second rest => simp [List.intercalate]

/-- A text of three fields ends as its last one does. -/
theorem getLast?_three (first second : String) {third : String} (h : IsField third) :
    (":".intercalate [first, second, third]).toList.getLast? = third.toList.getLast? := by
  have hchars : (":".intercalate [first, second, third]).toList =
      (first.toList ++ ':' :: (second.toList ++ [':'])) ++ third.toList := by
    simp
  rw [hchars, List.getLast?_append_of_ne_nil _ h.toList_ne_nil]

/-! ## Coordinates -/

namespace Coordinate

theorem display_eq (c : Coordinate) : c.display = ":".intercalate [c.group, c.name, c.version] := by
  rw [← String.toList_inj, toList_three]
  simp [display, toString]

theorem parse_eq_ok_iff {c : Coordinate} :
    parse text = .ok c ↔ ConsistsOf (stripped text) [c.group, c.name, c.version] := by
  rw [← fields?_eq_some_iff (List.cons_ne_nil _ _)]
  unfold parse
  split
  · next group name version h =>
    rw [h, Except.ok.injEq]
    constructor
    · rintro rfl
      rfl
    · intro hfields
      obtain ⟨group', name', version'⟩ := c
      simpa using hfields
  · next hother =>
    constructor
    · intro h
      cases h
    · intro h
      exact absurd h (hother _ _ _)

theorem parse_eq_error_iff {e : ParseError} : parse text = .error e ↔
    e = .invalidCoordinate text ∧
      ∀ group name version, ¬ ConsistsOf (stripped text) [group, name, version] := by
  have hfields : ∀ group name version,
      ConsistsOf (stripped text) [group, name, version] ↔
        fields? text = some [group, name, version] := fun _ _ _ =>
    (fields?_eq_some_iff (List.cons_ne_nil _ _)).symm
  simp only [hfields]
  unfold parse
  split
  · next group name version h => simp [h]
  · next hother =>
    constructor
    · intro h
      exact ⟨(Except.error.inj h).symm, hother⟩
    · rintro ⟨rfl, _⟩
      rfl

end Coordinate

/-! ## Selectors -/

theorem Constraint.exists_ofTrimmed? {cs : List Char} (h : cs ≠ []) :
    ∃ k, ofTrimmed? cs = some k := by
  unfold ofTrimmed?
  rw [List.isEmpty_eq_false_iff.2 h, if_neg Bool.false_ne_true]
  split
  · exact ⟨_, rfl⟩
  · split
    · exact ⟨_, rfl⟩
    · exact ⟨_, rfl⟩

/-- The last field ends where the text ends, so it is not all blank. -/
theorem exists_constraint {group name third : String}
    (h : ConsistsOf (stripped text) [group, name, third]) :
    ∃ k, Constraint.parse third = .ok k := by
  have hthird : IsField third := h.1 third (by simp)
  have hend := (isTrimmed_stripped text).2
  rw [h.2, getLast?_three _ _ hthird] at hend
  obtain ⟨last, hlast⟩ : ∃ last, third.toList.getLast? = some last :=
    Option.ne_none_iff_exists'.1 (mt List.getLast?_eq_none_iff.1 hthird.toList_ne_nil)
  have hblank : Text.isBlank last = false := by
    rw [hlast] at hend
    simpa using hend
  have hne : Text.trim third.toList ≠ [] := Text.trim_ne_nil (List.mem_of_getLast? hlast) hblank
  obtain ⟨k, hk⟩ := Constraint.exists_ofTrimmed? hne
  refine ⟨k, ?_⟩
  unfold Constraint.parse
  rw [hk]

namespace Selector

theorem parse_of_two {group name : String} (h : ConsistsOf (stripped text) [group, name]) :
    parse text = .ok ⟨group, name, .latest⟩ := by
  unfold parse
  rw [(fields?_eq_some_iff (List.cons_ne_nil _ _)).2 h]

theorem parse_of_three {group name third : String} {k : Constraint}
    (h : ConsistsOf (stripped text) [group, name, third]) (hk : Constraint.parse third = .ok k) :
    parse text = .ok ⟨group, name, k⟩ := by
  unfold parse
  rw [(fields?_eq_some_iff (List.cons_ne_nil _ _)).2 h]
  dsimp only
  rw [hk]
  rfl

/-- The text is made of two fields or of three. -/
theorem parse_cases (text : String) :
    (∃ group name, ConsistsOf (stripped text) [group, name] ∧
      parse text = .ok ⟨group, name, .latest⟩) ∨
    (∃ group name third k, ConsistsOf (stripped text) [group, name, third] ∧
      Constraint.parse third = .ok k ∧ parse text = .ok ⟨group, name, k⟩) ∨
    ((∀ group name, ¬ ConsistsOf (stripped text) [group, name]) ∧
      (∀ group name third, ¬ ConsistsOf (stripped text) [group, name, third]) ∧
      parse text = .error (.invalidSelector text)) := by
  by_cases htwo : ∃ group name, ConsistsOf (stripped text) [group, name]
  · obtain ⟨group, name, h⟩ := htwo
    exact Or.inl ⟨group, name, h, parse_of_two h⟩
  by_cases hthree : ∃ group name third, ConsistsOf (stripped text) [group, name, third]
  · obtain ⟨group, name, third, h⟩ := hthree
    obtain ⟨k, hk⟩ := exists_constraint h
    exact Or.inr (Or.inl ⟨group, name, third, k, h, hk, parse_of_three h hk⟩)
  · push Not at htwo hthree
    refine Or.inr (Or.inr ⟨htwo, hthree, ?_⟩)
    unfold parse
    split
    · next group name h =>
      exact absurd ((fields?_eq_some_iff (List.cons_ne_nil _ _)).1 h) (htwo group name)
    · next group name third h =>
      exact absurd ((fields?_eq_some_iff (List.cons_ne_nil _ _)).1 h) (hthree group name third)
    · rfl

theorem parse_eq_ok_iff {s : Selector} : parse text = .ok s ↔
    (ConsistsOf (stripped text) [s.group, s.name] ∧ s.constraint = .latest) ∨
      ∃ third, ConsistsOf (stripped text) [s.group, s.name, third] ∧
        Constraint.parse third = .ok s.constraint := by
  constructor
  · intro hs
    rcases parse_cases text with ⟨group, name, h, hparse⟩ |
      ⟨group, name, third, k, h, hk, hparse⟩ | ⟨_, _, hparse⟩
    · obtain rfl := Except.ok.inj (hparse.symm.trans hs)
      exact Or.inl ⟨h, rfl⟩
    · obtain rfl := Except.ok.inj (hparse.symm.trans hs)
      exact Or.inr ⟨third, h, hk⟩
    · rw [hparse] at hs
      cases hs
  · rintro (⟨h, hlatest⟩ | ⟨third, h, hk⟩)
    · rw [parse_of_two h, ← hlatest]
    · rw [parse_of_three h hk]

theorem parse_eq_error_iff {e : ParseError} : parse text = .error e ↔
    e = .invalidSelector text ∧
      (∀ group name, ¬ ConsistsOf (stripped text) [group, name]) ∧
      ∀ group name third, ¬ ConsistsOf (stripped text) [group, name, third] := by
  rcases parse_cases text with ⟨group, name, h, hparse⟩ |
    ⟨group, name, third, k, h, hk, hparse⟩ | ⟨htwo, hthree, hparse⟩
  · rw [hparse]
    constructor
    · intro he
      cases he
    · rintro ⟨_, htwo, _⟩
      exact absurd h (htwo group name)
  · rw [hparse]
    constructor
    · intro he
      cases he
    · rintro ⟨_, _, hthree⟩
      exact absurd h (hthree group name third)
  · rw [hparse, Except.error.injEq, eq_comm]
    exact (and_iff_left ⟨htwo, hthree⟩).symm

end Selector

/-- A text is read as a coordinate exactly if, without the blanks around it, it is made of three
fields, and this is how the coordinate is displayed. It is read as a selector exactly if it is made
of two fields or of three, where the third one can always be read as a constraint. A text that is
refused is reported as it was given. -/
theorem read_by_fields (text : String) :
    ((∃ before after, text.toList = before ++ (stripped text).toList ++ after ∧
      before.all Text.isBlank = true ∧ after.all Text.isBlank = true) ∧
      Text.IsTrimmed (stripped text).toList) ∧
    (∀ c, Coordinate.parse text = .ok c ↔
      ConsistsOf (stripped text) [c.group, c.name, c.version]) ∧
    (∀ c, Coordinate.parse text = .ok c → c.display = stripped text) ∧
    (∀ e, Coordinate.parse text = .error e ↔ e = .invalidCoordinate text ∧
      ∀ group name version, ¬ ConsistsOf (stripped text) [group, name, version]) ∧
    (∀ s, Selector.parse text = .ok s ↔
      (ConsistsOf (stripped text) [s.group, s.name] ∧ s.constraint = .latest) ∨
      ∃ third, ConsistsOf (stripped text) [s.group, s.name, third] ∧
        Constraint.parse third = .ok s.constraint) ∧
    (∀ group name third, ConsistsOf (stripped text) [group, name, third] →
      ∃ k, Constraint.parse third = .ok k) ∧
    ∀ e, Selector.parse text = .error e ↔ e = .invalidSelector text ∧
      (∀ group name, ¬ ConsistsOf (stripped text) [group, name]) ∧
      ∀ group name third, ¬ ConsistsOf (stripped text) [group, name, third] := by
  refine ⟨?_, fun _ => Coordinate.parse_eq_ok_iff, fun c h => ?_,
    fun _ => Coordinate.parse_eq_error_iff, fun _ => Selector.parse_eq_ok_iff,
    fun _ _ _ => exists_constraint, fun _ => Selector.parse_eq_error_iff⟩
  · refine ⟨?_, isTrimmed_stripped text⟩
    unfold stripped
    rw [String.toList_ofList]
    exact Text.exists_eq_trim _
  · rw [Coordinate.display_eq, (Coordinate.parse_eq_ok_iff.1 h).2]

/-- Blanks around a text are ignored, also those that are not ASCII. Such a blank may stand inside a
field, where a constraint is read without it; an ASCII blank may not. -/
theorem texts_with_blanks_read :
    Coordinate.parse "\u00a0g:lib:1.0\n" = .ok ⟨"g", "lib", "1.0"⟩ ∧
    Selector.parse "g:lib:\u00a01.+" = .ok ⟨"g", "lib", .startingWith "1."⟩ ∧
    ∀ group name third, ¬ ConsistsOf (stripped " g:lib:1. +") [group, name, third] := by
  obtain ⟨_, hcoordinate, _⟩ := read_by_fields "\u00a0g:lib:1.0\n"
  obtain ⟨_, _, _, _, hselector, _⟩ := read_by_fields "g:lib:\u00a01.+"
  obtain ⟨_, _, _, _, _, _, hrefused⟩ := read_by_fields " g:lib:1. +"
  refine ⟨(hcoordinate _).2 (by decide +kernel),
    (hselector _).2 (Or.inr ⟨"\u00a01.+", by decide +kernel, by decide +kernel⟩), ?_⟩
  exact ((hrefused (.invalidSelector " g:lib:1. +")).1 (by decide +kernel)).2.2

end ArtifactResolver
