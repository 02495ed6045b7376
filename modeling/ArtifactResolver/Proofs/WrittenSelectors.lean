import ArtifactResolver.Format.Descriptor
import ArtifactResolver.Proofs.Fields

/-!
# Selectors that are read back

Not every selector can be read back from its written form: a version `latest` would be read as any
version, one that ends in `+` as the start of versions, and blanks at its ends would be lost. The
selectors that can be read back are those that were read from some text.
-/

namespace ArtifactResolver

variable {text : String}

/-! ## Constraints -/

namespace Constraint

variable {k : Constraint} {cs : List Char}

/-- The constraint is what its written form stands for behind a group and a name. -/
def IsCanonical : Constraint → Prop
  | latest => True
  | startingWith start => IsField start ∧ start.toList.head?.all (!Text.isBlank ·) = true
  | exact version => IsField version ∧ Text.IsTrimmed version.toList ∧
      version.toList.getLast? ≠ some '+' ∧
      version ∉ ["latest", "latest.integration", "latest.release"]

theorem mem_latestNames : cs ∈ latestNames ↔
    String.ofList cs = "+" ∨ String.ofList cs ∈ ["latest", "latest.integration", "latest.release"] := by
  simp [latestNames, ← String.toList_inj]

theorem ofTrimmed?_of_mem (h : cs ∈ latestNames) : ofTrimmed? cs = some latest := by
  unfold ofTrimmed?
  have hne : cs ≠ [] := by
    rintro rfl
    revert h
    decide
  rw [List.isEmpty_eq_false_iff.2 hne, if_neg Bool.false_ne_true,
    if_pos (List.contains_iff_mem.2 h)]

theorem ofTrimmed?_of_not_mem (hne : cs ≠ []) (h : cs ∉ latestNames) :
    ofTrimmed? cs = if cs.getLast? = some '+' then some (startingWith (String.ofList cs.dropLast))
      else some (exact (String.ofList cs)) := by
  unfold ofTrimmed?
  rw [List.isEmpty_eq_false_iff.2 hne, if_neg Bool.false_ne_true,
    if_neg (mt List.contains_iff_mem.1 h)]

theorem parse_of_isTrimmed (h : Text.IsTrimmed text.toList) (hk : ofTrimmed? text.toList = some k) :
    parse text = .ok k := by
  unfold parse
  rw [Text.trim_of_isTrimmed h, hk]

theorem toList_display_startingWith (start : String) :
    (startingWith start).display.toList = start.toList ++ ['+'] := by
  simp [display]

theorem isField_display (h : k.IsCanonical) : IsField k.display := by
  cases k with
  | latest => decide
  | startingWith start =>
    have hchars := toList_display_startingWith start
    rw [← String.ofList_toList (s := (startingWith start).display), isField_ofList_iff, hchars]
    refine ⟨by simp, fun c hc => ?_⟩
    rcases List.mem_append.1 hc with hc | hc
    · exact h.1.2 c hc
    · obtain rfl := List.mem_singleton.1 hc
      decide
  | exact version => exact h.1

theorem isTrimmed_display (h : k.IsCanonical) : Text.IsTrimmed k.display.toList := by
  cases k with
  | latest => decide
  | startingWith start =>
    rw [toList_display_startingWith]
    constructor
    · rw [List.head?_append_of_ne_nil _ h.1.toList_ne_nil]
      exact h.2
    · rw [List.getLast?_concat]
      decide
  | exact version => exact h.2.1

/-- A canonical constraint is read back. -/
theorem parse_display (h : k.IsCanonical) : parse k.display = .ok k := by
  refine parse_of_isTrimmed (isTrimmed_display h) ?_
  have hne := (isField_display h).toList_ne_nil
  cases k with
  | latest => exact ofTrimmed?_of_mem (by decide)
  | startingWith start =>
    have hdisplay := toList_display_startingWith start
    have hlast : (startingWith start).display.toList.getLast? = some '+' := by
      rw [hdisplay, List.getLast?_concat]
    have hnames : (startingWith start).display.toList ∉ latestNames := by
      intro hmem
      -- the only one of the names that ends like this is the one with nothing in front
      have hplus : ∀ cs ∈ latestNames, cs.getLast? = some '+' → cs = ['+'] := by decide
      have hstart := hplus _ hmem hlast
      rw [hdisplay] at hstart
      exact h.1.toList_ne_nil (List.append_left_eq_self.1 hstart)
    rw [ofTrimmed?_of_not_mem hne hnames, if_pos hlast, hdisplay,
      List.dropLast_concat, String.ofList_toList]
  | exact version =>
    obtain ⟨hfield, _, hlast, hversion⟩ := h
    have hnames : version.toList ∉ latestNames := by
      rw [mem_latestNames, String.ofList_toList]
      rintro (rfl | hmem)
      · exact hlast (by decide)
      · exact hversion hmem
    show ofTrimmed? version.toList = _
    rw [ofTrimmed?_of_not_mem hfield.toList_ne_nil hnames, if_neg hlast,
      String.ofList_toList]

/-- What is read from a field is canonical. -/
theorem isCanonical_of_parse (hfield : IsField text) (h : parse text = .ok k) : k.IsCanonical := by
  have htrimmed := Text.isTrimmed_trim text.toList
  have hchars : ∀ c ∈ Text.trim text.toList, c ≠ ':' ∧ Text.isAsciiBlank c = false :=
    fun c hc => hfield.2 c (Text.mem_of_mem_trim hc)
  have hk : ofTrimmed? (Text.trim text.toList) = some k := by
    unfold parse at h
    split at h
    · next k' hk' => rw [hk', Except.ok.inj h]
    · cases h
  generalize Text.trim text.toList = cs at htrimmed hchars hk
  have hne : cs ≠ [] := by
    rintro rfl
    cases hk
  by_cases hnames : cs ∈ latestNames
  · rw [ofTrimmed?_of_mem hnames] at hk
    obtain rfl := Option.some.inj hk
    trivial
  rw [ofTrimmed?_of_not_mem hne hnames] at hk
  rw [mem_latestNames] at hnames
  push Not at hnames
  split at hk
  · next hlast =>
    obtain rfl := Option.some.inj hk
    obtain ⟨start, rfl⟩ : ∃ start, cs = start ++ ['+'] := by
      obtain ⟨start, hstart⟩ := List.getLast?_eq_some_iff.1 hlast
      exact ⟨start, hstart⟩
    rw [List.dropLast_concat]
    have hstart : start ≠ [] := by
      rintro rfl
      exact hnames.1 rfl
    refine ⟨?_, ?_⟩
    · exact isField_ofList_iff.2 ⟨hstart, fun c hc => hchars c (List.mem_append_left _ hc)⟩
    · have hhead := htrimmed.1
      rw [List.head?_append_of_ne_nil _ hstart] at hhead
      rwa [String.toList_ofList]
  · next hlast =>
    obtain rfl := Option.some.inj hk
    unfold IsCanonical
    dsimp only
    rw [isField_ofList_iff, String.toList_ofList]
    exact ⟨⟨hne, hchars⟩, htrimmed, hlast, hnames.2⟩

end Constraint

/-! ## Selectors -/

namespace Selector

variable {s : Selector}

/-- The selector is what its written form stands for. -/
structure IsCanonical (s : Selector) : Prop where
  group : IsField s.group
  group_start : s.group.toList.head?.all (!Text.isBlank ·) = true
  name : IsField s.name
  constraint : s.constraint.IsCanonical

theorem display_eq (s : Selector) :
    s.display = ":".intercalate [s.group, s.name, s.constraint.display] := by
  rw [← String.toList_inj, toList_three]
  simp [display, toString]

/-- A canonical selector is written without blanks around it. -/
theorem stripped_display (h : s.IsCanonical) : stripped s.display = s.display := by
  have htrimmed : Text.IsTrimmed s.display.toList := by
    rw [display_eq]
    constructor
    · rw [head?_intercalate _ h.group]
      exact h.group_start
    · rw [getLast?_three _ _ (Constraint.isField_display h.constraint)]
      exact (Constraint.isTrimmed_display h.constraint).2
  unfold stripped
  rw [Text.trim_of_isTrimmed htrimmed, String.ofList_toList]

theorem parse_display (h : s.IsCanonical) : parse s.display = .ok s := by
  refine parse_of_three (k := s.constraint) ⟨?_, ?_⟩ (Constraint.parse_display h.constraint)
  · intro field hfield
    simp only [List.mem_cons, List.not_mem_nil, or_false] at hfield
    rcases hfield with rfl | rfl | rfl
    · exact h.group
    · exact h.name
    · exact Constraint.isField_display h.constraint
  · rw [stripped_display h, display_eq]

theorem isCanonical_of_parse (h : parse text = .ok s) : s.IsCanonical := by
  have hstart : ∀ rest, stripped text = ":".intercalate (s.group :: rest) → IsField s.group →
      s.group.toList.head?.all (!Text.isBlank ·) = true := by
    intro rest htext hgroup
    rw [← head?_intercalate rest hgroup, ← htext]
    exact (isTrimmed_stripped text).1
  rcases parse_eq_ok_iff.1 h with ⟨⟨hfields, htext⟩, hlatest⟩ | ⟨third, ⟨hfields, htext⟩, hk⟩
  · have hgroup := hfields s.group (by simp)
    refine ⟨hgroup, hstart _ htext hgroup, hfields s.name (by simp), ?_⟩
    rw [hlatest]
    trivial
  · have hgroup := hfields s.group (by simp)
    exact ⟨hgroup, hstart _ htext hgroup, hfields s.name (by simp),
      Constraint.isCanonical_of_parse (hfields third (by simp)) hk⟩

theorem parse_display_eq_ok_iff : parse s.display = .ok s ↔ s.IsCanonical :=
  ⟨isCanonical_of_parse, parse_display⟩

theorem selectorOfValue_eq_ok_iff :
    Descriptor.selectorOfValue (.string text) = .ok s ↔ parse text = .ok s := by
  unfold Descriptor.selectorOfValue
  rw [show Toml.Value.text (.string text) = .ok text from rfl]
  cases h : parse text with
  | ok s' => simp [Bind.bind, Except.bind, pure, Except.pure, h]
  | error e => simp [Bind.bind, Except.bind, throw, throwThe, MonadExceptOf.throw, h]

end Selector

/-- A selector is read back from its written form exactly if it is canonical, and what is read from
any text is canonical: reading what was read and written again changes nothing. The same goes for
selectors inside descriptors. -/
theorem read_back_iff_canonical :
    (∀ s : Selector, Selector.parse s.display = .ok s ↔ s.IsCanonical) ∧
    (∀ text s, Selector.parse text = .ok s →
      s.IsCanonical ∧ Selector.parse s.display = .ok s) ∧
    (∀ s : Selector, Descriptor.selectorOfValue (.string s.display) = .ok s ↔ s.IsCanonical) ∧
    ∀ text s, Descriptor.selectorOfValue (.string text) = .ok s →
      s.IsCanonical ∧ Descriptor.selectorOfValue (.string s.display) = .ok s := by
  have hread : ∀ text s, Selector.parse text = .ok s →
      s.IsCanonical ∧ Selector.parse s.display = .ok s := by
    intro text s h
    have hcanonical := Selector.isCanonical_of_parse h
    exact ⟨hcanonical, Selector.parse_display hcanonical⟩
  refine ⟨fun _ => Selector.parse_display_eq_ok_iff, hread, ?_, ?_⟩
  · intro s
    rw [Selector.selectorOfValue_eq_ok_iff, Selector.parse_display_eq_ok_iff]
  · intro text s h
    rw [Selector.selectorOfValue_eq_ok_iff] at h ⊢
    exact hread text s h

/-- A name of any version is read back as any version, although it is written in another way. The
version that has this name is not read back. -/
theorem any_version_read_back :
    (Selector.parse "\u00a0g:lib:latest.release\n" = .ok ⟨"g", "lib", .latest⟩ ∧
      Selector.parse (Selector.display ⟨"g", "lib", .latest⟩) = .ok ⟨"g", "lib", .latest⟩) ∧
    Selector.parse (Selector.display ⟨"g", "lib", .exact "latest.release"⟩) ≠
      .ok ⟨"g", "lib", .exact "latest.release"⟩ := by
  obtain ⟨hiff, hread, _, _⟩ := read_back_iff_canonical
  have hname : Selector.parse "\u00a0g:lib:latest.release\n" = .ok ⟨"g", "lib", .latest⟩ := by
    decide +kernel
  refine ⟨⟨hname, (hread _ _ hname).2⟩, fun h => ?_⟩
  have hcanonical := (hiff _).1 h
  exact hcanonical.constraint.2.2.2 (by decide)

end ArtifactResolver
