import ArtifactResolver.Proofs.Cache.Identity
import ArtifactResolver.Proofs.Repository.Remote
import ArtifactResolver.RepositoryList
import Mathlib.Data.List.Nodup

/-!
# Names in a list of repositories

The entries of a repository are kept apart from those of others by its name alone, so a list of
repositories is accepted if every name can do that: none is empty, and none occurs twice. Otherwise
the list is refused for the first name that cannot. Whatever the accepted names are made of, no key
of one repository then is a key of another one, nor a path to one.
-/

namespace ArtifactResolver.RepositoryList

variable {list before rest : List Definition} {d : Definition} {e : ParseError}

/-! ## Names at fault -/

/-- Every repository has a name, and no two have the same. -/
structure Named (list : List Definition) : Prop where
  ne_empty : ∀ d ∈ list, d.name ≠ ""
  nodup : (list.map (·.name)).Nodup

/-- What is wrong with the name of a repository that stands behind others. -/
inductive NameFault (before : List Definition) (d : Definition) : ParseError → Prop where
  /-- It is empty. -/
  | unnamed (h : d.name = "") : NameFault before d (.missingKey "name")
  /-- It is the name of an earlier one. -/
  | repeated (h : d.name ∈ before.map (·.name)) : NameFault before d (.duplicateRepository d.name)

/-- What is wrong with the first repository, behind the given ones, whose name is at fault. -/
def FirstFault (before list : List Definition) (e : ParseError) : Prop :=
  ∃ front d after, list = front ++ d :: after ∧ Named (before ++ front) ∧
    NameFault (before ++ front) d e

theorem named_nil : Named [] :=
  ⟨fun _ hd => absurd hd List.not_mem_nil, List.nodup_nil⟩

theorem Named.left (h : Named (before ++ rest)) : Named before where
  ne_empty d hd := h.ne_empty d (List.mem_append_left _ hd)
  nodup := (List.map_append ▸ h.nodup).of_append_left

/-- Names stay in order as long as the next one is not at fault. -/
theorem named_concat_iff :
    Named (before ++ [d]) ↔ Named before ∧ d.name ≠ "" ∧ d.name ∉ before.map (·.name) := by
  have hnames : (before ++ [d]).map (·.name) = (before.map (·.name)).concat d.name := by
    rw [List.map_append, List.concat_eq_append]
    rfl
  constructor
  · intro h
    have hnodup := h.nodup
    rw [hnames, List.nodup_concat] at hnodup
    exact ⟨h.left, h.ne_empty d (List.mem_append_right _ List.mem_cons_self), hnodup.1⟩
  · rintro ⟨h, hne, hnew⟩
    refine ⟨fun d' hd' => ?_, ?_⟩
    · rcases List.mem_append.1 hd' with hd' | hd'
      · exact h.ne_empty d' hd'
      · exact List.mem_singleton.1 hd' ▸ hne
    · rw [hnames, List.nodup_concat]
      exact ⟨hnew, h.nodup⟩

theorem NameFault.not_named (h : NameFault before d e) : ¬ Named (before ++ [d]) := by
  rw [named_concat_iff]
  rintro ⟨_, hne, hnew⟩
  cases h with
  | unnamed h => exact hne h
  | repeated h => exact hnew h

theorem not_firstFault_nil : ¬ FirstFault before [] e := by
  rintro ⟨front, d, after, hlist, _⟩
  cases front <;> cases hlist

/-- The first fault is that of the next name, or, as long as this is in order, a later one. -/
theorem firstFault_cons_iff (hb : Named before) : FirstFault before (d :: rest) e ↔
    NameFault before d e ∨ FirstFault (before ++ [d]) rest e := by
  constructor
  · rintro ⟨front, d', after, hlist, hnamed, hfault⟩
    cases front with
    | nil =>
      obtain ⟨rfl, rfl⟩ := List.cons.inj hlist
      exact Or.inl (List.append_nil before ▸ hfault)
    | cons d'' front =>
      obtain ⟨rfl, rfl⟩ := List.cons.inj hlist
      rw [List.append_cons] at hnamed hfault
      exact Or.inr ⟨front, d', after, rfl, hnamed, hfault⟩
  · rintro (hfault | ⟨front, d', after, rfl, hnamed, hfault⟩)
    · rw [← List.append_nil before] at hb hfault
      exact ⟨[], d, rest, rfl, hb, hfault⟩
    · rw [← List.append_cons] at hnamed hfault
      exact ⟨d :: front, d', after, rfl, hnamed, hfault⟩

theorem FirstFault.named (h : FirstFault before list e) : Named before := by
  obtain ⟨_, _, _, _, hnamed, _⟩ := h
  exact hnamed.left

/-! ## The check -/

/-- The names are checked one by one, with those of the earlier ones at hand. -/
theorem nameFault?_eq_some_iff {seen : List String} (hb : Named before)
    (hseen : ∀ name, name ∈ seen ↔ name ∈ before.map (·.name)) :
    nameFault? seen list = some e ↔ FirstFault before list e := by
  induction list generalizing before seen with
  | nil => exact ⟨fun h => absurd h (by simp [nameFault?]), fun h => absurd h not_firstFault_nil⟩
  | cons d rest ih =>
    rw [nameFault?, firstFault_cons_iff hb]
    by_cases hempty : d.name = ""
    · rw [if_pos hempty, Option.some.injEq]
      constructor
      · rintro rfl
        exact Or.inl (.unnamed hempty)
      · rintro (hfault | hlater)
        · cases hfault with
          | unnamed => rfl
          | repeated hmem =>
            obtain ⟨d', hd', hname⟩ := List.mem_map.1 hmem
            exact absurd (hname.trans hempty) (hb.ne_empty d' hd')
        · exact absurd hlater.named (NameFault.unnamed hempty).not_named
    · rw [if_neg hempty]
      by_cases hmem : d.name ∈ seen
      · rw [if_pos hmem, Option.some.injEq]
        have hrepeated := (hseen d.name).1 hmem
        constructor
        · rintro rfl
          exact Or.inl (.repeated hrepeated)
        · rintro (hfault | hlater)
          · cases hfault with
            | unnamed h => exact absurd h hempty
            | repeated => rfl
          · exact absurd hlater.named (NameFault.repeated hrepeated).not_named
      · rw [if_neg hmem]
        have hnew : d.name ∉ before.map (·.name) := fun h => hmem ((hseen d.name).2 h)
        have hnamed : Named (before ++ [d]) := named_concat_iff.2 ⟨hb, hempty, hnew⟩
        rw [ih hnamed fun name => by simp [hseen name, or_comm]]
        refine ⟨Or.inr, fun h => h.resolve_left fun hfault => hfault.not_named hnamed⟩

/-- A list is in order as a whole, or some name in it is the first one at fault. -/
theorem named_or_firstFault (hb : Named before) (list : List Definition) :
    Named (before ++ list) ∨ ∃ e, FirstFault before list e := by
  induction list generalizing before with
  | nil => exact Or.inl ((List.append_nil before).symm ▸ hb)
  | cons d rest ih =>
    by_cases hnamed : Named (before ++ [d])
    · rcases ih hnamed with hall | ⟨e, hlater⟩
      · exact Or.inl (List.append_cons before d rest ▸ hall)
      · exact Or.inr ⟨e, (firstFault_cons_iff hb).2 (Or.inr hlater)⟩
    · have hfault : ∃ e, NameFault before d e := by
        by_contra hnone
        refine hnamed (named_concat_iff.2 ⟨hb, fun hempty => ?_, fun hmem => ?_⟩)
        · exact hnone ⟨_, .unnamed hempty⟩
        · exact hnone ⟨_, .repeated hmem⟩
      obtain ⟨e, hfault⟩ := hfault
      exact Or.inr ⟨e, (firstFault_cons_iff hb).2 (Or.inl hfault)⟩

theorem FirstFault.not_named (h : FirstFault [] list e) : ¬ Named list := by
  obtain ⟨front, d, after, rfl, _, hfault⟩ := h
  intro hnamed
  rw [List.append_cons] at hnamed
  exact hfault.not_named hnamed.left

theorem check_eq_error_iff : check list = .error e ↔ FirstFault [] list e := by
  have hfault : nameFault? [] list = some e ↔ FirstFault [] list e :=
    nameFault?_eq_some_iff named_nil fun _ => Iff.rfl
  rw [← hfault, check]
  cases nameFault? [] list <;> simp

theorem check_eq_ok_iff {accepted : List Definition} :
    check list = .ok accepted ↔ accepted = list ∧ Named list := by
  rcases named_or_firstFault named_nil list with hnamed | ⟨e, hfault⟩
  · cases hcheck : check list with
    | error e => exact absurd hnamed (check_eq_error_iff.1 hcheck).not_named
    | ok accepted' =>
      have hsame : accepted' = list := by
        rw [check] at hcheck
        split at hcheck
        · cases hcheck
        · exact (Except.ok.inj hcheck).symm
      subst hsame
      exact ⟨fun h => ⟨(Except.ok.inj h).symm, hnamed⟩, fun h => congrArg _ h.1.symm⟩
  · rw [check_eq_error_iff.2 hfault]
    constructor
    · intro h
      cases h
    · rintro ⟨_, hnamed⟩
      exact absurd hnamed hfault.not_named

/-! ## Keys -/

/-- Whatever is asked of both repositories, the keys are different, and neither leads on to the
other as a path. -/
def KeptApart (d d' : Definition) : Prop :=
  ∀ asked asked' : Cache.Inquiry,
    (asked.key d.name).text ≠ (asked'.key d'.name).text ∧
      ¬ (asked.key d.name).parts <+: (asked'.key d'.name).parts ∧
      ¬ (asked'.key d'.name).parts <+: (asked.key d.name).parts

theorem keptApart_iff {d d' : Definition} : KeptApart d d' ↔ d.name ≠ d'.name := by
  constructor
  · intro h hname
    have hsame := (h (.listing ⟨"g", "m", .latest⟩) (.listing ⟨"g", "m", .latest⟩)).1
    exact hsame (by rw [hname])
  · intro hne asked asked'
    rw [asked.key_eq, asked'.key_eq]
    have htext : (Cache.Key.ofRequest d.name asked.request).text ≠
        (Cache.Key.ofRequest d'.name asked'.request).text :=
      fun h => hne (Cache.Key.text_inj.1 h).1
    exact ⟨htext, fun h => htext (Cache.Key.parts_prefix_iff.1 h),
      fun h => htext (Cache.Key.parts_prefix_iff.1 h).symm⟩

/-- Names are different exactly if they keep the entries of all repositories apart. -/
theorem pairwise_keptApart_iff : list.Pairwise KeptApart ↔ (list.map (·.name)).Nodup := by
  rw [List.Nodup, List.pairwise_map]
  exact ⟨fun h => h.imp keptApart_iff.1, fun h => h.imp keptApart_iff.2⟩

/-! ## Texts -/

/-- The list in a text, before its names are checked. -/
def decode (text : String) : Except ParseError (List Definition) := do
  let entries ← (Toml.parse text).mapError .toml
  (fields.readAll entries).mapError .toml

theorem parse_eq (text : String) : parse text = decode text >>= check := by
  rw [parse, decode]
  cases (Toml.parse text).mapError ParseError.toml <;> rfl

theorem parse_of_decode {text : String} (h : decode text = .ok list) : parse text = check list := by
  rw [parse_eq, h]
  rfl

/-- The list in a text is accepted as it is exactly if all repositories have names and these are
different, which means that no key of one of them is a key of another one or leads on to it.
Otherwise the first repository decides whose name is empty or that of an earlier one. -/
theorem accepted_iff_kept_apart (list : List Definition) :
    (∀ text, decode text = .ok list → parse text = check list) ∧
    (∀ accepted, check list = .ok accepted ↔ accepted = list ∧ Named list) ∧
    (∀ e, check list = .error e ↔ ∃ front d after, list = front ++ d :: after ∧ Named front ∧
      NameFault front d e) ∧
    (Named list ↔ (∀ d ∈ list, d.name ≠ "") ∧ list.Pairwise KeptApart) := by
  refine ⟨fun _ => parse_of_decode, fun _ => check_eq_ok_iff, fun _ => check_eq_error_iff, ?_⟩
  rw [pairwise_keptApart_iff]
  exact ⟨fun h => ⟨h.ne_empty, h.nodup⟩, fun h => ⟨h.1, h.2⟩⟩

/-! ## Odd names -/

/-- A list of repositories with these names. -/
def namedSo (names : List String) : List Definition :=
  names.map fun name => { name := name, url := "repo" }

/-- Its text. -/
def textOf (names : List String) : String :=
  String.join (names.map fun name => s!"[[repository]]\nname = \"{name}\"\nurl = \"repo\"\n")

/-- Names that differ in case only, or that would be alike as parts of a path. -/
def oddNames : List String := ["a/b", "A/b", "a%2Fb", ".."]

/-- They are accepted. With one of them twice and an empty one behind it, the second occurrence
decides. -/
theorem odd_names_accepted :
    parse (textOf oddNames) = .ok (namedSo oddNames) ∧
      (namedSo oddNames).Pairwise KeptApart ∧
      parse (textOf ["..", "..", ""]) = .error (.duplicateRepository "..") := by
  have hdecodes : decode (textOf oddNames) = .ok (namedSo oddNames) :=
    Repository.toOption_eq_some_iff.1 (by decide +kernel)
  obtain ⟨hparse, hok, _, hapart⟩ := accepted_iff_kept_apart (namedSo oddNames)
  have hnamed : Named (namedSo oddNames) := ⟨by decide, by decide⟩
  refine ⟨(hparse _ hdecodes).trans ((hok _).2 ⟨rfl, hnamed⟩), (hapart.1 hnamed).2, ?_⟩
  have hrepeats : decode (textOf ["..", "..", ""]) = .ok (namedSo ["..", "..", ""]) :=
    Repository.toOption_eq_some_iff.1 (by decide +kernel)
  obtain ⟨hparse', _, herror, _⟩ := accepted_iff_kept_apart (namedSo ["..", "..", ""])
  refine (hparse' _ hrepeats).trans ((herror _).2 ⟨namedSo [".."],
    { name := "..", url := "repo" }, namedSo [""], rfl, ⟨by decide, by decide⟩, ?_⟩)
  exact .repeated (by decide)

end ArtifactResolver.RepositoryList
