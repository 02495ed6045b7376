import ArtifactResolver.Format.Registry
import ArtifactResolver.Proofs.Layout.Reading

/-!
# Where version listings stand

A version listing is to stand in the directory that holds the versions of its module, which is the
descriptor pattern up to the path component with the version. Listings and descriptors fill in that
part of the pattern with different tokens: a listing knows the group and the name of a module only,
and leaves all others as they are written. So it stands beside the versions of every module just if
the pattern has none of these others there.
-/

namespace ArtifactResolver.Layout

/-! ## Brackets -/

/-- Whether the end of a text lies within brackets, none if a bracket opens within others or closes
none. The flag says whether the text starts within brackets. -/
def inBrackets? : Bool → List Char → Option Bool
  | within, [] => some within
  | within, c :: rest =>
    if c = '[' then if within then none else inBrackets? true rest
    else if c = ']' then if within then inBrackets? false rest else none
    else inBrackets? within rest

/-- The brackets of a text are closed and not nested. -/
def Bracketed (text : List Char) : Prop := inBrackets? false text = some false

instance (text : List Char) : Decidable (Bracketed text) :=
  inferInstanceAs (Decidable (inBrackets? false text = some false))

theorem inBrackets?_append (within : Bool) (text rest : List Char) :
    inBrackets? within (text ++ rest) =
      (inBrackets? within text).bind fun within => inBrackets? within rest := by
  induction text generalizing within with
  | nil => rfl
  | cons c text ih =>
    rw [List.cons_append, inBrackets?, inBrackets?]
    split
    · split
      · rfl
      · exact ih true
    · split
      · split
        · exact ih false
        · rfl
      · exact ih within

/-- Outside of brackets, text that opens none closes none either. -/
theorem outside_of_no_opening {text : List Char} {within : Bool} (h : '[' ∉ text)
    (hstate : inBrackets? false text = some within) : ']' ∉ text ∧ within = false := by
  induction text with
  | nil => exact ⟨List.not_mem_nil, (Option.some.inj hstate).symm⟩
  | cons c text ih =>
    rw [List.mem_cons, not_or] at h
    rw [inBrackets?, if_neg (Ne.symm h.1)] at hstate
    split at hstate
    · simp at hstate
    · next hclose =>
      obtain ⟨htext, hwithin⟩ := ih h.2 hstate
      exact ⟨by simpa [htext] using Ne.symm hclose, hwithin⟩

/-- Within brackets, text that closes none opens none either. -/
theorem inside_of_no_closing {text : List Char} {within : Bool} (h : ']' ∉ text)
    (hstate : inBrackets? true text = some within) : '[' ∉ text ∧ within = true := by
  induction text with
  | nil => exact ⟨List.not_mem_nil, (Option.some.inj hstate).symm⟩
  | cons c text ih =>
    rw [List.mem_cons, not_or] at h
    rw [inBrackets?] at hstate
    split at hstate
    · simp at hstate
    · next hopen =>
      rw [if_neg (Ne.symm h.1)] at hstate
      obtain ⟨htext, hwithin⟩ := ih h.2 hstate
      exact ⟨by simpa [htext] using Ne.symm hopen, hwithin⟩

theorem inBrackets?_unclosed {before rest : List Char} {within : Bool} (hbefore : '[' ∉ before)
    (hstate : inBrackets? false (before ++ '[' :: rest) = some within) :
    ']' ∉ before ∧ inBrackets? true rest = some within := by
  rw [inBrackets?_append] at hstate
  obtain ⟨state, hfirst, hrest⟩ := Option.bind_eq_some_iff.1 hstate
  obtain ⟨hclose, rfl⟩ := outside_of_no_opening hbefore hfirst
  exact ⟨hclose, hrest⟩

theorem inBrackets?_pair {before name after : List Char} {within : Bool} (hbefore : '[' ∉ before)
    (hname : ']' ∉ name)
    (hstate : inBrackets? false (before ++ '[' :: (name ++ ']' :: after)) = some within) :
    ']' ∉ before ∧ '[' ∉ name ∧ inBrackets? false after = some within := by
  obtain ⟨hclose, hinner⟩ := inBrackets?_unclosed hbefore hstate
  rw [inBrackets?_append] at hinner
  obtain ⟨state, hfirst, hrest⟩ := Option.bind_eq_some_iff.1 hinner
  obtain ⟨hopen, rfl⟩ := inside_of_no_closing hname hfirst
  exact ⟨hclose, hopen, hrest⟩

/-! ## Where a token can be seen -/

/-- A token as it is written. -/
def written (name : List Char) : List Char := '[' :: name ++ [']']

theorem infix_append_iff {c : Char} {part before after : List Char} (h : c ∉ before) :
    c :: part <:+: before ++ after ↔ c :: part <:+: after := by
  induction before with
  | nil => rfl
  | cons d before ih =>
    rw [List.mem_cons, not_or] at h
    rw [List.cons_append, List.infix_cons_iff, ih h.2, List.cons_prefix_cons]
    simp [h.1]

/-- A written token starts a text with just one other written token if it is that one. -/
theorem written_infix_iff {name other after : List Char} (hname : ']' ∉ name)
    (hother : ']' ∉ other) (hopen : '[' ∉ other) :
    written name <:+: written other ++ after ↔ name = other ∨ written name <:+: after := by
  have hnext : written name <:+: (other ++ [']']) ++ after ↔ written name <:+: after := by
    refine infix_append_iff fun hmem => ?_
    rcases List.mem_append.1 hmem with hmem | hmem
    · exact hopen hmem
    · simp at hmem
  have hfirst : written name <+: '[' :: ((other ++ [']']) ++ after) ↔ name = other := by
    rw [written, List.cons_append, List.cons_prefix_cons, List.append_assoc]
    constructor
    · rintro ⟨-, rest, hrest⟩
      rw [List.append_assoc] at hrest
      exact (split_at_first hname hother hrest).1
    · rintro rfl
      exact ⟨rfl, after, by simp⟩
  show written name <:+: '[' :: ((other ++ [']']) ++ after) ↔ _
  rw [List.infix_cons_iff, hfirst, hnext]

theorem not_infix_of_not_mem {name text : List Char} (h : ']' ∉ text) :
    ¬ written name <:+: text := by
  intro hseen
  exact h (hseen.subset (by simp [written]))

/-- In a text with brackets that are not nested, a token can be seen where it was written and is not
known. Values have no brackets of their own here. -/
theorem written_infix_render_iff {tokens : Tokens} {text name : List Char} {parts : List Segment}
    {within : Bool} (h : Divided '[' ']' .literal .token text parts)
    (hstate : inBrackets? false text = some within)
    (hvalues : ∀ entry ∈ tokens, ∀ value, entry.2 = some value → '[' ∉ value.toList)
    (hname : ']' ∉ name) :
    written name <:+: parts.flatMap (Segment.render tokens) ↔
      .token name ∈ parts ∧ tokens.value? name = none := by
  induction h with
  | @whole text hopen =>
    have hclose := (outside_of_no_opening hopen hstate).1
    have hnot : ¬ written name <:+: text := not_infix_of_not_mem hclose
    simpa [Segment.render] using hnot
  | @unclosed before rest hopen hrest =>
    have hclose := (inBrackets?_unclosed hopen hstate).1
    have hnot : ¬ written name <:+: before ++ '[' :: rest := by
      refine not_infix_of_not_mem fun hmem => ?_
      rcases List.mem_append.1 hmem with hmem | hmem
      · exact hclose hmem
      · simp [hrest] at hmem
    simpa [Segment.render] using hnot
  | @pair before other after parts hopen hother _ ih =>
    obtain ⟨-, hinner, hafter⟩ := inBrackets?_pair hopen hother hstate
    rw [List.flatMap_cons, List.flatMap_cons]
    have hskip : ∀ rest, written name <:+: before ++ rest ↔ written name <:+: rest :=
      fun rest => infix_append_iff hopen
    rw [Segment.render, hskip]
    have hmem : Segment.token name ∈ .literal before :: .token other :: parts ↔
        name = other ∨ .token name ∈ parts := by
      simp
    rw [hmem]
    cases hvalue : tokens.value? other with
    | none =>
      have hwritten : (Segment.token other).render tokens = written other := by
        rw [Segment.render, hvalue]
        rfl
      rw [hwritten, written_infix_iff hname hother hinner, ih hafter]
      constructor
      · rintro (rfl | ⟨hlater, hnone⟩)
        · exact ⟨Or.inl rfl, hvalue⟩
        · exact ⟨Or.inr hlater, hnone⟩
      · rintro ⟨rfl | hlater, hnone⟩
        · exact Or.inl rfl
        · exact Or.inr ⟨hlater, hnone⟩
    | some value =>
      have hplain : '[' ∉ (Segment.token other).render tokens := by
        obtain ⟨_, _, rfl, -⟩ := Tokens.value?_eq_some_iff.1 hvalue
        rw [Segment.render, hvalue]
        cases value with
        | none => exact List.not_mem_nil
        | some text => exact hvalues (String.ofList other, some text) (by simp) text rfl
      have hskip : ∀ rest, written name <:+: (Segment.token other).render tokens ++ rest ↔
          written name <:+: rest := fun rest => infix_append_iff hplain
      rw [hskip, ih hafter]
      constructor
      · rintro ⟨hlater, hnone⟩
        exact ⟨Or.inr hlater, hnone⟩
      · rintro ⟨rfl | hlater, hnone⟩
        · rw [hvalue] at hnone
          cases hnone
        · exact ⟨hlater, hnone⟩

/-- With nothing known, a text is rendered as it is written. -/
theorem render_nil {text : List Char} {parts : List Segment}
    (h : Divided '[' ']' .literal .token text parts) :
    parts.flatMap (Segment.render []) = text := by
  induction h with
  | whole => simp [Segment.render]
  | unclosed => simp [Segment.render]
  | pair _ _ _ ih => simp [Segment.render, Tokens.value?, ih]

theorem written_infix_iff_mem {text name : List Char} {within : Bool}
    (hstate : inBrackets? false text = some within) (hname : ']' ∉ name) :
    written name <:+: text ↔ .token name ∈ segments text := by
  have h : written name <:+: (segments text).flatMap (Segment.render []) ↔
      .token name ∈ segments text ∧ Tokens.value? [] name = none :=
    written_infix_render_iff (divided_segments text) hstate (by simp) hname
  rw [render_nil (divided_segments text)] at h
  rw [h]
  exact and_iff_left rfl

/-! ## The directory of a module -/

theorem before?_eq_some {part text before : List Char} (hne : part ≠ [])
    (h : before? part text = some before) :
    before <+: text ∧ ¬ part <:+: before := by
  induction text generalizing before with
  | nil => simp [before?, hne] at h
  | cons c text ih =>
    rw [before?] at h
    split at h
    · obtain rfl := Option.some.inj h
      exact ⟨List.nil_prefix, fun hseen => hne (List.infix_nil.1 hseen)⟩
    · next hstart =>
      obtain ⟨rest, hrest, rfl⟩ := Option.map_eq_some_iff.1 h
      obtain ⟨hstarts, hnot⟩ := ih hrest
      have hcons : c :: rest <+: c :: text := List.cons_prefix_cons.2 ⟨rfl, hstarts⟩
      refine ⟨hcons, fun hseen => ?_⟩
      rcases List.infix_cons_iff.1 hseen with hfirst | hlater
      · exact hstart (List.isPrefixOf_iff_prefix.2 (hfirst.trans hcons))
      · exact hnot hlater

theorem uptoLastSlash_isPrefix (text : List Char) : uptoLastSlash text <+: text := by
  have hsuffix := List.dropWhile_suffix (l := text.reverse) (· != '/')
  have hstarts := List.reverse_prefix.2 hsuffix
  rwa [List.reverse_reverse] at hstarts

theorem getLast?_uptoLastSlash {text : List Char} {c : Char}
    (h : (uptoLastSlash text).getLast? = some c) : c = '/' := by
  rw [uptoLastSlash, List.getLast?_reverse] at h
  have hhead := List.head?_dropWhile_not (· != '/') text.reverse
  rw [h] at hhead
  simpa using hhead

/-- The directory of a module is the start of the pattern, up to a slash, and has no version. -/
theorem moduleDirectory_spec (pattern : List Char) :
    moduleDirectory pattern <+: pattern ∧
      (∀ c, (moduleDirectory pattern).getLast? = some c → c = '/') ∧
      ¬ written "revision".toList <:+: moduleDirectory pattern := by
  rw [moduleDirectory]
  split
  · next before hbefore =>
    obtain ⟨hstarts, hnot⟩ := before?_eq_some (by simp) hbefore
    refine ⟨(uptoLastSlash_isPrefix before).trans hstarts, fun c => getLast?_uptoLastSlash, ?_⟩
    intro hseen
    exact hnot (hseen.trans (uptoLastSlash_isPrefix before).isInfix)
  · exact ⟨List.nil_prefix, by simp, by simp [written]⟩

/-! ## What a pattern starts with -/

variable {α : Type} {opening closing : Char} {outside inside : List Char → α}

/-- Text that opens nothing becomes part of what follows it. -/
theorem Divided.prepend {text rest : List Char} {parts : List α} (htext : opening ∉ text)
    (h : Divided opening closing outside inside rest parts) :
    ∃ first others, Divided opening closing outside inside (text ++ rest)
      (outside (text ++ first) :: others) := by
  have hnone : ∀ {before}, opening ∉ before → opening ∉ text ++ before := by
    intro before hbefore
    simp [htext, hbefore]
  cases h with
  | whole h => exact ⟨rest, [], .whole (hnone h)⟩
  | @unclosed before rest hbefore hrest =>
    refine ⟨before, [outside (opening :: rest)], ?_⟩
    rw [← List.append_assoc]
    exact .unclosed (hnone hbefore) hrest
  | @pair before between after parts hbefore hbetween hafter =>
    refine ⟨before, inside between :: parts, ?_⟩
    rw [← List.append_assoc]
    exact .pair (hnone hbefore) hbetween hafter

/-- What a pattern is rendered as starts with what a directory in it is rendered as with fewer
tokens, if the tokens in the directory mean the same. A name with a slash is no token, so the
directory may end within brackets. -/
theorem prefix_render {tokens tokens' : Tokens} {directory : List Char} {parts : List Segment}
    (h : Divided '[' ']' .literal .token directory parts)
    (hend : ∀ c, directory.getLast? = some c → c = '/')
    (hsame : ∀ name, .token name ∈ parts → tokens.value? name = tokens'.value? name)
    (hslash : ∀ name, '/' ∈ name → tokens'.value? name = none) (rest : List Char) :
    parts.flatMap (Segment.render tokens) <+:
      (segments (directory ++ rest)).flatMap (Segment.render tokens') := by
  induction h with
  | whole hopen =>
    obtain ⟨first, others, hdivided⟩ := (divided_segments rest).prepend hopen
    rw [segments_eq_iff.2 hdivided]
    simp [Segment.render, List.append_assoc]
  | @unclosed before inner hopen hclose =>
    have hinner : '/' ∈ inner := by
      cases hlast : inner.getLast? with
      | none =>
        obtain rfl := List.getLast?_eq_none_iff.1 hlast
        exact absurd (hend '[' (by simp)) (by decide)
      | some c =>
        obtain rfl := hend c (by simp [List.getLast?_append, List.getLast?_cons, hlast])
        exact List.mem_of_getLast? hlast
    rw [List.append_assoc, List.cons_append]
    cases hbreak : breakAt? ']' rest with
    | none =>
      have hrest : ']' ∉ inner ++ rest := by
        simp [hclose, not_mem_of_breakAt? hbreak]
      rw [segments_eq_iff.2 (.unclosed hopen hrest)]
      simp [Segment.render]
    | some split =>
      obtain ⟨more, after⟩ := split
      obtain ⟨rfl, hmore⟩ := eq_of_breakAt? hbreak
      have hname : ']' ∉ inner ++ more := by
        simp [hclose, hmore]
      have hvalue := hslash (inner ++ more) (List.mem_append_left _ hinner)
      rw [← List.append_assoc, segments_eq_iff.2 (.pair hopen hname (divided_segments after))]
      simp [Segment.render, hvalue]
  | @pair before name after parts hopen hclose _ ih =>
    have hafter : ∀ c, after.getLast? = some c → c = '/' := by
      intro c hlast
      exact hend c (by simp [List.getLast?_append, List.getLast?_cons, hlast])
    have hlater := ih hafter fun name hname => hsame name (by simp [hname])
    have hpattern : before ++ '[' :: (name ++ ']' :: after) ++ rest =
        before ++ '[' :: (name ++ ']' :: (after ++ rest)) := by
      simp
    have htoken : (Segment.token name).render tokens = (Segment.token name).render tokens' := by
      rw [Segment.render, Segment.render, hsame name (by simp)]
    rw [hpattern, segments_eq_iff.2 (.pair hopen hclose (divided_segments (after ++ rest)))]
    simp only [List.flatMap_cons, htoken]
    exact (List.prefix_append_right_inj _).2 ((List.prefix_append_right_inj _).2 hlater)

/-! ## Listings and descriptors -/

/-- The tokens that a descriptor location fills in and a listing location does not, apart from the
version. -/
def descriptorTokens : List (List Char) :=
  ["artifact", "type", "ext", "classifier"].map String.toList

theorem value?_artifactTokens (a : Artifact) {name : List Char}
    (h : name ∉ "revision".toList :: descriptorTokens) :
    (moduleTokens a.module.group a.module.name).value? name = (artifactTokens a).value? name := by
  have hne : ∀ text ∈ ["revision", "artifact", "type", "ext", "classifier"],
      (String.ofList name == text) = false := by
    intro text htext
    refine beq_false_of_ne ?_
    rintro rfl
    refine h ?_
    have hmem := List.mem_map_of_mem (f := String.toList) htext
    rwa [String.toList_ofList] at hmem
  simp only [List.forall_mem_cons] at hne
  obtain ⟨hrevision, hartifact, htype, hext, hclassifier, -⟩ := hne
  simp only [Tokens.value?, moduleTokens, artifactTokens, List.lookup_cons, hrevision, hartifact,
    htype, hext, hclassifier]

theorem value?_of_slash (a : Artifact) {name : List Char} (h : '/' ∈ name) :
    (artifactTokens a).value? name = none := by
  rw [Tokens.value?_eq_none_iff]
  intro entry hentry heq
  have hnone : ∀ entry ∈ artifactTokens a, '/' ∉ entry.1.toList := by
    simp [artifactTokens]
  refine hnone entry hentry ?_
  rwa [heq, String.toList_ofList]

theorem render_of_no_parentheses {pattern : List Char} (h : '(' ∉ pattern) (tokens : Tokens) :
    render tokens pattern = (segments pattern).flatMap (Segment.render tokens) := by
  rw [render, pieces_eq_iff.2 (.whole h)]
  simp [Piece.render]

section Listing

variable {pattern : List Char} (hbrackets : Bracketed pattern)
include hbrackets

theorem exists_inBrackets?_moduleDirectory :
    ∃ within, inBrackets? false (moduleDirectory pattern) = some within := by
  obtain ⟨⟨rest, hrest⟩, -⟩ := moduleDirectory_spec pattern
  have hstate : inBrackets? false pattern = some false := hbrackets
  rw [← hrest, inBrackets?_append] at hstate
  obtain ⟨within, hwithin, -⟩ := Option.bind_eq_some_iff.1 hstate
  exact ⟨within, hwithin⟩

variable (hparens : '(' ∉ pattern)
include hparens

/-- Where the directory has tokens that only a version or its files have values for, a listing shows
one of them and a descriptor does not. -/
theorem not_prefix_of_token {name : List Char} (hname : name ∈ descriptorTokens)
    (hmem : .token name ∈ segments (moduleDirectory pattern)) :
    ¬ render (moduleTokens "" "") (moduleDirectory pattern) <+:
      render (artifactTokens (Descriptor.artifactOf ⟨"", "", ""⟩)) pattern := by
  obtain ⟨within, hwithin⟩ := exists_inBrackets?_moduleDirectory hbrackets
  have hclose : ∀ name ∈ descriptorTokens, ']' ∉ name := by decide
  have hunknown : ∀ name ∈ descriptorTokens, (moduleTokens "" "").value? name = none := by decide
  have hknown : ∀ name ∈ descriptorTokens,
      (artifactTokens (Descriptor.artifactOf ⟨"", "", ""⟩)).value? name ≠ none := by
    decide
  obtain ⟨⟨rest, hrest⟩, -⟩ := moduleDirectory_spec pattern
  have hdirectory : '(' ∉ moduleDirectory pattern :=
    fun hmem => hparens (hrest ▸ List.mem_append_left rest hmem)
  rw [render_of_no_parentheses hparens, render_of_no_parentheses hdirectory]
  intro hstarts
  have hlisting : written name <:+:
      (segments (moduleDirectory pattern)).flatMap (Segment.render (moduleTokens "" "")) :=
    (written_infix_render_iff (divided_segments _) hwithin (by decide) (hclose name hname)).2
      ⟨hmem, hunknown name hname⟩
  have hdescriptor := (written_infix_render_iff (divided_segments pattern) hbrackets (by decide)
    (hclose name hname)).1 (hlisting.trans hstarts.isInfix)
  exact hknown name hname hdescriptor.2

theorem prefix_of_no_token (h : ∀ name ∈ descriptorTokens,
    .token name ∉ segments (moduleDirectory pattern)) (c : Coordinate) :
    render (moduleTokens c.group c.name) (moduleDirectory pattern) <+:
      render (artifactTokens (Descriptor.artifactOf c)) pattern := by
  obtain ⟨within, hwithin⟩ := exists_inBrackets?_moduleDirectory hbrackets
  obtain ⟨⟨rest, hrest⟩, hend, hrevision⟩ := moduleDirectory_spec pattern
  have hdirectory : '(' ∉ moduleDirectory pattern :=
    fun hmem => hparens (hrest ▸ List.mem_append_left rest hmem)
  rw [written_infix_iff_mem hwithin (by decide)] at hrevision
  rw [render_of_no_parentheses hparens, render_of_no_parentheses hdirectory]
  have hsame : ∀ name, .token name ∈ segments (moduleDirectory pattern) →
      (moduleTokens c.group c.name).value? name =
        (artifactTokens (Descriptor.artifactOf c)).value? name := by
    intro name hname
    refine value?_artifactTokens (Descriptor.artifactOf c) fun hforeign => ?_
    rcases List.mem_cons.1 hforeign with rfl | hforeign
    · exact hrevision hname
    · exact h name hforeign hname
  have hstarts := prefix_render (divided_segments (moduleDirectory pattern)) hend hsame
    (fun name => value?_of_slash (Descriptor.artifactOf c)) rest
  rwa [hrest] at hstarts

end Listing

/-- The listing of every module stands in the directory of its versions just if the directory part
of the descriptor pattern has no token for what only descriptors have. -/
theorem listing_beside_versions_iff {l : Layout} (hparens : '(' ∉ l.descriptorPattern.toList)
    (hbrackets : Bracketed l.descriptorPattern.toList) :
    (∀ (s : Selector) (version : String), ∃ directory rest,
      (Format.toml l).listingLocation s = directory ++ "versions.toml" ∧
        (Format.toml l).descriptorLocation ⟨s.group, s.name, version⟩ = directory ++ rest) ↔
      ∀ name ∈ descriptorTokens,
        ¬ written name <:+: moduleDirectory l.descriptorPattern.toList := by
  obtain ⟨within, hwithin⟩ := exists_inBrackets?_moduleDirectory hbrackets
  have hclose : ∀ name ∈ descriptorTokens, ']' ∉ name := by decide
  constructor
  · intro h name hname hseen
    obtain ⟨directory, rest, hlisting, hdescriptor⟩ := h ⟨"", "", .latest⟩ ""
    have hmem := (written_infix_iff_mem hwithin (hclose name hname)).1 hseen
    refine not_prefix_of_token hbrackets hparens hname hmem ⟨rest.toList, ?_⟩
    have hdirectory : directory = String.ofList
        (render (moduleTokens "" "") (moduleDirectory l.descriptorPattern.toList)) :=
      (String.append_left_inj _).1 hlisting.symm
    have hlist := congrArg String.toList hdescriptor
    rw [hdirectory, String.toList_append, String.toList_ofList] at hlist
    rw [← hlist]
    exact String.toList_ofList
  · intro h s version
    have hnone : ∀ name ∈ descriptorTokens,
        .token name ∉ segments (moduleDirectory l.descriptorPattern.toList) :=
      fun name hname => mt (written_infix_iff_mem hwithin (hclose name hname)).2 (h name hname)
    obtain ⟨rest, hrest⟩ :=
      prefix_of_no_token hbrackets hparens hnone ⟨s.group, s.name, version⟩
    refine ⟨String.ofList (render (moduleTokens s.group s.name)
      (moduleDirectory l.descriptorPattern.toList)), String.ofList rest, rfl, ?_⟩
    rw [← String.ofList_append, hrest]
    rfl

/-- By default there is no such token. -/
theorem default_listing_beside_versions :
    '(' ∉ ({} : Layout).descriptorPattern.toList ∧
      Bracketed ({} : Layout).descriptorPattern.toList ∧
      ∃ directory rest,
        (Format.toml {}).listingLocation ⟨"g", "lib", .latest⟩ = directory ++ "versions.toml" ∧
        (Format.toml {}).descriptorLocation ⟨"g", "lib", "1.0"⟩ = directory ++ rest := by
  have hparens : '(' ∉ ({} : Layout).descriptorPattern.toList := by decide
  have hbrackets : Bracketed ({} : Layout).descriptorPattern.toList := by decide
  have hnone : ∀ name ∈ descriptorTokens,
      ¬ written name <:+: moduleDirectory ({} : Layout).descriptorPattern.toList := by
    decide +kernel
  have hbeside := (listing_beside_versions_iff hparens hbrackets).2 hnone
  exact ⟨hparens, hbrackets, hbeside ⟨"g", "lib", .latest⟩ "1.0"⟩

/-- A layout in which modules are kept by the type of their files. -/
def typedLayout : Layout where
  descriptorPattern := "[organisation]/[type]/[module]/[revision]/[artifact].[ext]"

/-- A listing is looked for in a directory named `[type]`, where there are no versions. -/
theorem typed_listing_apart :
    '(' ∉ typedLayout.descriptorPattern.toList ∧ Bracketed typedLayout.descriptorPattern.toList ∧
      before? "[revision]".toList typedLayout.descriptorPattern.toList =
        some "[organisation]/[type]/[module]/".toList ∧
      (Format.toml typedLayout).listingLocation ⟨"g", "lib", .latest⟩ =
        "g/[type]/lib/versions.toml" ∧
      (Format.toml typedLayout).descriptorLocation ⟨"g", "lib", "1.0"⟩ =
        "g/descriptor/lib/1.0/module.toml" ∧
      ¬ ∃ directory rest, (Format.toml typedLayout).listingLocation ⟨"g", "lib", .latest⟩ =
          directory ++ "versions.toml" ∧
        (Format.toml typedLayout).descriptorLocation ⟨"g", "lib", "1.0"⟩ = directory ++ rest := by
  have hlisting : (Format.toml typedLayout).listingLocation ⟨"g", "lib", .latest⟩ =
      "g/[type]/lib/versions.toml" := by
    decide +kernel
  have hdescriptor : (Format.toml typedLayout).descriptorLocation ⟨"g", "lib", "1.0"⟩ =
      "g/descriptor/lib/1.0/module.toml" := by
    decide +kernel
  refine ⟨by decide, by decide, by decide +kernel, hlisting, hdescriptor, ?_⟩
  rintro ⟨directory, rest, hlisting', hdescriptor'⟩
  have hdirectory : "g/[type]/lib/" = directory :=
    (String.append_left_inj "versions.toml").1 (hlisting.symm.trans hlisting')
  subst hdirectory
  have hstarts : "g/[type]/lib/".toList <+: "g/descriptor/lib/1.0/module.toml".toList := by
    rw [← hdescriptor, hdescriptor', String.toList_append]
    exact List.prefix_append _ _
  exact absurd hstarts (by decide)

end ArtifactResolver.Layout
