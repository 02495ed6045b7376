import ArtifactResolver.Files.Path

/-!
# The names in a path

A path is followed by the names between its slashes. The names of a joined path are those of its
two parts, one after the other, and the path through given names has these names.
-/

namespace ArtifactResolver.Files.Path

/-- The text can stand between two slashes. -/
structure IsPart (name : String) : Prop where
  ne_empty : name ≠ ""
  no_slash : '/' ∉ name.toList
  no_nul : '\x00' ∉ name.toList

/-- The text can stand between two slashes, and names an entry of the directory before it. -/
structure IsName (name : String) : Prop extends IsPart name where
  ne_here : name ≠ "."
  ne_above : name ≠ ".."

/-! ## Names between slashes -/

theorem components_empty : components "" = [] := rfl

/-- The names on both sides of a slash. -/
theorem components_slash (left right : String) :
    components (left ++ "/" ++ right) = components left ++ components right := by
  have hlist : (left ++ "/" ++ right).toList = left.toList ++ '/' :: right.toList := by
    simp [String.toList_append]
  rw [components, hlist, List.splitOn_append_cons_self, List.filter_append, List.map_append]
  rfl

/-- A path through names has these names, if each of them can be one. -/
theorem components_intercalate {names : List String} (h : ∀ name ∈ names, IsPart name) :
    components ("/".intercalate names) = names := by
  cases names with
  | nil => rfl
  | cons first rest =>
    have hsplit : ("/".intercalate (first :: rest)).toList.splitOn '/' =
        (first :: rest).map String.toList := by
      rw [String.toList_intercalate]
      refine List.splitOn_intercalate '/' (fun cs hcs => ?_) (by simp)
      obtain ⟨name, hname, rfl⟩ := List.mem_map.1 hcs
      exact (h name hname).no_slash
    have hkept : ((first :: rest).map String.toList).filter (fun cs => !cs.isEmpty) =
        (first :: rest).map String.toList := by
      refine List.filter_eq_self.2 fun cs hcs => ?_
      obtain ⟨name, hname, rfl⟩ := List.mem_map.1 hcs
      simpa using (h name hname).ne_empty
    rw [components, hsplit, hkept, List.map_map]
    simp [Function.comp_def]

/-- The pieces between separators are made of the other members of the list. -/
theorem of_mem_splitOn {α : Type} [BEq α] [LawfulBEq α] {a x : α} {xs piece : List α}
    (hpiece : piece ∈ xs.splitOn a) (hx : x ∈ piece) : x ≠ a ∧ x ∈ xs := by
  induction xs generalizing piece with
  | nil =>
    rw [List.splitOn_nil, List.mem_singleton] at hpiece
    rw [hpiece] at hx
    cases hx
  | cons b rest ih =>
    rw [List.splitOn_cons_eq_if_modifyHead] at hpiece
    split at hpiece
    · rcases List.mem_cons.1 hpiece with rfl | hpiece
      · cases hx
      · exact (ih hpiece hx).imp_right (List.mem_cons_of_mem b)
    · next hb =>
      obtain ⟨first, others, hsplit⟩ := List.exists_cons_of_ne_nil (List.splitOn_ne_nil a rest)
      rw [hsplit] at ih hpiece
      rcases List.mem_cons.1 hpiece with rfl | hpiece
      · rcases List.mem_cons.1 hx with rfl | hx
        · exact ⟨by simpa using hb, List.mem_cons_self⟩
        · exact (ih List.mem_cons_self hx).imp_right (List.mem_cons_of_mem b)
      · exact (ih (List.mem_cons_of_mem first hpiece) hx).imp_right (List.mem_cons_of_mem b)

/-- The names of a path can stand between slashes again. -/
theorem isPart_of_mem_components {path name : String} (hnul : '\x00' ∉ path.toList)
    (h : name ∈ components path) : IsPart name := by
  obtain ⟨cs, hcs, rfl⟩ := List.mem_map.1 h
  obtain ⟨hcs, hne⟩ := List.mem_filter.1 hcs
  refine ⟨by simpa using hne, ?_, ?_⟩
  · rw [String.toList_ofList]
    exact fun hslash => (of_mem_splitOn hcs hslash).1 rfl
  · rw [String.toList_ofList]
    exact fun hmem => hnul (of_mem_splitOn hcs hmem).2

theorem isPart_tidied {path : String} (hnul : '\x00' ∉ path.toList) {rel : List String}
    (hrel : ∀ name ∈ rel, IsName name) :
    ∀ name ∈ (components path).filter (· ≠ ".") ++ rel, IsPart name := by
  intro name hname
  rcases List.mem_append.1 hname with hname | hname
  · exact isPart_of_mem_components hnul (List.mem_filter.1 hname).1
  · exact (hrel name hname).toIsPart

/-! ## Joined paths -/

/-- A path that ends in a slash, without that slash. -/
theorem eq_append_slash {path : String} (h : endsInSlash path = true) :
    ∃ rest, path = rest ++ "/" := by
  have hlast : path.toList.getLast? = some '/' := by simpa [endsInSlash] using h
  obtain ⟨rest, hrest⟩ := List.getLast?_eq_some_iff.1 hlast
  exact ⟨String.ofList rest, by rw [← String.toList_inj, hrest]; simp⟩

/-- Between a path that does not end in a slash and one that does not start with one there is one
more. -/
theorem join_of_relative {base path : String} (h : isAbsolute path = false) (hne : base ≠ "")
    (hslash : endsInSlash base = false) : join base path = base ++ "/" ++ path := by
  have hempty : base.isEmpty = false := by simpa using hne
  rw [join, h, hempty, hslash]
  rfl

/-- The names of a joined path. -/
theorem components_join {base path : String} (h : isAbsolute path = false) :
    components (join base path) = components base ++ components path := by
  rw [join, h]
  by_cases hempty : base.isEmpty
  · have hbase : base = "" := by simpa using hempty
    simp [hbase, components_empty]
  · by_cases hslash : endsInSlash base = true
    · obtain ⟨rest, rfl⟩ := eq_append_slash hslash
      have hrest : components (rest ++ "/") = components rest := by
        have hsides := components_slash rest ""
        rwa [String.append_empty, components_empty, List.append_nil] at hsides
      simp [hslash, components_slash, hrest]
    · simp [hempty, hslash, components_slash]

/-- A joined path is its two parts with a slash between them, if there has to be one. -/
theorem toList_join (base : String) {path : String} (h : isAbsolute path = false) :
    (join base path).toList = base.toList ++ path.toList ∨
      base ≠ "" ∧ (join base path).toList = base.toList ++ '/' :: path.toList := by
  rw [join, h]
  by_cases hempty : base.isEmpty
  · exact Or.inl (by simp [hempty])
  · have hbase : base ≠ "" := by simpa using hempty
    by_cases hslash : endsInSlash base = true
    · exact Or.inl (by simp [hslash])
    · exact Or.inr ⟨hbase, by simp [hempty, hslash]⟩

theorem isAbsolute_join {base path : String} (h : isAbsolute path = false) :
    isAbsolute (join base path) = isAbsolute base := by
  have hpath : (path.toList.head? == some '/') = false := h
  rw [isAbsolute, isAbsolute]
  cases hbase : base.toList with
  | nil =>
    have hempty : base = "" := by simpa using hbase
    rcases toList_join base h with hlist | ⟨hne, _⟩
    · rw [hlist, hbase, List.nil_append, hpath]
      rfl
    · exact absurd hempty hne
  | cons c rest => rcases toList_join base h with hlist | ⟨_, hlist⟩ <;> simp [hlist, hbase]

theorem endsInSlash_join {base path : String} (h : isAbsolute path = false) (hne : path ≠ "") :
    endsInSlash (join base path) = endsInSlash path := by
  have hpath : path.toList ≠ [] := by simpa using hne
  have hlast := List.getLast?_eq_some_getLast hpath
  rw [endsInSlash, endsInSlash]
  rcases toList_join base h with hlist | ⟨_, hlist⟩
  · rw [hlist, List.getLast?_append, hlast]
    rfl
  · rw [hlist, List.getLast?_append, List.getLast?_cons, hlast]
    rfl

theorem mem_join {base path : String} (h : isAbsolute path = false) {c : Char}
    (hc : c ∈ (join base path).toList) : c ∈ base.toList ∨ c = '/' ∨ c ∈ path.toList := by
  rcases toList_join base h with hlist | ⟨_, hlist⟩ <;> rw [hlist] at hc
  · exact (List.mem_append.1 hc).imp_right Or.inr
  · exact (List.mem_append.1 hc).imp_right List.mem_cons.1

theorem join_ne_empty {base path : String} (h : isAbsolute path = false) (hne : path ≠ "") :
    join base path ≠ "" := by
  intro hjoin
  have hpath : path.toList ≠ [] := by simpa using hne
  rcases toList_join base h with hlist | ⟨_, hlist⟩ <;> simp [hjoin, hpath] at hlist

/-! ## Paths through names -/

section Names

variable {names : List String} (h : ∀ name ∈ names, IsPart name)
include h

theorem components_ofComponents (absolute : Bool) :
    components (ofComponents absolute names) = names := by
  have hnames := components_intercalate h
  cases absolute with
  | false => simpa [ofComponents] using hnames
  | true =>
    have hslash := components_slash "" ("/".intercalate names)
    rw [components_empty, List.nil_append, hnames] at hslash
    simpa [ofComponents] using hslash

theorem isAbsolute_ofComponents (absolute : Bool) :
    isAbsolute (ofComponents absolute names) = absolute := by
  cases absolute with
  | true => simp [isAbsolute, ofComponents]
  | false =>
    cases names with
    | nil => rfl
    | cons first rest =>
      have hfirst := h first List.mem_cons_self
      have hslash : ∀ c tail, first.toList = c :: tail → c ≠ '/' := by
        rintro c tail hlist rfl
        exact hfirst.no_slash (by simp [hlist])
      cases hlist : first.toList with
      | nil => exact absurd (by simpa using hlist) hfirst.ne_empty
      | cons c tail =>
        have hc := hslash c tail hlist
        cases rest <;> simp [isAbsolute, ofComponents, hlist, hc]

theorem no_nul_ofComponents (absolute : Bool) :
    '\x00' ∉ (ofComponents absolute names).toList := by
  have hnames : '\x00' ∉ ("/".intercalate names).toList := by
    induction names with
    | nil => simp
    | cons first rest ih =>
      have hfirst := (h first List.mem_cons_self).no_nul
      have hrest := ih fun name hname => h name (List.mem_cons_of_mem _ hname)
      cases rest with
      | nil => simpa using hfirst
      | cons second rest => simpa [String.intercalate_cons_cons, hfirst] using hrest
  cases absolute <;> simpa [ofComponents] using hnames

/-- A path through names does not end in a slash. -/
theorem endsInSlash_ofComponents (hne : names ≠ []) (absolute : Bool) :
    endsInSlash (ofComponents absolute names) = false := by
  have hnames : ∀ names : List String, names ≠ [] → (∀ name ∈ names, IsPart name) →
      ∃ c, c ≠ '/' ∧ ("/".intercalate names).toList.getLast? = some c := by
    intro names hne h
    induction names with
    | nil => exact absurd rfl hne
    | cons first rest ih =>
      cases rest with
      | nil =>
        have hfirst := h first List.mem_cons_self
        have hlist : first.toList ≠ [] := by simpa using hfirst.ne_empty
        refine ⟨first.toList.getLast hlist, ?_, by simp [List.getLast?_eq_some_getLast hlist]⟩
        intro hslash
        exact hfirst.no_slash (hslash ▸ List.getLast_mem hlist)
      | cons second rest =>
        obtain ⟨c, hc, hlast⟩ :=
          ih (by simp) fun name hname => h name (List.mem_cons_of_mem _ hname)
        refine ⟨c, hc, ?_⟩
        rw [String.intercalate_cons_cons, String.toList_append, List.getLast?_append, hlast]
        rfl
  obtain ⟨c, hc, hlast⟩ := hnames names hne h
  have hend : (ofComponents absolute names).toList.getLast? = some c := by
    rw [ofComponents, String.toList_append, List.getLast?_append, hlast]
    rfl
  rw [endsInSlash, hend]
  simpa using hc

theorem ofComponents_ne_empty (hne : names ≠ []) (absolute : Bool) :
    ofComponents absolute names ≠ "" := by
  intro hempty
  have hnames := components_ofComponents h absolute
  rw [hempty, components_empty] at hnames
  exact hne hnames.symm

end Names

/-- The directories that a joined path passes through are those up to the end of its first part and
those on from there. -/
theorem ancestors_join {base : String} {names : List String} (h : ∀ name ∈ names, IsName name) :
    ancestors (join base (ofComponents false names)) = join base (ofComponents false names) ::
      outer (isAbsolute base) ((components base).filter (· ≠ ".") ++ names).reverse := by
  have hparts : ∀ name ∈ names, IsPart name := fun name hname => (h name hname).toIsPart
  have hrelative := isAbsolute_ofComponents hparts false
  have hkept : names.filter (· ≠ ".") = names :=
    List.filter_eq_self.2 fun name hname => by simpa using (h name hname).ne_here
  rw [ancestors, isAbsolute_join hrelative, components_join hrelative,
    components_ofComponents hparts, List.filter_append, hkept]

/-! ## Below a directory -/

/-- The path goes on from that of the directory by at least one name, and each of these names leads
one level down. -/
structure LeadsBelow (directory path : String) : Prop where
  isAbsolute_eq : isAbsolute path = isAbsolute directory
  goes_on : ∃ names, names ≠ [] ∧ (∀ name ∈ names, IsName name) ∧
    components path = components directory ++ names

theorem leadsBelow_join (base : String) {names : List String} (hne : names ≠ [])
    (h : ∀ name ∈ names, IsName name) : LeadsBelow base (join base (ofComponents false names)) := by
  have hparts : ∀ name ∈ names, IsPart name := fun name hname => (h name hname).toIsPart
  have hrelative := isAbsolute_ofComponents hparts false
  refine ⟨isAbsolute_join hrelative, names, hne, h, ?_⟩
  rw [components_join hrelative, components_ofComponents hparts]

end ArtifactResolver.Files.Path
