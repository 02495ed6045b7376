import Mathlib.Data.List.Induction
import ArtifactResolver.Proofs.Files.Tree

/-!
# Creating directories and files below a directory

Creating a directory with those that its path passes through adds the missing ones and nothing else,
unless a file is in the way. Where a name is too long, it adds those before that name and fails. A
file that is written under one name and then renamed is in the end the only thing that has changed.
-/

namespace ArtifactResolver.Files.Tree

variable {t t' t₀ : Tree} {place : Place} {path name : String} {names rel : List String} {e : Entry}

theorem append_ne_nil (place : Place) (hrel : rel ≠ []) : place ++ rel ≠ [] := by
  simp [hrel]

theorem SameAround.of_put (hrel : rel ≠ []) (t : Tree) (e : Entry) :
    SameAround place t (t.put (place ++ rel) e) where
  limits_eq := rfl
  origin_eq := rfl
  entryAt?_eq other hother := by
    rw [entryAt?_put (append_ne_nil place hrel), if_neg (hother rel hrel)]

theorem SameAround.of_erase (hrel : rel ≠ []) (t : Tree) :
    SameAround place t (t.erase (place ++ rel)) where
  limits_eq := rfl
  origin_eq := rfl
  entryAt?_eq other hother := by
    rw [entryAt?_erase (append_ne_nil place hrel), if_neg (hother rel hrel)]

/-! ## Directories -/

/-- The second tree has all directories on the way, and is otherwise as the first one. -/
structure Paves (place : Place) (names : List String) (t t' : Tree) : Prop where
  now_eq : t'.now = t.now
  around : SameAround place t t'
  paved : t'.Paved place names
  entryAt?_eq : ∀ other, (∀ rel, rel <+: names → rel ≠ [] → other ≠ place ++ rel) →
    t'.entryAt? other = t.entryAt? other

theorem Paves.refl (h : t.Paved place names) : Paves place names t t :=
  ⟨rfl, .refl place t, h, fun _ _ => rfl⟩

theorem Paves.extend {t₁ : Tree} (h : Paves place names t t₁)
    (h' : Paves place (names ++ [name]) t₁ t') : Paves place (names ++ [name]) t t' where
  now_eq := h'.now_eq.trans h.now_eq
  around := h.around.trans h'.around
  paved := h'.paved
  entryAt?_eq other hother := by
    rw [h'.entryAt?_eq other hother]
    exact h.entryAt?_eq other fun rel hrel => hother rel (hrel.trans (List.prefix_append _ _))

/-- What stands after the last directory on the way is as before. -/
theorem Paves.entryAt?_after (h : Paves place names t t') (name : String) :
    t'.entryAt? (place ++ names ++ [name]) = t.entryAt? (place ++ names ++ [name]) := by
  refine h.entryAt?_eq _ fun rel hrel _ heq => ?_
  rw [List.append_assoc] at heq
  have hlength := hrel.length_le
  rw [← List.append_cancel_left heq, List.length_append, List.length_singleton] at hlength
  omega

theorem Paves.passable (h : Paves place names t t')
    (hpassable : t.Passable place (names ++ [name])) : t'.Passable place (names ++ [name]) := by
  intro rel hrel hne
  rcases List.prefix_concat_iff.1 hrel with rfl | hrel
  · have hlast := hpassable _ (List.prefix_refl _) hne
    rw [← List.append_assoc] at hlast ⊢
    rwa [h.entryAt?_after]
  · exact Or.inl (h.paved rel hrel hne)

theorem paves_put (hpaved : t.Paved place names) :
    Paves place (names ++ [name]) t (t.put (place ++ names ++ [name]) .directory) := by
  have hne : names ++ [name] ≠ [] := by simp
  rw [List.append_assoc]
  refine ⟨rfl, .of_put hne t .directory, fun rel hrel hrelne => ?_, fun other hother => ?_⟩
  · rw [entryAt?_put (append_ne_nil place hne)]
    split
    · rfl
    · next hother =>
      rcases List.prefix_concat_iff.1 hrel with rfl | hrel
      · exact absurd rfl hother
      · exact hpaved rel hrel hrelne
  · rw [entryAt?_put (append_ne_nil place hne), if_neg (hother _ (List.prefix_refl _) hne)]

/-- Creating the last directory on the way creates it, or finds it there. -/
theorem makeDirectory_paves (h : t.Spells place path (names ++ [name]))
    (hn : t.Takes (names ++ [name])) (hpaved : t.Paved place names)
    (hpassable : t.Passable place (names ++ [name])) :
    ∃ t', Paves place (names ++ [name]) t t' ∧ (t.makeDirectory path = .ok t' ∨
      t.makeDirectory path = .error .alreadyExists ∧ t.isDirectory path = true ∧ t' = t) := by
  have hlast := hpassable (names ++ [name]) (List.prefix_refl _) (by simp)
  rw [← List.append_assoc] at hlast
  rcases hlast with hdirectory | hnone
  · have hall : t.Paved place (names ++ [name]) := by
      intro rel hrel hne
      rcases List.prefix_concat_iff.1 hrel with rfl | hrel
      · rw [← List.append_assoc]
        exact hdirectory
      · exact hpaved rel hrel hne
    exact ⟨t, .refl hall, Or.inr ⟨makeDirectory_of_paved h hn hall,
      isDirectory_of_find (find_directory h hn hall), rfl⟩⟩
  · exact ⟨_, paves_put hpaved, Or.inl (makeDirectory_of_none h hn hpaved hnone)⟩

/-- The path leads to the directory itself in a way in which it need not be created. -/
theorem makeFirst_of_place (h : path = "" ∨ t.Spells place path []) (above : List String) :
    t.makeFirst (path :: above) = (.ok (), t) := by
  rw [makeFirst]
  rcases h with rfl | h
  · rfl
  · have hfind := find_of_spells h
    have hmake := makeDirectory_of_spells h
    have hempty : path.isEmpty = false := by simpa using h.ne_empty
    rw [hempty, hmake, isDirectory_of_find hfind]
    rfl

theorem proper_prefix_concat (h : rel <+: names) (name : String) :
    rel <+: names ++ [name] ∧ rel ≠ names ++ [name] := by
  refine ⟨h.trans (List.prefix_append names [name]), fun heq => ?_⟩
  have hlength := h.length_le
  rw [heq, List.length_append, List.length_singleton] at hlength
  omega

/-- The path that is made of names that lead to a place and of those that lead on from there goes
that way, unless there are no names in it at all. -/
def SpellsOut (t : Tree) (place : Place) (absolute : Bool) (before rel : List String) : Prop :=
  rel = [] ∧ Path.ofComponents absolute (before ++ rel) = "" ∨
    t.Spells place (Path.ofComponents absolute (before ++ rel)) rel

/-- Creating directories from the outermost missing one inwards. -/
theorem makeFirst_paves {absolute : Bool} {before : List String} (hbare : t₀.Bare place)
    (haround : SameAround place t₀ t)
    (houter : ∀ rel, rel <+: names → rel ≠ names → t₀.SpellsOut place absolute before rel)
    (hn : t₀.Takes names) (hpassable : t.Passable place names)
    (hpath : names = [] ∧ path = "" ∨ t₀.Spells place path names) :
    ∃ t', t.makeFirst (path :: Path.outer absolute (before ++ names).reverse) = (.ok (), t') ∧
      Paves place names t t' := by
  induction names using List.reverseRecOn generalizing path with
  | nil =>
    have hplace : path = "" ∨ t.Spells place path [] :=
      hpath.imp And.right (haround.spells hbare)
    exact ⟨t, makeFirst_of_place hplace _, .refl (Paved.nil t place)⟩
  | append_singleton names name ih =>
    have hspells : t₀.Spells place path (names ++ [name]) :=
      hpath.resolve_left fun h => absurd h.1 (by simp)
    have hempty : path.isEmpty = false := by simpa using hspells.ne_empty
    have hreverse : (before ++ (names ++ [name])).reverse = name :: (before ++ names).reverse := by
      simp
    have htakes := haround.takes hn
    rw [hreverse, Path.outer, List.reverse_reverse, makeFirst, hempty]
    by_cases hpaved : t.Paved place names
    · obtain ⟨t', hpaves, hmake | ⟨hmake, hdirectory, rfl⟩⟩ := makeDirectory_paves
        (haround.spells hbare hspells) htakes hpaved hpassable
      · exact ⟨t', by simp only [hmake]; rfl, hpaves⟩
      · exact ⟨t', by simp only [hmake, hdirectory]; rfl, hpaves⟩
    · -- the directories before the last one are created first, and then that one
      have hinit : ∀ rel, rel <+: names → _ := fun rel hrel =>
        houter rel (proper_prefix_concat hrel name).1 (proper_prefix_concat hrel name).2
      obtain ⟨t₁, hfirst, hpaves₁⟩ := ih (fun rel hrel _ => hinit rel hrel) (takes_append.1 hn).1
        hpassable.init (hinit names (List.prefix_refl _))
      have haround₁ := haround.trans hpaves₁.around
      have hpassable₁ := hpaves₁.passable hpassable
      have hgap := makeDirectory_of_gap (haround.spells hbare hspells) (takes_append.1 htakes).1
        hpassable.init hpaved
      obtain ⟨t', hpaves, hmake | ⟨hmake, hdirectory, rfl⟩⟩ := makeDirectory_paves
        (haround₁.spells hbare hspells) (haround₁.takes hn) hpaves₁.paved hpassable₁
      · exact ⟨t', by simp only [hgap, hfirst, hmake]; rfl, hpaves₁.extend hpaves⟩
      · exact ⟨t', by simp only [hgap, hfirst, hmake, hdirectory]; rfl, hpaves₁.extend hpaves⟩

/-- The paths of the directories that a path passes through are among its ancestors. -/
theorem mem_outer {absolute : Bool} {before : List String} (h : rel <+: names) (hne : rel ≠ names) :
    Path.ofComponents absolute (before ++ rel) ∈ Path.outer absolute (before ++ names).reverse := by
  induction names using List.reverseRecOn with
  | nil => exact absurd (List.prefix_nil.1 h) hne
  | append_singleton names name ih =>
    have hreverse : (before ++ (names ++ [name])).reverse = name :: (before ++ names).reverse := by
      simp
    rw [hreverse, Path.outer, List.reverse_reverse]
    have hrel : rel <+: names := (List.prefix_concat_iff.1 h).resolve_left hne
    by_cases heq : rel = names
    · exact heq ▸ List.mem_cons_self
    · exact List.mem_cons_of_mem _ (ih hrel heq)

/-- Of the directories on the way to one with a name that is too long, those up to that name are
created, and that is all. -/
theorem makeFirst_of_long {absolute : Bool} {before more : List String} (hbare : t₀.Bare place)
    (haround : SameAround place t₀ t)
    (houter : ∀ rel, rel <+: names ++ name :: more → rel ≠ names ++ name :: more →
      t₀.SpellsOut place absolute before rel)
    (hn : t₀.Takes names) (hname : Path.IsName name) (hlong : t₀.limits.admitsName name = false)
    (hpassable : t.Passable place names) (hpath : t₀.Spells place path (names ++ name :: more)) :
    ∃ t', t.makeFirst (path :: Path.outer absolute (before ++ (names ++ name :: more)).reverse) =
        (.error .nameTooLong, t') ∧ Paves place names t t' := by
  have hrefused : ∀ {t₁ : Tree} {path : String} {more : List String}, SameAround place t₀ t₁ →
      t₁.Paved place names → t₀.Spells place path (names ++ name :: more) →
      t₁.makeDirectory path = .error .nameTooLong ∧ t₁.isDirectory path = false := by
    intro t₁ path more haround₁ hpaved hspells
    exact makeDirectory_of_long (haround₁.spells hbare hspells) (haround₁.takes hn) hpaved hname
      (haround₁.limits_eq ▸ hlong)
  by_cases hpaved : t.Paved place names
  · obtain ⟨hmake, hdirectory⟩ := hrefused haround hpaved hpath
    have hempty : path.isEmpty = false := by simpa using hpath.ne_empty
    rw [makeFirst, hempty]
    exact ⟨t, by simp only [hmake, hdirectory]; rfl, .refl hpaved⟩
  -- otherwise nothing is found at first, and the induction is on the names after the long one
  have hgap : ∀ {path more}, t₀.Spells place path (names ++ name :: more) →
      path.isEmpty = false ∧ t.makeDirectory path = .error .notFound := by
    intro path more hspells
    exact ⟨by simpa using hspells.ne_empty, makeDirectory_of_gap (haround.spells hbare hspells)
      (haround.takes hn) hpassable hpaved⟩
  induction more using List.reverseRecOn generalizing path with
  | nil =>
    have hreverse : (before ++ (names ++ [name])).reverse = name :: (before ++ names).reverse := by
      simp
    have hinit : ∀ rel, rel <+: names → _ := fun rel hrel =>
      houter rel (proper_prefix_concat hrel name).1 (proper_prefix_concat hrel name).2
    obtain ⟨t', hfirst, hpaves⟩ := makeFirst_paves hbare haround
      (fun rel hrel _ => hinit rel hrel) hn hpassable (hinit names (List.prefix_refl _))
    obtain ⟨hempty, hnone⟩ := hgap hpath
    obtain ⟨hmake, hdirectory⟩ := hrefused (haround.trans hpaves.around) hpaves.paved hpath
    rw [hreverse, Path.outer, List.reverse_reverse, makeFirst, hempty]
    exact ⟨t', by simp only [hnone, hfirst, hmake, hdirectory]; rfl, hpaves⟩
  | append_singleton more last ih =>
    have hreverse : (before ++ (names ++ name :: (more ++ [last]))).reverse =
        last :: (before ++ (names ++ name :: more)).reverse := by
      simp
    have hconcat : names ++ name :: (more ++ [last]) = (names ++ name :: more) ++ [last] := by simp
    rw [hconcat] at houter
    have hinit : ∀ rel, rel <+: names ++ name :: more → _ := fun rel hrel =>
      houter rel (proper_prefix_concat hrel last).1 (proper_prefix_concat hrel last).2
    obtain ⟨t', hfirst, hpaves⟩ := ih (fun rel hrel _ => hinit rel hrel)
      ((hinit _ (List.prefix_refl _)).resolve_left fun h => absurd h.1 (by simp))
    obtain ⟨hempty, hnone⟩ := hgap hpath
    rw [hreverse, Path.outer, List.reverse_reverse, makeFirst, hempty]
    exact ⟨t', by simp only [hnone, hfirst]; rfl, hpaves⟩

/-- The path through names on from a path to a place. -/
theorem spells_join {base : String} (hbase : t.Spells place base []) (hne : names ≠ [])
    (hn : ∀ name ∈ names, Path.IsName name)
    (hadmitted : t.limits.admitsPath (Path.join base (Path.ofComponents false names)) = true) :
    t.Spells place (Path.join base (Path.ofComponents false names)) names := by
  have hparts : ∀ name ∈ names, Path.IsPart name := fun name hname => (hn name hname).toIsPart
  have hjoined := hbase.join (Path.isAbsolute_ofComponents hparts false)
    (Path.ofComponents_ne_empty hparts hne false) (Path.no_nul_ofComponents hparts false) hadmitted
  rwa [Path.components_ofComponents hparts, List.nil_append] at hjoined

/-- The paths of the directories on the way there lead to the place and on from it. -/
theorem spellsOut_of_outer {base : String} (hbase : t.Spells place base [])
    (hn : ∀ name ∈ names, Path.IsName name)
    (hadmitted : ∀ path ∈ Path.outer (Path.isAbsolute base)
      ((Path.components base).filter (· ≠ ".") ++ names).reverse, t.limits.admitsPath path = true)
    {rel : List String} (hrel : rel <+: names) (hproper : rel ≠ names) :
    t.SpellsOut place (Path.isAbsolute base) ((Path.components base).filter (· ≠ ".")) rel := by
  have hadmits := hadmitted _ (mem_outer hrel hproper)
  have hnames : ∀ name ∈ rel, Path.IsName name := fun name hname => hn name (hrel.subset hname)
  by_cases hempty : Path.ofComponents (Path.isAbsolute base)
      ((Path.components base).filter (· ≠ ".") ++ rel) = ""
  · have hnone : (Path.components base).filter (· ≠ ".") ++ rel = [] := by
      by_contra hsome
      exact Path.ofComponents_ne_empty (Path.isPart_tidied hbase.no_nul hnames) hsome _ hempty
    exact Or.inl ⟨(List.append_eq_nil_iff.1 hnone).2, hempty⟩
  · exact Or.inr (hbase.tidied hnames rfl hempty hadmits)

section Directories

variable {base : String} (hbare : t₀.Bare place) (haround : SameAround place t₀ t)
  (hbase : t₀.Spells place base [])
include hbare haround hbase

/-- Creating a directory below a place, with those on the way there. -/
theorem makeDirectories_paves (hne : names ≠ []) (hn : t₀.Takes names)
    (hadmitted : ∀ path ∈ Path.ancestors (Path.join base (Path.ofComponents false names)),
      t₀.limits.admitsPath path = true)
    (hpassable : t.Passable place names) :
    ∃ t', t.makeDirectories (Path.join base (Path.ofComponents false names)) = (.ok (), t') ∧
      Paves place names t t' := by
  have hnames : ∀ name ∈ names, Path.IsName name := fun name hname => (hn name hname).1
  have hancestors := @Path.ancestors_join base names hnames
  rw [hancestors] at hadmitted
  obtain ⟨hpath, houter⟩ := List.forall_mem_cons.1 hadmitted
  rw [makeDirectories, hancestors]
  exact makeFirst_paves hbare haround (fun _ => spellsOut_of_outer hbase hnames houter) hn
    hpassable (Or.inr (spells_join hbase hne hnames hpath))

/-- Creating a directory below a place fails at a name that is too long, once the directories for
the names before it are there. -/
theorem makeDirectories_of_long {more : List String}
    (hn : ∀ name' ∈ names ++ name :: more, Path.IsName name') (htakes : t₀.Takes names)
    (hlong : t₀.limits.admitsName name = false)
    (hadmitted : ∀ path ∈ Path.ancestors
      (Path.join base (Path.ofComponents false (names ++ name :: more))),
      t₀.limits.admitsPath path = true)
    (hpassable : t.Passable place names) :
    ∃ t', t.makeDirectories (Path.join base (Path.ofComponents false (names ++ name :: more))) =
        (.error .nameTooLong, t') ∧ Paves place names t t' := by
  have hancestors := @Path.ancestors_join base _ hn
  rw [hancestors] at hadmitted
  obtain ⟨hpath, houter⟩ := List.forall_mem_cons.1 hadmitted
  rw [makeDirectories, hancestors]
  exact makeFirst_of_long hbare haround (fun _ => spellsOut_of_outer hbase hn houter) htakes
    (hn name (by simp)) hlong hpassable (spells_join hbase (by simp) hn hpath)

end Directories

/-! ## Files -/

theorem write_of_named {parent : Place} (content : Bytes)
    (h : t.follow path = .ok (.named parent name)) (hslash : Path.endsInSlash path = false)
    (hne : t.entryAt? (parent ++ [name]) ≠ some .directory) :
    t.write path content = .ok (t.put (parent ++ [name]) (.file content t.now)) := by
  rw [write, h]
  show (if Path.endsInSlash path then _ else _) = _
  rw [hslash]
  split
  · contradiction
  · split
    · next hdirectory => exact absurd hdirectory hne
    · rfl

theorem rename_of_named {source target : String} {parent reached : Place}
    (hsource : t.find source = .ok (reached, e))
    (htarget : t.follow target = .ok (.named parent name))
    (hne : t.entryAt? (parent ++ [name]) ≠ some .directory) :
    t.rename source target = .ok ((t.erase reached).put (parent ++ [name]) e) := by
  rw [rename, hsource]
  show (t.follow target >>= fun found => _) = _
  rw [htarget]
  dsimp only [bind, Except.bind]
  split
  · next hdirectory => exact absurd hdirectory hne
  · rfl

theorem Paved.of_put (h : t.Paved place names) (e : Entry) :
    (t.put (place ++ names ++ [name]) e).Paved place names := by
  intro rel hrel hne
  have hother : place ++ rel ≠ place ++ names ++ [name] := by
    intro heq
    rw [List.append_assoc] at heq
    have hlength := hrel.length_le
    rw [List.append_cancel_left heq, List.length_append, List.length_singleton] at hlength
    omega
  rw [entryAt?_put (by simp), if_neg hother]
  exact h rel hrel hne

/-- A file that is filled under a temporary name and then renamed changes what stands at its place,
and nothing else. -/
theorem replace_file {source target temporary : String} (hbare : t₀.Bare place)
    (haround : SameAround place t₀ t) (hsource : t₀.Spells place source (names ++ [temporary]))
    (htarget : t₀.Spells place target (names ++ [name]))
    (hn : t₀.Takes (names ++ [name])) (htemporary : t₀.Takes [temporary])
    (hslash : Path.endsInSlash source = false) (hpaved : t.Paved place names)
    (hnone : t.entryAt? (place ++ names ++ [temporary]) = none)
    (hne : t.entryAt? (place ++ names ++ [name]) ≠ some .directory) (hnames : temporary ≠ name)
    (content : Bytes) :
    ∃ filled t', t.write source content = .ok filled ∧ filled.rename source target = .ok t' ∧
      t'.now = t.now ∧ SameAround place t t' ∧
      ∀ other, t'.entryAt? other =
        if other = place ++ names ++ [name] then some (.file content t.now)
        else t.entryAt? other := by
  obtain ⟨htakes, _⟩ := takes_append.1 hn
  have hsourcetakes : t₀.Takes (names ++ [temporary]) := takes_append.2 ⟨htakes, htemporary⟩
  have hfollow := follow_of_paved (haround.spells hbare hsource) (haround.takes hsourcetakes) hpaved
  have hunused : t.entryAt? (place ++ names ++ [temporary]) ≠ some .directory := by
    rw [hnone]
    simp
  have hwrite := write_of_named content hfollow hslash hunused
  generalize hfilled :
    t.put (place ++ names ++ [temporary]) (.file content t.now) = filled at hwrite
  have hput : ∀ other, filled.entryAt? other = if other = place ++ names ++ [temporary] then
      some (.file content t.now) else t.entryAt? other := by
    intro other
    rw [← hfilled, entryAt?_put (by simp)]
  have hplaces : place ++ names ++ [name] ≠ place ++ names ++ [temporary] := by
    simpa using hnames.symm
  have hstep : SameAround place t filled := by
    rw [← hfilled, List.append_assoc]
    exact .of_put (by simp) t _
  have haround₁ := haround.trans hstep
  have hpaved₁ : filled.Paved place names := hfilled ▸ hpaved.of_put _
  have hfind := find_file (haround₁.spells hbare hsource) (haround₁.takes hsourcetakes) hpaved₁
    hslash (by rw [hput, if_pos rfl])
  have hfollow₁ := follow_of_paved (haround₁.spells hbare htarget) (haround₁.takes hn) hpaved₁
  have hrename := rename_of_named hfind hfollow₁ (by rwa [hput, if_neg hplaces])
  refine ⟨filled, _, hwrite, hrename, ?_, ?_, fun other => ?_⟩
  · rw [← hfilled]
    rfl
  · rw [List.append_assoc, List.append_assoc]
    exact (hstep.trans (.of_erase (by simp) filled)).trans (.of_put (by simp) _ _)
  · rw [entryAt?_put (by simp), entryAt?_erase (by simp), hput]
    by_cases htarget : other = place ++ names ++ [name]
    · rw [if_pos htarget, if_pos htarget]
    · rw [if_neg htarget, if_neg htarget]
      by_cases hsource : other = place ++ names ++ [temporary]
      · rw [if_pos hsource, hsource, hnone]
      · rw [if_neg hsource, if_neg hsource]

/-- The second tree has a file below the place, and the directories that lead to it, and is
otherwise as the first one. -/
structure Gains (place : Place) (names : List String) (content : Bytes) (t t' : Tree) : Prop where
  now_eq : t'.now = t.now
  around : SameAround place t t'
  file : t'.entryAt? (place ++ names) = some (.file content t.now)
  directory : ∀ rel, rel <+: names → rel ≠ names → rel ≠ [] →
    t'.entryAt? (place ++ rel) = some .directory
  entryAt?_eq : ∀ rel, ¬ rel <+: names → t'.entryAt? (place ++ rel) = t.entryAt? (place ++ rel)

/-- A file in directories that were created for it. -/
theorem Paves.gains {t₁ : Tree} {content : Bytes} (h : Paves place names t t₁)
    (hnow : t'.now = t₁.now) (haround : SameAround place t₁ t')
    (hentries : ∀ other, t'.entryAt? other =
      if other = place ++ names ++ [name] then some (.file content t₁.now)
      else t₁.entryAt? other) : Gains place (names ++ [name]) content t t' := by
  have hbelow : ∀ rel, t'.entryAt? (place ++ rel) = if rel = names ++ [name] then
      some (.file content t.now) else t₁.entryAt? (place ++ rel) := by
    intro rel
    rw [hentries, List.append_assoc, h.now_eq]
    simp
  refine ⟨hnow.trans h.now_eq, h.around.trans haround, ?_, ?_, ?_⟩
  · rw [hbelow, if_pos rfl]
  · intro rel hrel hproper hne
    rw [hbelow, if_neg hproper]
    exact h.paved rel ((List.prefix_concat_iff.1 hrel).resolve_left hproper) hne
  · intro rel hrel
    have hproper : rel ≠ names ++ [name] := fun heq => hrel (heq ▸ List.prefix_refl _)
    rw [hbelow, if_neg hproper]
    refine h.entryAt?_eq _ fun other hother _ heq => hrel ?_
    rw [List.append_cancel_left heq]
    exact hother.trans (List.prefix_append _ _)

end ArtifactResolver.Files.Tree
