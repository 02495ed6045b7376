import ArtifactResolver.Proofs.Files.Below
import ArtifactResolver.Proofs.Files.Making

/-!
# Trees that directories are added to

An operation that creates a directory, or that writes, renames or removes a file, changes what
stands at one or two places and loses no directory. A path that leads elsewhere finds then what it
found before. There is one difference, since names are checked one after the other: where nothing
was found before a name that is too long was reached, that name may be reached later on.
-/

namespace ArtifactResolver.Files.Tree

variable {t t' : Tree} {place parent reached : Place} {path name last : String}
  {names rel : List String} {e : Entry} {target : Target}

/-! ## Trees in which everything stands in a directory -/

/-- Everything stands in a directory, and relative paths start at one. -/
structure Rooted (t : Tree) : Prop where
  origin : t.entryAt? t.origin = some .directory
  parent : ∀ {place name e}, t.entryAt? (place ++ [name]) = some e →
    t.entryAt? place = some .directory

theorem entryAt?_root (t : Tree) : t.entryAt? [] = some .directory := by
  rw [entryAt?, if_pos rfl]

/-- It is enough to look at the entries of the tree. -/
theorem rooted_of_entries (horigin : t.entryAt? t.origin = some .directory)
    (hentries : ∀ entry ∈ t.entries, t.entryAt? entry.1.dropLast = some .directory) :
    t.Rooted := by
  refine ⟨horigin, fun {place name e} he => ?_⟩
  rw [entryAt?, if_neg (by simp)] at he
  obtain ⟨before, after, hsplit, -⟩ := List.lookup_eq_some_iff.1 he
  have hmem : (place ++ [name], e) ∈ t.entries := by simp [hsplit]
  simpa using hentries _ hmem

/-- Nothing stands below a place at which nothing stands. -/
theorem Rooted.entryAt?_below (h : t.Rooted) (hnone : t.entryAt? place = none)
    (rel : List String) : t.entryAt? (place ++ rel) = none := by
  induction rel using List.reverseRecOn with
  | nil => rwa [List.append_nil]
  | append_singleton rel name ih =>
    cases he : t.entryAt? (place ++ (rel ++ [name])) with
    | none => rfl
    | some e =>
      rw [← List.append_assoc] at he
      have hdirectory := h.parent he
      rw [ih] at hdirectory
      cases hdirectory

theorem Rooted.enter (h : t.Rooted) (hplace : t.entryAt? place = some .directory)
    (henter : t.enter place name = .ok reached) : t.entryAt? reached = some .directory := by
  rcases enter_eq_ok_iff.1 henter with harrive | ⟨-, -, hdirectory⟩
  · rw [arrive] at harrive
    split at harrive
    · cases harrive
      exact hplace
    · split at harrive
      · cases harrive
        rcases List.eq_nil_or_concat place with rfl | ⟨above, last, rfl⟩
        · exact entryAt?_root t
        · rw [List.concat_eq_append] at hplace ⊢
          rw [List.dropLast_concat]
          exact h.parent hplace
      · split at harrive <;> cases harrive
  · exact hdirectory

theorem Rooted.walk (h : t.Rooted) (hplace : t.entryAt? place = some .directory)
    (hwalk : t.walk place names = .ok reached) : t.entryAt? reached = some .directory := by
  induction names generalizing place with
  | nil => exact Except.ok.inj hwalk ▸ hplace
  | cons first rest ih =>
    rw [walk_cons] at hwalk
    obtain ⟨next, henter, hrest⟩ := exists_of_bind hwalk
    exact ih (h.enter hplace henter) hrest

theorem Rooted.start (h : t.Rooted) (path : String) :
    t.entryAt? (t.start path) = some .directory := by
  rw [Tree.start]
  split
  · exact entryAt?_root t
  · exact h.origin

/-- A path leads to a name in a directory. -/
theorem Rooted.follow (h : t.Rooted) (hfollow : t.follow path = .ok (.named parent name)) :
    t.entryAt? parent = some .directory := by
  have haccepts := accepts_of_follow hfollow
  rcases List.eq_nil_or_concat (Path.components path) with hnil | ⟨names, last, hconcat⟩
  · rw [follow_of_no_names haccepts hnil] at hfollow
    cases hfollow
  · rw [List.concat_eq_append] at hconcat
    rw [follow_of_names haccepts hconcat] at hfollow
    obtain ⟨reached, hwalk, harrive⟩ := exists_of_bind hfollow
    obtain ⟨rfl, -⟩ := named_of_arrive harrive
    exact h.walk (h.start path) hwalk

/-! ## One change -/

theorem ne_root_of_entryAt? (h : t.entryAt? place ≠ some .directory) : place ≠ [] := by
  rintro rfl
  exact h (entryAt?_root t)

theorem keeps_put (h : t.entryAt? place ≠ some .directory) (e : Entry) :
    Keeps t (t.put place e) := by
  refine ⟨rfl, rfl, fun {other} hother => ?_⟩
  have hne : other ≠ place := by
    rintro rfl
    exact h hother
  rw [entryAt?_put (ne_root_of_entryAt? h), if_neg hne]
  exact hother

theorem keeps_erase (h : t.entryAt? place ≠ some .directory) : Keeps t (t.erase place) := by
  refine ⟨rfl, rfl, fun {other} hother => ?_⟩
  have hne : other ≠ place := by
    rintro rfl
    exact h hother
  rw [entryAt?_erase (ne_root_of_entryAt? h), if_neg hne]
  exact hother

theorem Rooted.put (h : t.Rooted) (hparent : t.entryAt? parent = some .directory)
    (hne : t.entryAt? (parent ++ [name]) ≠ some .directory) (e : Entry) :
    (t.put (parent ++ [name]) e).Rooted := by
  have hkeeps := keeps_put hne e
  refine ⟨hkeeps.directory h.origin, fun {place last e'} he => hkeeps.directory ?_⟩
  rw [entryAt?_put (by simp)] at he
  split at he
  · next heq =>
    obtain ⟨rfl, -⟩ := List.append_inj' heq rfl
    exact hparent
  · exact h.parent he

theorem Rooted.erase (h : t.Rooted) (hne : t.entryAt? place ≠ some .directory) :
    (t.erase place).Rooted := by
  have hkeeps := keeps_erase hne
  refine ⟨hkeeps.directory h.origin, fun {above last e} he => hkeeps.directory ?_⟩
  rw [entryAt?_erase (ne_root_of_entryAt? hne)] at he
  split at he
  · cases he
  · exact h.parent he

/-- What a directory that could be created has changed. -/
theorem exists_of_makeDirectory (h : t.makeDirectory path = .ok t') : ∃ parent name,
    t.follow path = .ok (.named parent name) ∧ t.entryAt? (parent ++ [name]) = none ∧
      t' = t.put (parent ++ [name]) .directory := by
  obtain ⟨target, hfollow, hmade⟩ := exists_of_bind h
  cases target with
  | directory reached => cases hmade
  | named parent name =>
    rw [makeDirectory_of_named hfollow] at h
    split at h
    · cases h
    · next hnone => exact ⟨parent, name, hfollow, by simpa using hnone, (Except.ok.inj h).symm⟩

/-- What a file that could be written has changed. -/
theorem exists_of_write {content : Bytes} (h : t.write path content = .ok t') : ∃ parent name,
    t.follow path = .ok (.named parent name) ∧ Path.endsInSlash path = false ∧
      t.entryAt? (parent ++ [name]) ≠ some .directory ∧
      t' = t.put (parent ++ [name]) (.file content t.now) := by
  obtain ⟨target, hfollow, hwritten⟩ := exists_of_bind h
  cases target with
  | directory reached => cases hwritten
  | named parent name =>
    simp only at hwritten
    split at hwritten
    · cases hwritten
    · next hslash =>
      have hslash : Path.endsInSlash path = false := by simpa using hslash
      split at hwritten
      · cases hwritten
      · next hne =>
        rw [write_of_named content hfollow hslash hne] at h
        exact ⟨parent, name, hfollow, hslash, hne, (Except.ok.inj h).symm⟩

/-- What a file that got another path has changed. -/
theorem exists_of_rename {source goal : String} (h : t.rename source goal = .ok t') :
    ∃ place e parent name, t.find source = .ok (place, e) ∧
      t.follow goal = .ok (.named parent name) ∧
      t.entryAt? (parent ++ [name]) ≠ some .directory ∧
      t' = (t.erase place).put (parent ++ [name]) e := by
  obtain ⟨⟨place, e⟩, hfind, hfound⟩ := exists_of_bind h
  obtain ⟨target, hfollow, hrenamed⟩ := exists_of_bind hfound
  cases target with
  | directory reached => cases hrenamed
  | named parent name =>
    simp only at hrenamed
    split at hrenamed
    · cases hrenamed
    · next hne =>
      rw [rename_of_named hfind hfollow hne] at h
      exact ⟨place, e, parent, name, hfind, hfollow, hne, (Except.ok.inj h).symm⟩

/-- A file is removed if there is one. -/
theorem removeFile_cases (t : Tree) (path : String) :
    (∃ place content modified, t.find path = .ok (place, .file content modified) ∧
      t.removeFile path = .ok (t.erase place)) ∨
    (∀ place content modified, t.find path ≠ .ok (place, .file content modified)) ∧
      ∃ cause, t.removeFile path = .error cause := by
  cases hfind : t.find path with
  | error cause =>
    refine Or.inr ⟨fun _ _ _ => nofun, cause, ?_⟩
    rw [removeFile, hfind]
    rfl
  | ok found =>
    obtain ⟨place, e⟩ := found
    cases e with
    | file content modified =>
      refine Or.inl ⟨place, content, modified, rfl, ?_⟩
      rw [removeFile, hfind]
      rfl
    | directory =>
      refine Or.inr ⟨fun _ _ _ => nofun, .isDirectory, ?_⟩
      rw [removeFile, hfind]
      rfl

/-! ## What is found after a file was written -/

/-- A file stands where it is found. -/
theorem entryAt?_of_find {content : Bytes} {modified : Int}
    (h : t.find path = .ok (place, .file content modified)) :
    t.entryAt? place = some (.file content modified) := by
  obtain ⟨target, hfollow, hfound⟩ := exists_of_bind h
  cases target with
  | directory reached => cases hfound
  | named parent name =>
    rw [find_of_named hfollow] at h
    split at h
    · cases h
    · cases h
    · next e _ he =>
      split at h
      · cases h
      · obtain ⟨rfl, rfl⟩ := Prod.mk.inj (Except.ok.inj h)
        exact he

theorem exists_of_read {content : Bytes} (h : t.read path = .ok content) :
    ∃ place modified, t.find path = .ok (place, .file content modified) := by
  obtain ⟨⟨place, e⟩, hfind, hread⟩ := exists_of_bind h
  cases e with
  | directory => cases hread
  | file bytes modified =>
    obtain rfl : bytes = content := Except.ok.inj hread
    exact ⟨place, modified, hfind⟩

theorem read_of_find {content : Bytes} {modified : Int}
    (h : t.find path = .ok (place, .file content modified)) : t.read path = .ok content := by
  rw [read, h]
  rfl

theorem find_of_put {content : Bytes} {modified : Int}
    (hfollow : t.follow path = .ok (.named parent name)) (hslash : Path.endsInSlash path = false)
    (hkeeps : Keeps t t') (hfile : t'.entryAt? (parent ++ [name]) = some (.file content modified)) :
    t'.find path = .ok (parent ++ [name], .file content modified) := by
  rw [find_of_named (hkeeps.follow hfollow), hfile]
  simp only [hslash]
  rfl

theorem put_put (t : Tree) (place : Place) (e e' : Entry) :
    (t.put place e).put place e' = t.put place e' := by
  simp [put, erase]

/-- A file that can be written can be written before with other content. -/
theorem write_twice {content : Bytes} (h : t.write path content = .ok t') (first : Bytes) :
    ∃ t₁, t.write path first = .ok t₁ ∧ t₁.write path content = .ok t' := by
  obtain ⟨parent, name, hfollow, hslash, hne, rfl⟩ := exists_of_write h
  have hkeeps := keeps_put hne (.file first t.now)
  refine ⟨_, write_of_named first hfollow hslash hne, ?_⟩
  rw [write_of_named content (hkeeps.follow hfollow) hslash, put_put]
  · rfl
  · rw [entryAt?_put (by simp), if_pos rfl]
    nofun

theorem keeps_rename (hfile : t.entryAt? reached ≠ some .directory)
    (hne : t.entryAt? place ≠ some .directory) (e : Entry) :
    Keeps t ((t.erase reached).put place e) := by
  refine (keeps_erase hfile).trans (keeps_put ?_ e)
  rw [entryAt?_erase (ne_root_of_entryAt? hfile)]
  split
  · nofun
  · exact hne

/-! ## Where paths lead -/

/-- The path goes to a place, and on from there by the given names. -/
def Leads (t : Tree) (place : Place) (path : String) (names : List String) : Prop :=
  ∃ before, Path.components path = before ++ names ∧ t.walk (t.start path) before = .ok place

theorem Keeps.leads (h : Keeps t t') (hleads : t.Leads place path names) :
    t'.Leads place path names := by
  obtain ⟨before, hcomponents, hwalk⟩ := hleads
  refine ⟨before, hcomponents, ?_⟩
  rw [h.start_eq]
  exact h.walk hwalk

theorem foldl_lead_of_names (hn : ∀ name ∈ names, Path.IsName name) (place : Place) :
    names.foldl Path.lead place = place ++ names := by
  induction names generalizing place with
  | nil => rw [List.foldl_nil, List.append_nil]
  | cons first rest ih =>
    have hfirst := hn first List.mem_cons_self
    rw [List.foldl_cons, Path.lead, if_neg hfirst.ne_here, if_neg hfirst.ne_above,
      ih fun name hname => hn name (List.mem_cons_of_mem _ hname), List.append_assoc,
      List.singleton_append]

theorem Leads.place_eq (h : t.Leads place path names) (hn : ∀ name ∈ names, Path.IsName name)
    (hfollow : t.follow path = .ok target) : target.place = place ++ names := by
  obtain ⟨before, hcomponents, hwalk⟩ := h
  rw [follow_eq_lead hfollow, hcomponents, List.foldl_append, ← walk_eq_lead hwalk,
    foldl_lead_of_names hn]

theorem Leads.place_of_find (h : t.Leads place path names)
    (hn : ∀ name ∈ names, Path.IsName name) (hfind : t.find path = .ok (reached, e)) :
    reached = place ++ names := by
  obtain ⟨before, hcomponents, hwalk⟩ := h
  rw [find_eq_lead hfind, hcomponents, List.foldl_append, ← walk_eq_lead hwalk,
    foldl_lead_of_names hn]

/-! ## What is found after a change elsewhere -/

theorem find_congr (hfollow : t'.follow path = t.follow path)
    (hentry : ∀ parent name, t.follow path = .ok (.named parent name) →
      t'.entryAt? (parent ++ [name]) = t.entryAt? (parent ++ [name])) :
    t'.find path = t.find path := by
  cases hold : t.follow path with
  | error e =>
    rw [find, find, hfollow, hold]
    rfl
  | ok target =>
    cases target with
    | directory place =>
      rw [find, find, hfollow, hold]
      rfl
    | named parent name =>
      rw [find_of_named hold, find_of_named (hfollow.trans hold), hentry parent name hold]

/-- A text that is no path is refused in every tree for the same cause. -/
theorem follow_of_not_accepts (hlimits : t'.limits = t.limits) (h : ¬ t.Accepts path) :
    t'.follow path = t.follow path := by
  rw [follow, follow, hlimits]
  by_cases hnul : path.toList.contains '\x00' = true
  · rw [if_pos hnul, if_pos hnul]
  rw [if_neg hnul, if_neg hnul]
  by_cases hempty : path.isEmpty = true
  · rw [if_pos hempty, if_pos hempty]
  rw [if_neg hempty, if_neg hempty]
  by_cases hadmitted : t.limits.admitsPath path = true
  · exact absurd ⟨by simpa using hempty, by simpa using hnul, hadmitted⟩ h
  · rw [Bool.not_eq_true] at hadmitted
    rw [hadmitted]
    rfl

/-- Names that lead through no file are followed to their end, or up to the first gap or the first
name that is too long. -/
theorem walk_cases (hn : ∀ name ∈ names, Path.IsName name) (h : t.Passable place names) :
    t.walk place names = .ok (place ++ names) ∨ t.walk place names = .error .notFound ∨
      (∃ name ∈ names, t.limits.admitsName name = false) ∧
        t.walk place names = .error .nameTooLong := by
  induction names generalizing place with
  | nil => exact Or.inl (by rw [List.append_nil]; rfl)
  | cons first rest ih =>
    obtain ⟨hfirst, hrest⟩ := passable_cons.1 h
    have hname := hn first List.mem_cons_self
    cases hadmits : t.limits.admitsName first with
    | false =>
      refine Or.inr (Or.inr ⟨⟨first, List.mem_cons_self, hadmits⟩, ?_⟩)
      rw [walk_cons, enter_of_long hname hadmits]
      rfl
    | true =>
      rcases hfirst with hdirectory | hnone
      · have htail := ih (fun name hmem => hn name (List.mem_cons_of_mem _ hmem)) hrest
        rw [walk_through hname hadmits hdirectory, List.append_cons place first rest]
        refine htail.imp_right (Or.imp_right ?_)
        rintro ⟨⟨name, hmem, hlong⟩, hwalk⟩
        exact ⟨⟨name, List.mem_cons_of_mem _ hmem, hlong⟩, hwalk⟩
      · exact Or.inr (Or.inl (walk_to_gap hname hadmits hnone rest))

/-- What stands at the places on the way is the same in both trees, or a directory in the second one
where nothing stood in the first. -/
def Grows (place : Place) (names : List String) (t t' : Tree) : Prop :=
  ∀ rel, rel <+: names → rel ≠ [] → t'.entryAt? (place ++ rel) = t.entryAt? (place ++ rel) ∨
    t.entryAt? (place ++ rel) = none ∧ t'.entryAt? (place ++ rel) = some .directory

theorem grows_cons (h : Grows place (name :: names) t t') :
    (t'.entryAt? (place ++ [name]) = t.entryAt? (place ++ [name]) ∨
      t.entryAt? (place ++ [name]) = none ∧ t'.entryAt? (place ++ [name]) = some .directory) ∧
      Grows (place ++ [name]) names t t' := by
  refine ⟨h [name] (by simp) (by simp), fun rel hrel hne => ?_⟩
  have hcons := h (name :: rel) (List.cons_prefix_cons.2 ⟨rfl, hrel⟩) (List.cons_ne_nil _ _)
  simpa using hcons

/-- Where nothing stood, there are directories now, or still nothing. -/
theorem Grows.passable (h : Grows place names t t') (hroot : t.Rooted)
    (hnone : t.entryAt? place = none) : t'.Passable place names := by
  intro rel hrel hne
  rcases h rel hrel hne with hsame | ⟨-, hdirectory⟩
  · rw [hroot.entryAt?_below hnone] at hsame
    exact Or.inr hsame
  · exact Or.inl hdirectory

/-- The names lead as far as before, or further than the gap at which they ended before. -/
theorem walk_grown (hroot : t.Rooted) (hlimits : t'.limits = t.limits)
    (hn : ∀ name ∈ names, Path.IsName name) (h : Grows place names t t') :
    t'.walk place names = t.walk place names ∨
      t.walk place names = .error .notFound ∧ t.entryAt? (place ++ names) = none ∧
        (t'.walk place names = .ok (place ++ names) ∨
          (∃ name ∈ names, t.limits.admitsName name = false) ∧
            t'.walk place names = .error .nameTooLong) := by
  induction names generalizing place with
  | nil => exact Or.inl rfl
  | cons first rest ih =>
    obtain ⟨hfirst, hrest⟩ := grows_cons h
    have hname := hn first List.mem_cons_self
    have hnames : ∀ name ∈ rest, Path.IsName name :=
      fun name hmem => hn name (List.mem_cons_of_mem _ hmem)
    have hlonger : (∃ name ∈ rest, t.limits.admitsName name = false) →
        ∃ name ∈ first :: rest, t.limits.admitsName name = false := by
      rintro ⟨name, hmem, hlong⟩
      exact ⟨name, List.mem_cons_of_mem _ hmem, hlong⟩
    cases hadmits : t.limits.admitsName first with
    | false =>
      left
      rw [walk_cons, walk_cons, enter_of_long hname hadmits,
        enter_of_long hname (hlimits ▸ hadmits)]
      rfl
    | true =>
      have hadmits' : t'.limits.admitsName first = true := hlimits ▸ hadmits
      rw [List.append_cons place first rest]
      rcases hfirst with hsame | ⟨hnone, hdirectory⟩
      · cases he : t.entryAt? (place ++ [first]) with
        | none =>
          left
          rw [walk_to_gap hname hadmits he, walk_to_gap hname hadmits' (hsame.trans he)]
        | some e =>
          cases e with
          | file content modified =>
            left
            rw [walk_cons, walk_cons, enter_of_name hname hadmits, enter_of_name hname hadmits',
              hsame, he]
            rfl
          | directory =>
            rw [walk_through hname hadmits he, walk_through hname hadmits' (hsame.trans he)]
            refine (ih hnames hrest).imp_right (And.imp_right (And.imp_right (Or.imp_right ?_)))
            exact And.imp_left hlonger
      · rw [walk_to_gap hname hadmits hnone, walk_through hname hadmits' hdirectory]
        have hbelow := hroot.entryAt?_below hnone rest
        rcases walk_cases hnames (hrest.passable hroot hnone) with hwalk | hwalk | ⟨hlong, hwalk⟩
        · exact Or.inr ⟨rfl, hbelow, Or.inl hwalk⟩
        · exact Or.inl hwalk
        · rw [hlimits] at hlong
          exact Or.inr ⟨rfl, hbelow, Or.inr ⟨hlonger hlong, hwalk⟩⟩

/-- Where what stands at the end of a path is as before, and there are at most more directories on
the way, the path finds what it found before. Only where nothing was found may a name turn out to be
too long. -/
theorem find_grown (hroot : t.Rooted) (hkeeps : Keeps t t')
    (hleads : t.Leads place path (names ++ [last]))
    (hn : ∀ name ∈ names ++ [last], Path.IsName name) (hgrows : Grows place names t t')
    (hend : t'.entryAt? (place ++ (names ++ [last])) = t.entryAt? (place ++ (names ++ [last]))) :
    t'.find path = t.find path ∨
      (∃ name ∈ names ++ [last], t.limits.admitsName name = false) ∧
        t.find path = .error .notFound ∧ t'.find path = .error .nameTooLong := by
  have hsame : t'.follow path = t.follow path → t'.find path = t.find path := by
    intro hfollow
    refine find_congr hfollow fun parent name hnamed => ?_
    have hplace : parent ++ [name] = place ++ (names ++ [last]) := hleads.place_eq hn hnamed
    rw [hplace, hend]
  by_cases haccepts : t.Accepts path
  · have hspells : t.Spells place path (names ++ [last]) := ⟨haccepts, hleads⟩
    have hfollow := hspells.follow_eq
    have hfollow' := (hkeeps.spells hspells).follow_eq
    have hnames : ∀ name ∈ names, Path.IsName name :=
      fun name hmem => hn name (List.mem_append_left _ hmem)
    have hlast : Path.IsName last := hn last (by simp)
    rcases walk_grown hroot hkeeps.limits_eq hnames hgrows with hwalk | ⟨hgap, hnone, hwalk⟩
    · left
      refine hsame ?_
      rw [hfollow, hfollow', hwalk]
      congr 1
      exact funext fun parent => hkeeps.arrive_eq last parent
    · -- the path ended at a gap before, so nothing stands where it leads
      have hfind : t.find path = .error .notFound := by
        rw [find, hfollow, hgap]
        rfl
      rcases hwalk with hwalk | ⟨⟨long, hmem, hlong⟩, hwalk⟩
      · rw [hwalk] at hfollow'
        have harrive := arrive_of_name (t := t') hlast (place ++ names)
        cases hadmits : t'.limits.admitsName last with
        | true =>
          left
          rw [hadmits, if_pos rfl] at harrive
          rw [find_of_named (hfollow'.trans harrive), List.append_assoc, hend,
            ← List.append_assoc, hroot.entryAt?_below hnone, hfind]
        | false =>
          right
          rw [hadmits, if_neg Bool.false_ne_true] at harrive
          rw [hkeeps.limits_eq] at hadmits
          refine ⟨⟨last, by simp, hadmits⟩, hfind, ?_⟩
          rw [find, hfollow'.trans harrive]
          rfl
      · right
        refine ⟨⟨long, List.mem_append_left _ hmem, hlong⟩, hfind, ?_⟩
        rw [find, hfollow', hwalk]
        rfl
  · exact Or.inl (hsame (follow_of_not_accepts hkeeps.limits_eq haccepts))

/-! ## Directories that are created -/

theorem Rooted.makeDirectory (h : t.Rooted) (hmade : t.makeDirectory path = .ok t') :
    t'.Rooted := by
  obtain ⟨parent, name, hfollow, hnone, rfl⟩ := exists_of_makeDirectory hmade
  exact h.put (h.follow hfollow) (by rw [hnone]; nofun) .directory

theorem isDirectory_of_makeDirectory (hmade : t.makeDirectory path = .ok t') :
    t'.isDirectory path = true := by
  obtain ⟨parent, name, hfollow, hnone, rfl⟩ := exists_of_makeDirectory hmade
  have hne : t.entryAt? (parent ++ [name]) ≠ some .directory := by
    rw [hnone]
    nofun
  have hfollow' := (keeps_put hne .directory).follow hfollow
  have hfind : (t.put (parent ++ [name]) .directory).find path =
      .ok (parent ++ [name], .directory) := by
    rw [find_of_named hfollow', entryAt?_put (by simp), if_pos rfl]
  exact isDirectory_of_find hfind

theorem Rooted.makeFirst (h : t.Rooted) (paths : List String) : (t.makeFirst paths).2.Rooted := by
  induction paths with
  | nil => exact h
  | cons path above ih =>
    rw [Tree.makeFirst]
    split
    · exact h
    · split
      · next made hmade => exact h.makeDirectory hmade
      · split
        · next e made hfirst =>
          rw [hfirst] at ih
          exact ih
        · next made hfirst =>
          rw [hfirst] at ih
          split
          · next made' hmade => exact ih.makeDirectory hmade
          · split <;> exact ih
      · split <;> exact h

/-- Directories are created if the path leads to one in the end. -/
theorem isDirectory_of_makeFirst {above : List String}
    (hmade : (t.makeFirst (path :: above)).1 = .ok ()) :
    path = "" ∨ (t.makeFirst (path :: above)).2.isDirectory path = true := by
  rw [makeFirst] at hmade ⊢
  split at hmade
  · next hempty => exact Or.inl (by simpa using hempty)
  · next hempty =>
    right
    rw [if_neg hempty]
    split at hmade
    · next made hmake => exact isDirectory_of_makeDirectory hmake
    · split at hmade
      · cases hmade
      · next made hfirst =>
        split at hmade
        · next made' hmake => exact isDirectory_of_makeDirectory hmake
        · split at hmade
          · next hdirectory => rw [if_pos hdirectory]; exact hdirectory
          · cases hmade
    · split at hmade
      · next hdirectory => rw [if_pos hdirectory]; exact hdirectory
      · cases hmade

theorem exists_find_of_isDirectory (h : t.isDirectory path = true) :
    ∃ place, t.find path = .ok (place, .directory) := by
  rw [isDirectory] at h
  split at h
  · next place hfind => exact ⟨place, hfind⟩
  · cases h

/-! ## Directories on the way -/

theorem of_mem_outer {absolute : Bool} {reversed : List String}
    (h : path ∈ Path.outer absolute reversed) :
    ∃ rel, rel <+: reversed.reverse ∧ path = Path.ofComponents absolute rel := by
  induction reversed with
  | nil => cases h
  | cons last above ih =>
    have hinit : above.reverse <+: (last :: above).reverse := by simp
    rcases List.mem_cons.1 h with rfl | hmem
    · exact ⟨above.reverse, hinit, rfl⟩
    · obtain ⟨rel, hrel, hpath⟩ := ih hmem
      exact ⟨rel, hrel.trans hinit, hpath⟩

theorem prefix_append_cases {before : List String} (h : rel <+: before ++ names) :
    rel <+: before ∨ ∃ more, more <+: names ∧ rel = before ++ more := by
  rcases List.prefix_or_prefix_of_prefix h (List.prefix_append before names) with hrel | hbefore
  · exact Or.inl hrel
  · obtain ⟨more, rfl⟩ := hbefore
    exact Or.inr ⟨more, (List.prefix_append_right_inj before).1 h, rfl⟩

section Ancestors

variable {base : String} (hbase : t.Leads place base []) (hn : ∀ name ∈ names, Path.IsName name)
include hbase hn

theorem leads_join : t.Leads place (Path.join base (Path.ofComponents false names)) names := by
  have hparts : ∀ name ∈ names, Path.IsPart name := fun name hname => (hn name hname).toIsPart
  have habsolute := Path.isAbsolute_ofComponents hparts false
  obtain ⟨before, hcomponents, hwalk⟩ := hbase
  rw [List.append_nil] at hcomponents
  refine ⟨before, ?_, ?_⟩
  · rw [Path.components_join habsolute, Path.components_ofComponents hparts, hcomponents]
  · rw [Tree.start, Path.isAbsolute_join habsolute]
    exact hwalk

variable (hnul : '\x00' ∉ base.toList)
include hnul

/-- The directories that a path passes through are on the way to the place, or on the way on. -/
theorem leads_of_mem_ancestors
    (h : path ∈ Path.ancestors (Path.join base (Path.ofComponents false names))) :
    (∃ reached, t.Leads reached path []) ∨ ∃ rel, rel <+: names ∧ t.Leads place path rel := by
  rw [Path.ancestors_join hn] at h
  rcases List.mem_cons.1 h with rfl | hmem
  · exact Or.inr ⟨names, List.prefix_refl _, leads_join hbase hn⟩
  · obtain ⟨before, hcomponents, hwalk⟩ := hbase
    rw [List.append_nil] at hcomponents
    obtain ⟨reached, hreached, rfl⟩ := of_mem_outer hmem
    rw [List.reverse_reverse] at hreached
    have htidied := Path.isPart_tidied hnul hn
    have hreachedparts : ∀ name ∈ reached, Path.IsPart name :=
      fun name hname => htidied name (hreached.subset hname)
    have hpath := Path.components_ofComponents hreachedparts (Path.isAbsolute base)
    have hstart : t.start (Path.ofComponents (Path.isAbsolute base) reached) = t.start base := by
      rw [Tree.start, Path.isAbsolute_ofComponents hreachedparts, Tree.start]
    have hbefore : t.walk (t.start base) ((Path.components base).filter (· ≠ ".")) = .ok place := by
      rw [walk_filter, hcomponents]
      exact hwalk
    rcases prefix_append_cases hreached with ⟨more, hmore⟩ | ⟨rel, hrel, rfl⟩
    · left
      rw [← hmore, walk_append] at hbefore
      obtain ⟨outer, houter, -⟩ := exists_of_bind hbefore
      exact ⟨outer, reached, by rw [hpath, List.append_nil], by rw [hstart]; exact houter⟩
    · exact Or.inr ⟨rel, hrel, _, hpath, by rw [hstart]; exact hbefore⟩

/-- Of the directories that a path passes through, those up to the place are there already. What is
created stands on the way on from the place. -/
theorem exists_of_makeDirectory_ancestor
    (h : path ∈ Path.ancestors (Path.join base (Path.ofComponents false names)))
    (hmade : t.makeDirectory path = .ok t') :
    ∃ parent name rel, t.follow path = .ok (.named parent name) ∧ rel <+: names ∧ rel ≠ [] ∧
      parent ++ [name] = place ++ rel ∧ t.entryAt? (place ++ rel) = none ∧
      t' = t.put (place ++ rel) .directory := by
  obtain ⟨parent, name, hfollow, hnone, rfl⟩ := exists_of_makeDirectory hmade
  have hthere : ∀ reached, ¬ t.Leads reached path [] := by
    intro reached hleads
    rw [makeDirectory_of_spells ⟨accepts_of_follow hfollow, hleads⟩] at hmade
    cases hmade
  rcases leads_of_mem_ancestors hbase hn hnul h with ⟨reached, hleads⟩ | ⟨rel, hrel, hleads⟩
  · exact absurd hleads (hthere reached)
  · have hplace : parent ++ [name] = place ++ rel :=
      hleads.place_eq (fun name hname => hn name (hrel.subset hname)) hfollow
    refine ⟨parent, name, rel, hfollow, hrel, ?_, hplace, hplace ▸ hnone, by rw [hplace]⟩
    rintro rfl
    exact hthere place hleads

end Ancestors

end ArtifactResolver.Files.Tree
