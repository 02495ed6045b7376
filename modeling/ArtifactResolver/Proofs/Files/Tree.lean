import ArtifactResolver.Files.Tree
import ArtifactResolver.Proofs.Files.Path

/-!
# Following paths below a directory

Operations on files that work below one directory are seen from there: a path is taken as the names
that lead on from the directory, and a tree as what stands at the places below it. An operation then
depends on the directories on the way and on what stands at its end, and changes nothing else.
-/

namespace ArtifactResolver.Files.Tree

variable {t : Tree} {place other : Place} {path name : String} {names : List String} {e : Entry}

/-! ## What stands at a place -/

theorem lookup_filter (p : Place → Bool) (entries : List (Place × Entry)) (place : Place) :
    (entries.filter fun entry => p entry.1).lookup place =
      if p place then entries.lookup place else none := by
  induction entries with
  | nil => simp
  | cons entry rest ih =>
    obtain ⟨first, e⟩ := entry
    rw [List.filter_cons, List.lookup_cons]
    by_cases hplace : place = first
    · subst hplace
      cases hp : p place <;> simp [hp, ih]
    · rw [beq_false_of_ne hplace]
      cases hp : p first
      · simpa [hp] using ih
      · simpa [hp, List.lookup_cons, beq_false_of_ne hplace] using ih

theorem entryAt?_erase (hne : place ≠ []) (t : Tree) (other : Place) :
    (t.erase place).entryAt? other = if other = place then none else t.entryAt? other := by
  by_cases hother : other = []
  · subst hother
    simp [entryAt?, hne.symm]
  · have hfilter := lookup_filter (fun reached => decide (reached ≠ place)) t.entries other
    simp only [entryAt?, erase, hother, if_false]
    rw [hfilter]
    by_cases h : other = place <;> simp [h]

theorem entryAt?_put (hne : place ≠ []) (t : Tree) (e : Entry) (other : Place) :
    (t.put place e).entryAt? other = if other = place then some e else t.entryAt? other := by
  by_cases hother : other = []
  · subst hother
    simp [entryAt?, hne.symm]
  · by_cases h : other = place
    · subst h
      simp [entryAt?, put, hother]
    · have herase := entryAt?_erase hne t other
      simp only [entryAt?, hother, if_false, h] at herase ⊢
      rw [put, List.lookup_cons, beq_false_of_ne h]
      exact herase

theorem entryAt?_eraseAll (hne : place ≠ []) (t : Tree) (other : Place) :
    (t.eraseAll place).entryAt? other = if place <+: other then none else t.entryAt? other := by
  by_cases hother : other = []
  · subst hother
    simp [entryAt?, hne]
  · have hfilter := lookup_filter (fun reached => !place.isPrefixOf reached) t.entries other
    simp only [entryAt?, eraseAll, hother, if_false]
    rw [hfilter]
    by_cases h : place <+: other
    · have hprefix : place.isPrefixOf other = true := List.isPrefixOf_iff_prefix.2 h
      rw [if_pos h, hprefix]
      rfl
    · simp [h]

/-- What stands in a directory is among its names. -/
theorem mem_namesIn (h : t.entryAt? (place ++ [name]) = some e) : name ∈ t.namesIn place := by
  have hlookup : t.entries.lookup (place ++ [name]) = some e := by simpa [entryAt?] using h
  obtain ⟨before, after, hentries, _⟩ := List.lookup_eq_some_iff.1 hlookup
  refine List.mem_filterMap.2 ⟨(place ++ [name], e), by simp [hentries], by simp⟩

/-! ## Following names -/

theorem exists_of_bind {α β : Type} {found : Except Error α} {f : α → Except Error β} {result : β}
    (h : (found >>= f) = .ok result) : ∃ a, found = .ok a ∧ f a = .ok result := by
  cases found with
  | error e => cases h
  | ok a => exact ⟨a, rfl, h⟩

/-- Follows names from a directory. -/
def walk (t : Tree) (place : Place) (names : List String) : Except Error Place :=
  names.foldlM t.enter place

/-- The directory at which a path starts. -/
def start (t : Tree) (path : String) : Place := if Path.isAbsolute path then [] else t.origin

/-- The names can stand in the tree. -/
def Takes (t : Tree) (names : List String) : Prop :=
  ∀ name ∈ names, Path.IsName name ∧ t.limits.admitsName name = true

/-- All names on the way lead to directories. -/
def Paved (t : Tree) (place : Place) (names : List String) : Prop :=
  ∀ rel, rel <+: names → rel ≠ [] → t.entryAt? (place ++ rel) = some .directory

/-- No name on the way leads to a file. -/
def Passable (t : Tree) (place : Place) (names : List String) : Prop :=
  ∀ rel, rel <+: names → rel ≠ [] →
    t.entryAt? (place ++ rel) = some .directory ∨ t.entryAt? (place ++ rel) = none

theorem enter_of_name (h : Path.IsName name) (ha : t.limits.admitsName name = true)
    (place : Place) : t.enter place name = match t.entryAt? (place ++ [name]) with
      | some .directory => .ok (place ++ [name])
      | some (.file ..) => .error .notDirectory
      | none => .error .notFound := by
  rw [enter, if_neg h.ne_here, if_neg h.ne_above, ha]
  rfl

theorem enter_of_long (h : Path.IsName name) (ha : t.limits.admitsName name = false)
    (place : Place) : t.enter place name = .error .nameTooLong := by
  rw [enter, if_neg h.ne_here, if_neg h.ne_above, ha]
  rfl

theorem walk_append (t : Tree) (place : Place) (before names : List String) :
    t.walk place (before ++ names) = t.walk place before >>= fun reached => t.walk reached names :=
  List.foldlM_append

theorem walk_concat (t : Tree) (place : Place) (names : List String) (name : String) :
    t.walk place (names ++ [name]) = t.walk place names >>= fun parent => t.enter parent name := by
  rw [walk_append]
  simp only [walk, List.foldlM_cons, List.foldlM_nil, bind_pure]

theorem walk_cons (t : Tree) (place : Place) (name : String) (names : List String) :
    t.walk place (name :: names) = t.enter place name >>= fun reached => t.walk reached names :=
  List.foldlM_cons

theorem walk_through (h : Path.IsName name) (ha : t.limits.admitsName name = true)
    (hdirectory : t.entryAt? (place ++ [name]) = some .directory) (names : List String) :
    t.walk place (name :: names) = t.walk (place ++ [name]) names := by
  rw [walk_cons, enter_of_name h ha, hdirectory]
  rfl

theorem walk_to_gap (h : Path.IsName name) (ha : t.limits.admitsName name = true)
    (hnone : t.entryAt? (place ++ [name]) = none) (names : List String) :
    t.walk place (name :: names) = .error .notFound := by
  rw [walk_cons, enter_of_name h ha, hnone]
  rfl

theorem prefix_cons_cases {p : List String → Prop} (hfirst : p [name])
    (hrest : ∀ rel, rel <+: names → rel ≠ [] → p (name :: rel)) :
    ∀ rel, rel <+: name :: names → rel ≠ [] → p rel := by
  intro rel hrel hne
  cases rel with
  | nil => exact absurd rfl hne
  | cons head tail =>
    obtain ⟨rfl, htail⟩ := List.cons_prefix_cons.1 hrel
    cases tail with
    | nil => exact hfirst
    | cons second tail => exact hrest (second :: tail) htail (List.cons_ne_nil _ _)

theorem Paved.nil (t : Tree) (place : Place) : t.Paved place [] :=
  fun _ hrel hne => absurd (List.prefix_nil.1 hrel) hne

theorem paved_cons : t.Paved place (name :: names) ↔
    t.entryAt? (place ++ [name]) = some .directory ∧ t.Paved (place ++ [name]) names := by
  constructor
  · intro h
    refine ⟨h [name] (by simp) (by simp), fun rel hrel hne => ?_⟩
    have hcons := h (name :: rel) (List.cons_prefix_cons.2 ⟨rfl, hrel⟩) (List.cons_ne_nil _ _)
    simpa using hcons
  · rintro ⟨hfirst, hrest⟩
    exact prefix_cons_cases hfirst fun rel hrel hne => by simpa using hrest rel hrel hne

theorem passable_cons : t.Passable place (name :: names) ↔
    (t.entryAt? (place ++ [name]) = some .directory ∨ t.entryAt? (place ++ [name]) = none) ∧
      t.Passable (place ++ [name]) names := by
  constructor
  · intro h
    refine ⟨h [name] (by simp) (by simp), fun rel hrel hne => ?_⟩
    have hcons := h (name :: rel) (List.cons_prefix_cons.2 ⟨rfl, hrel⟩) (List.cons_ne_nil _ _)
    simpa using hcons
  · rintro ⟨hfirst, hrest⟩
    exact prefix_cons_cases hfirst fun rel hrel hne => by simpa using hrest rel hrel hne

theorem Paved.passable (h : t.Paved place names) : t.Passable place names :=
  fun rel hrel hne => Or.inl (h rel hrel hne)

theorem walk_of_paved (hn : t.Takes names) (h : t.Paved place names) :
    t.walk place names = .ok (place ++ names) := by
  induction names generalizing place with
  | nil => simp [walk, pure, Except.pure]
  | cons first rest ih =>
    obtain ⟨hname, hadmits⟩ := hn first List.mem_cons_self
    obtain ⟨hdirectory, hpaved⟩ := paved_cons.1 h
    have hwalk := ih (fun name hname => hn name (List.mem_cons_of_mem _ hname)) hpaved
    rw [walk_through hname hadmits hdirectory, hwalk, List.append_assoc, List.singleton_append]

/-- Where no file is on the way but not every directory is there, nothing is found. -/
theorem walk_of_gap (hn : t.Takes names) (h : t.Passable place names)
    (hgap : ¬ t.Paved place names) : t.walk place names = .error .notFound := by
  induction names generalizing place with
  | nil => exact absurd (Paved.nil t place) hgap
  | cons first rest ih =>
    obtain ⟨hname, hadmits⟩ := hn first List.mem_cons_self
    obtain ⟨hdirectory | hnone, hpassable⟩ := passable_cons.1 h
    · have hrest : ¬ t.Paved (place ++ [first]) rest :=
        fun hpaved => hgap (paved_cons.2 ⟨hdirectory, hpaved⟩)
      have hwalk := ih (fun name hname => hn name (List.mem_cons_of_mem _ hname)) hpassable hrest
      rw [walk_through hname hadmits hdirectory]
      exact hwalk
    · exact walk_to_gap hname hadmits hnone rest

/-! ## Following paths -/

/-- The text is a path that the tree follows. -/
structure Accepts (t : Tree) (path : String) : Prop where
  ne_empty : path ≠ ""
  no_nul : '\x00' ∉ path.toList
  admitted : t.limits.admitsPath path = true

/-- Where the last name of a path leads from the directory before it. -/
def arrive (t : Tree) (name : String) (parent : Place) : Except Error Target :=
  if name = "." then .ok (.directory parent)
  else if name = ".." then .ok (.directory parent.dropLast)
  else if !t.limits.admitsName name then .error .nameTooLong
  else .ok (.named parent name)

theorem follow_of_no_names (h : t.Accepts path) (hc : Path.components path = []) :
    t.follow path = .ok (.directory (t.start path)) := by
  have hnul : path.toList.contains '\x00' = false := by simpa using h.no_nul
  have hempty : path.isEmpty = false := by simpa using h.ne_empty
  rw [follow, hnul, hempty, h.admitted, hc]
  rfl

theorem follow_of_names (h : t.Accepts path) (hc : Path.components path = names ++ [name]) :
    t.follow path = t.walk (t.start path) names >>= t.arrive name := by
  have hnul : path.toList.contains '\x00' = false := by simpa using h.no_nul
  have hempty : path.isEmpty = false := by simpa using h.ne_empty
  rw [follow, hnul, hempty, h.admitted, hc]
  simp only [List.getLast?_concat, List.dropLast_concat]
  change (t.walk (t.start path) names >>= _) = _
  cases t.walk (t.start path) names with
  | error e => rfl
  | ok parent =>
    show (if name = "." then _ else _) = arrive t name parent
    rw [arrive]
    split
    · rfl
    · split
      · rfl
      · split <;> rfl

theorem accepts_of_follow {target : Target} (h : t.follow path = .ok target) : t.Accepts path := by
  rw [follow] at h
  split at h
  · cases h
  · next hnul =>
    split at h
    · cases h
    · next hempty =>
      split at h
      · cases h
      · next hadmitted =>
        exact ⟨by simpa using hempty, by simpa using hnul, by simpa using hadmitted⟩

theorem named_of_arrive {parent reached : Place} {last : String}
    (h : t.arrive name parent = .ok (.named reached last)) : parent = reached ∧ name = last := by
  rw [arrive] at h
  split at h
  · simp at h
  · split at h
    · simp at h
    · split at h
      · cases h
      · simpa using h

/-- A last name that can be entered leads to that directory, or is a name for it. -/
theorem enter_eq_ok_iff {parent : Place} : t.enter parent name = .ok place ↔
    t.arrive name parent = .ok (.directory place) ∨
      t.arrive name parent = .ok (.named parent name) ∧ parent ++ [name] = place ∧
        t.entryAt? place = some .directory := by
  rw [enter, arrive]
  by_cases hhere : name = "."
  · simp [hhere]
  by_cases habove : name = ".."
  · simp [habove]
  cases hadmitted : t.limits.admitsName name with
  | false => simp [hhere, habove]
  | true =>
    simp only [hhere, habove, if_false, Bool.not_true, Bool.false_eq_true]
    constructor
    · intro h
      split at h
      · next hdirectory =>
        obtain rfl := Except.ok.inj h
        exact Or.inr ⟨trivial, rfl, hdirectory⟩
      · cases h
      · cases h
    · rintro (h | ⟨_, rfl, hdirectory⟩)
      · simp at h
      · simp [hdirectory]

/-! ## Paths that lead below a place -/

/-- The path leads to a place, and on from there by the given names. -/
structure Spells (t : Tree) (place : Place) (path : String) (names : List String) : Prop
    extends t.Accepts path where
  leads : ∃ before, Path.components path = before ++ names ∧
    t.walk (t.start path) before = .ok place

/-- The path that is joined to one that leads to a place leads on from there. -/
theorem Spells.join {base : String} (h : t.Spells place base names)
    (habsolute : Path.isAbsolute path = false) (hne : path ≠ "") (hnul : '\x00' ∉ path.toList)
    (hadmitted : t.limits.admitsPath (Path.join base path) = true) :
    t.Spells place (Path.join base path) (names ++ Path.components path) := by
  obtain ⟨⟨_, hbasenul, _⟩, before, hcomponents, hwalk⟩ := h
  refine ⟨⟨Path.join_ne_empty habsolute hne, fun hmem => ?_, hadmitted⟩, before, ?_, ?_⟩
  · rcases Path.mem_join habsolute hmem with hmem | hmem | hmem
    · exact hbasenul hmem
    · exact absurd hmem (by decide)
    · exact hnul hmem
  · rw [Path.components_join habsolute, hcomponents, List.append_assoc]
  · rw [start, Path.isAbsolute_join habsolute]
    exact hwalk

/-- A point in a path leads nowhere. -/
theorem walk_filter (t : Tree) (place : Place) (names : List String) :
    t.walk place (names.filter (· ≠ ".")) = t.walk place names := by
  induction names generalizing place with
  | nil => rfl
  | cons first rest ih =>
    by_cases hfirst : first = "."
    · have henter : t.enter place first = .ok place := by rw [enter, if_pos hfirst]
      rw [List.filter_cons_of_neg (by simpa using hfirst), walk_cons, henter, ih]
      rfl
    · rw [List.filter_cons_of_pos (by simpa using hfirst), walk_cons, walk_cons]
      simp only [ih]

/-- The paths that a path to a place is tidied to lead there as well, and on from there. -/
theorem Spells.tidied (h : t.Spells place path []) {rel : List String}
    (hrel : ∀ name ∈ rel, Path.IsName name) {tidied : String}
    (htidied : tidied = Path.ofComponents (Path.isAbsolute path)
      ((Path.components path).filter (· ≠ ".") ++ rel))
    (hne : tidied ≠ "") (hadmitted : t.limits.admitsPath tidied = true) :
    t.Spells place tidied rel := by
  have hparts := Path.isPart_tidied h.no_nul hrel
  obtain ⟨before, hcomponents, hwalk⟩ := h.leads
  rw [List.append_nil] at hcomponents
  refine ⟨⟨hne, ?_, hadmitted⟩, before.filter (· ≠ "."), ?_, ?_⟩
  · rw [htidied]
    exact Path.no_nul_ofComponents hparts _
  · rw [htidied, Path.components_ofComponents hparts, hcomponents]
  · rw [start, htidied, Path.isAbsolute_ofComponents hparts, walk_filter]
    exact hwalk

/-- A path that leads on is followed from the place. -/
theorem Spells.follow_eq (h : t.Spells place path (names ++ [name])) :
    t.follow path = t.walk place names >>= t.arrive name := by
  obtain ⟨before, hcomponents, hwalk⟩ := h.leads
  have hnames : Path.components path = (before ++ names) ++ [name] := by
    rw [hcomponents, List.append_assoc]
  have hparent : t.walk (t.start path) (before ++ names) = t.walk place names := by
    rw [walk_append, hwalk]
    rfl
  rw [follow_of_names h.toAccepts hnames, hparent]

theorem arrive_of_name (hname : Path.IsName name) (parent : Place) : t.arrive name parent =
    if t.limits.admitsName name then .ok (.named parent name) else .error .nameTooLong := by
  cases hadmits : t.limits.admitsName name <;>
    simp [arrive, hname.ne_here, hname.ne_above, hadmits]

theorem follow_of_spells (h : t.Spells place path (names ++ [name])) (hn : t.Takes [name]) :
    t.follow path = (t.walk place names).map fun parent => .named parent name := by
  obtain ⟨hname, hadmits⟩ := hn name (by simp)
  rw [h.follow_eq]
  cases t.walk place names with
  | error e => rfl
  | ok parent =>
    show t.arrive name parent = _
    rw [arrive_of_name hname, hadmits]
    rfl

section OnTheWay

variable {more : List String} (h : t.Spells place path (names ++ name :: more)) (hn : t.Takes names)
include h hn

/-- A path leads nowhere if a directory before one of its names is missing. -/
theorem follow_of_gap (hpassable : t.Passable place names) (hgap : ¬ t.Paved place names) :
    t.follow path = .error .notFound := by
  have hwalk := walk_of_gap hn hpassable hgap
  rcases List.eq_nil_or_concat more with rfl | ⟨more, last, rfl⟩
  · rw [h.follow_eq, hwalk]
    rfl
  · rw [List.concat_eq_append, ← List.cons_append, ← List.append_assoc] at h
    rw [h.follow_eq, walk_append, hwalk]
    rfl

/-- A path goes no further than a name that is too long. -/
theorem follow_of_long (hpaved : t.Paved place names) (hname : Path.IsName name)
    (hlong : t.limits.admitsName name = false) : t.follow path = .error .nameTooLong := by
  have hwalk := walk_of_paved hn hpaved
  rcases List.eq_nil_or_concat more with rfl | ⟨more, last, rfl⟩
  · have harrive := arrive_of_name (t := t) hname (place ++ names)
    rw [hlong] at harrive
    rw [h.follow_eq, hwalk]
    exact harrive
  · rw [List.concat_eq_append, ← List.cons_append, ← List.append_assoc] at h
    rw [h.follow_eq, walk_append, hwalk]
    show t.walk (place ++ names) (name :: more) >>= _ = _
    rw [walk_cons, enter_of_long hname hlong]
    rfl

theorem makeDirectory_of_gap (hpassable : t.Passable place names) (hgap : ¬ t.Paved place names) :
    t.makeDirectory path = .error .notFound := by
  rw [makeDirectory, follow_of_gap h hn hpassable hgap]
  rfl

theorem makeDirectory_of_long (hpaved : t.Paved place names) (hname : Path.IsName name)
    (hlong : t.limits.admitsName name = false) :
    t.makeDirectory path = .error .nameTooLong ∧ t.isDirectory path = false := by
  rw [makeDirectory, isDirectory, find, follow_of_long h hn hpaved hname hlong]
  exact ⟨rfl, rfl⟩

end OnTheWay

/-! ## Paths to a directory -/

/-- The path ends in the directory at a place, or in a name for it. -/
def LeadsTo (t : Tree) (path : String) (place : Place) : Prop :=
  t.follow path = .ok (.directory place) ∨
    ∃ parent name, t.follow path = .ok (.named parent name) ∧ parent ++ [name] = place ∧
      t.entryAt? place = some .directory

theorem leadsTo_of_spells (h : t.Spells place path []) : t.LeadsTo path place := by
  obtain ⟨before, hcomponents, hwalk⟩ := h.leads
  rw [List.append_nil] at hcomponents
  rcases List.eq_nil_or_concat before with rfl | ⟨names, name, rfl⟩
  · have hstart : t.start path = place := Except.ok.inj hwalk
    exact Or.inl (by rw [follow_of_no_names h.toAccepts hcomponents, hstart])
  · rw [List.concat_eq_append] at hcomponents hwalk
    rw [walk_concat] at hwalk
    obtain ⟨parent, hparent, henter⟩ := exists_of_bind hwalk
    rw [LeadsTo, follow_of_names h.toAccepts hcomponents, hparent]
    rcases enter_eq_ok_iff.1 henter with harrive | ⟨harrive, hplace, hdirectory⟩
    · exact Or.inl harrive
    · exact Or.inr ⟨parent, name, harrive, hplace, hdirectory⟩

theorem accepts_of_leadsTo (h : t.LeadsTo path place) : t.Accepts path := by
  rcases h with hfollow | ⟨_, _, hfollow, _⟩
  · exact accepts_of_follow hfollow
  · exact accepts_of_follow hfollow

theorem spells_of_leadsTo (h : t.LeadsTo path place) : t.Spells place path [] := by
  have haccepts := accepts_of_leadsTo h
  rw [LeadsTo] at h
  rcases List.eq_nil_or_concat (Path.components path) with hnil | ⟨names, name, hconcat⟩
  · rw [follow_of_no_names haccepts hnil] at h
    have hstart : t.start path = place := by simpa using h
    exact ⟨haccepts, [], by simpa using hnil, congrArg Except.ok hstart⟩
  · rw [List.concat_eq_append] at hconcat
    rw [follow_of_names haccepts hconcat] at h
    refine ⟨haccepts, names ++ [name], by rw [hconcat, List.append_nil], ?_⟩
    rw [walk_concat]
    cases hparent : t.walk (t.start path) names with
    | error e =>
      rw [hparent] at h
      rcases h with h | ⟨_, _, h, _⟩ <;> cases h
    | ok parent =>
      rw [hparent] at h
      refine enter_eq_ok_iff.2 ?_
      rcases h with harrive | ⟨reached, last, harrive, hplace, hdirectory⟩
      · exact Or.inl harrive
      · obtain ⟨rfl, rfl⟩ := named_of_arrive harrive
        exact Or.inr ⟨harrive, hplace, hdirectory⟩

theorem find_of_named {parent : Place} (h : t.follow path = .ok (.named parent name)) :
    t.find path = match t.entryAt? (parent ++ [name]) with
      | none => .error .notFound
      | some .directory => .ok (parent ++ [name], .directory)
      | some e =>
        if Path.endsInSlash path then .error .notDirectory else .ok (parent ++ [name], e) := by
  rw [find, h]
  rfl

theorem find_eq_directory_iff : t.find path = .ok (place, .directory) ↔ t.LeadsTo path place := by
  constructor
  · intro h
    obtain ⟨target, hfollow, hfound⟩ := exists_of_bind h
    cases target with
    | directory reached =>
      have hplace : reached = place := congrArg Prod.fst (Except.ok.inj hfound)
      exact Or.inl (hplace ▸ hfollow)
    | named parent name =>
      rw [find_of_named hfollow] at h
      split at h
      · cases h
      · next hdirectory =>
        obtain rfl : parent ++ [name] = place := congrArg Prod.fst (Except.ok.inj h)
        exact Or.inr ⟨parent, name, hfollow, rfl, hdirectory⟩
      · next e hne _ =>
        split at h
        · cases h
        · exact absurd (congrArg Prod.snd (Except.ok.inj h)) (by simpa using hne)
  · rintro (hfollow | ⟨parent, name, hfollow, rfl, hdirectory⟩)
    · rw [find, hfollow]
      rfl
    · rw [find_of_named hfollow, hdirectory]

/-- A path to a directory leads to its place. -/
theorem spells_of_find (h : t.find path = .ok (place, .directory)) : t.Spells place path [] :=
  spells_of_leadsTo (find_eq_directory_iff.1 h)

theorem find_of_spells (h : t.Spells place path []) : t.find path = .ok (place, .directory) :=
  find_eq_directory_iff.2 (leadsTo_of_spells h)

/-! ## What is found below a place -/

theorem makeDirectory_of_named {parent : Place} (h : t.follow path = .ok (.named parent name)) :
    t.makeDirectory path = if (t.entryAt? (parent ++ [name])).isSome then .error .alreadyExists
      else .ok (t.put (parent ++ [name]) .directory) := by
  rw [makeDirectory, h]
  rfl

theorem takes_append {more : List String} :
    t.Takes (names ++ more) ↔ t.Takes names ∧ t.Takes more := by
  simp only [Takes, List.forall_mem_append]

theorem Paved.init (h : t.Paved place (names ++ [name])) : t.Paved place names :=
  fun rel hrel hne => h rel (hrel.trans (List.prefix_append names [name])) hne

theorem Passable.init (h : t.Passable place (names ++ [name])) : t.Passable place names :=
  fun rel hrel hne => h rel (hrel.trans (List.prefix_append names [name])) hne

theorem Paved.last (h : t.Paved place (names ++ [name])) :
    t.entryAt? (place ++ names ++ [name]) = some .directory := by
  rw [List.append_assoc]
  exact h (names ++ [name]) (List.prefix_refl _) (by simp)

section Below

variable (h : t.Spells place path (names ++ [name])) (hn : t.Takes (names ++ [name]))
include h hn

theorem follow_of_paved (hpaved : t.Paved place names) :
    t.follow path = .ok (.named (place ++ names) name) := by
  obtain ⟨hnames, hname⟩ := takes_append.1 hn
  rw [follow_of_spells h hname, walk_of_paved hnames hpaved]
  rfl

theorem find_directory (hpaved : t.Paved place (names ++ [name])) :
    t.find path = .ok (place ++ names ++ [name], .directory) := by
  rw [find_of_named (follow_of_paved h hn hpaved.init), hpaved.last]

theorem find_file (hpaved : t.Paved place names) (hslash : Path.endsInSlash path = false)
    {content : Bytes} {modified : Int}
    (hfile : t.entryAt? (place ++ names ++ [name]) = some (.file content modified)) :
    t.find path = .ok (place ++ names ++ [name], .file content modified) := by
  rw [find_of_named (follow_of_paved h hn hpaved), hfile]
  simp only [hslash]
  rfl

theorem find_missing (hpassable : t.Passable place names)
    (hnone : t.entryAt? (place ++ names ++ [name]) = none) : t.find path = .error .notFound := by
  by_cases hpaved : t.Paved place names
  · rw [find_of_named (follow_of_paved h hn hpaved), hnone]
  · rw [find, follow_of_gap h (takes_append.1 hn).1 hpassable hpaved]
    rfl

theorem makeDirectory_of_none (hpaved : t.Paved place names)
    (hnone : t.entryAt? (place ++ names ++ [name]) = none) :
    t.makeDirectory path = .ok (t.put (place ++ names ++ [name]) .directory) := by
  rw [makeDirectory_of_named (follow_of_paved h hn hpaved), hnone]
  rfl

theorem makeDirectory_of_paved (hpaved : t.Paved place (names ++ [name])) :
    t.makeDirectory path = .error .alreadyExists := by
  rw [makeDirectory_of_named (follow_of_paved h hn hpaved.init), hpaved.last]
  rfl

end Below

/-- A directory that is there cannot be created. -/
theorem makeDirectory_of_spells (h : t.Spells place path []) :
    t.makeDirectory path = .error .alreadyExists := by
  rcases leadsTo_of_spells h with hfollow | ⟨parent, name, hfollow, rfl, hdirectory⟩
  · rw [makeDirectory, hfollow]
    rfl
  · rw [makeDirectory_of_named hfollow, hdirectory]
    rfl

theorem isDirectory_of_find (h : t.find path = .ok (place, .directory)) :
    t.isDirectory path = true := by
  rw [isDirectory, h]

/-! ## Trees that keep their directories -/

/-- The second tree has every directory of the first one, and follows names and paths of the same
lengths. -/
structure Keeps (t t' : Tree) : Prop where
  limits_eq : t'.limits = t.limits
  origin_eq : t'.origin = t.origin
  directory : ∀ {other}, t.entryAt? other = some .directory → t'.entryAt? other = some .directory

section Keeps

variable {t' t'' : Tree} {parent reached : Place} {target : Target}

theorem Keeps.refl (t : Tree) : Keeps t t := ⟨rfl, rfl, id⟩

theorem Keeps.trans (h : Keeps t t') (h' : Keeps t' t'') : Keeps t t'' :=
  ⟨h'.limits_eq.trans h.limits_eq, h'.origin_eq.trans h.origin_eq, h'.directory ∘ h.directory⟩

theorem Keeps.accepts (h : Keeps t t') (haccepts : t.Accepts path) : t'.Accepts path :=
  ⟨haccepts.ne_empty, haccepts.no_nul, h.limits_eq ▸ haccepts.admitted⟩

theorem Keeps.arrive_eq (h : Keeps t t') (name : String) (parent : Place) :
    t'.arrive name parent = t.arrive name parent := by
  rw [arrive, arrive, h.limits_eq]

theorem Keeps.start_eq (h : Keeps t t') (path : String) : t'.start path = t.start path := by
  rw [start, start, h.origin_eq]

/-- What was entered before is entered again. -/
theorem Keeps.enter (h : Keeps t t') (henter : t.enter parent name = .ok reached) :
    t'.enter parent name = .ok reached := by
  rw [enter_eq_ok_iff] at henter ⊢
  rw [h.arrive_eq]
  refine henter.imp_right ?_
  rintro ⟨harrive, hplace, hdirectory⟩
  exact ⟨harrive, hplace, h.directory hdirectory⟩

theorem Keeps.walk (h : Keeps t t') (hwalk : t.walk place names = .ok reached) :
    t'.walk place names = .ok reached := by
  induction names generalizing place with
  | nil => exact hwalk
  | cons first rest ih =>
    rw [walk_cons] at hwalk ⊢
    obtain ⟨next, henter, hrest⟩ := exists_of_bind hwalk
    rw [h.enter henter]
    exact ih hrest

theorem Keeps.spells (h : Keeps t t') (hspells : t.Spells place path names) :
    t'.Spells place path names := by
  obtain ⟨before, hcomponents, hwalk⟩ := hspells.leads
  refine ⟨h.accepts hspells.toAccepts, before, hcomponents, ?_⟩
  rw [h.start_eq]
  exact h.walk hwalk

/-- A path that was followed before is followed again. -/
theorem Keeps.follow (h : Keeps t t') (hfollow : t.follow path = .ok target) :
    t'.follow path = .ok target := by
  have haccepts := accepts_of_follow hfollow
  rcases List.eq_nil_or_concat (Path.components path) with hnil | ⟨names, name, hconcat⟩
  · rw [follow_of_no_names haccepts hnil] at hfollow
    rw [follow_of_no_names (h.accepts haccepts) hnil, h.start_eq]
    exact hfollow
  · rw [List.concat_eq_append] at hconcat
    rw [follow_of_names haccepts hconcat] at hfollow
    rw [follow_of_names (h.accepts haccepts) hconcat, h.start_eq]
    obtain ⟨parent, hwalk, harrive⟩ := exists_of_bind hfollow
    rw [h.walk hwalk]
    exact (h.arrive_eq name parent).trans harrive

end Keeps

/-! ## Trees that differ below a place -/

/-- No directory stands anywhere below the place. -/
def Bare (t : Tree) (place : Place) : Prop :=
  ∀ rel, rel ≠ [] → t.entryAt? (place ++ rel) ≠ some .directory

/-- The trees differ at most below the place, and in the time. -/
structure SameAround (place : Place) (t t' : Tree) : Prop where
  limits_eq : t'.limits = t.limits
  origin_eq : t'.origin = t.origin
  entryAt?_eq : ∀ other, (∀ rel, rel ≠ [] → other ≠ place ++ rel) →
    t'.entryAt? other = t.entryAt? other

section SameAround

variable {t' t'' : Tree}

theorem SameAround.refl (place : Place) (t : Tree) : SameAround place t t :=
  ⟨rfl, rfl, fun _ _ => rfl⟩

theorem SameAround.trans (h : SameAround place t t') (h' : SameAround place t' t'') :
    SameAround place t t'' where
  limits_eq := h'.limits_eq.trans h.limits_eq
  origin_eq := h'.origin_eq.trans h.origin_eq
  entryAt?_eq other hother := (h'.entryAt?_eq other hother).trans (h.entryAt?_eq other hother)

/-- Where there is no directory below the place, none is lost there. -/
theorem SameAround.keeps (h : SameAround place t t') (hbare : t.Bare place) : Keeps t t' := by
  refine ⟨h.limits_eq, h.origin_eq, fun {other} hdirectory => ?_⟩
  rw [h.entryAt?_eq other fun rel hrel hother => ?_]
  · exact hdirectory
  · rw [hother] at hdirectory
    exact hbare rel hrel hdirectory

theorem SameAround.takes (h : SameAround place t t') (hn : t.Takes names) : t'.Takes names := by
  intro name hname
  rw [h.limits_eq]
  exact hn name hname

/-- The way to the place does not pass through anything below it. -/
theorem SameAround.spells (h : SameAround place t t') (hbare : t.Bare place)
    (hspells : t.Spells place path names) : t'.Spells place path names :=
  (h.keeps hbare).spells hspells

end SameAround

end ArtifactResolver.Files.Tree
