import ArtifactResolver.Cache.Directory
import ArtifactResolver.Proofs.Action
import ArtifactResolver.Proofs.Cache.Segments
import ArtifactResolver.Proofs.Files.Making

/-!
# A cache in a directory is a map

Whatever is written to a cache in a directory and however often it is cleared, the directory holds
the lock file, one file for each entry at the path of its key, and the directories in between. So
reading gives what was written last since the directory was cleared, and nothing else is left in it.
-/

namespace ArtifactResolver.Cache

open Files (Entry Limits Path.IsName Path.IsPart Place Tree)
open Files.Tree (Bare Gains Paved Passable SameAround Spells Takes)

namespace Directory

variable {d : Directory} {t t₀ : Tree} {place : Place} {repository : String} {request : Request}

/-! ## Paths -/

theorem entryPath_eq (d : Directory) (key : Key) :
    d.entryPath key = Files.Path.join d.location (Files.Path.ofComponents false key.names) := by
  rw [entryPath, Key.text_eq]

theorem entryDirectory_eq (d : Directory) (key : Key) : d.entryDirectory key =
    Files.Path.join d.location (Files.Path.ofComponents false key.names.dropLast) := by
  rw [entryDirectory, Key.text_eq, Key.names, Key.names, List.map_dropLast]

theorem temporaryPath_eq (d : Directory) (key : Key) : d.temporaryPath key =
    Files.Path.join (d.entryDirectory key)
      (Files.Path.ofComponents false [d.temporaryName key]) := by
  rw [temporaryPath, Files.Path.ofComponents]
  simp

theorem mem_temporaryName {key : Key} {c : Char} (h : c ∈ (d.temporaryName key).toList) :
    c ∈ ".tmp".toList ∨ c.isDigit = true ∨ c ∈ key.segments.getLast?.getD [] := by
  have hdigit : ∀ n : Nat, c ∈ (toString n).toList → c.isDigit = true := by
    intro n hn
    have hdigits : c ∈ Nat.toDigits 10 n := Nat.toList_repr ▸ hn
    exact Nat.isDigit_of_mem_toDigits (by decide) (by decide) hdigits
  simp only [temporaryName, String.toList_append, List.mem_append] at h
  have hpoint : c ∈ ".".toList → c ∈ ".tmp".toList := fun hc => by
    rw [List.mem_singleton.1 hc]
    decide
  rcases h with ((((((h | h) | h) | h) | h) | h) | h)
  · exact Or.inl (hpoint h)
  · exact Or.inr (Or.inr (by simpa [toString] using h))
  · exact Or.inl (hpoint h)
  · exact Or.inr (Or.inl (hdigit _ h))
  · exact Or.inl (hpoint h)
  · exact Or.inr (Or.inl (hdigit _ h))
  · exact Or.inl h

/-- A temporary name starts with a point. -/
theorem head_temporaryName (d : Directory) (key : Key) :
    ∃ rest, (d.temporaryName key).toList = '.' :: rest ∧ 'p' ∈ rest := by
  refine ⟨_, by simp only [temporaryName, String.toList_append]; rfl, ?_⟩
  simp [toString]

theorem isName_temporaryName {key : Key} (h : ∀ cs ∈ key.segments, IsSegment cs) :
    Path.IsName (d.temporaryName key) := by
  obtain ⟨rest, hlist, hmem⟩ := d.head_temporaryName key
  have hlast : ∀ c ∈ key.segments.getLast?.getD [], isPlain c = true ∨ c = '%' := by
    intro c hc
    cases hseg : key.segments.getLast? with
    | none => simp [hseg] at hc
    | some cs => exact (h cs (List.mem_of_getLast? hseg)).chars c (by simpa [hseg] using hc)
  have hother : ∀ c, c ∉ ".tmp".toList → c.isDigit = false → isPlain c = false → c ≠ '%' →
      c ∉ (d.temporaryName key).toList := by
    intro c htmp hdigit hplain hc hmem
    rcases mem_temporaryName hmem with hmem | hmem | hmem
    · exact htmp hmem
    · rw [hdigit] at hmem
      cases hmem
    · rcases hlast c hmem with hmem | hmem
      · rw [hplain] at hmem
        cases hmem
      · exact hc hmem
  refine ⟨⟨?_, hother _ (by decide) (by decide) (by decide) (by decide),
    hother _ (by decide) (by decide) (by decide) (by decide)⟩, ?_, ?_⟩
  · intro heq
    rw [heq] at hlist
    cases hlist
  · intro heq
    rw [heq] at hlist
    obtain rfl : [] = rest := (List.cons.inj hlist).2
    cases hmem
  · intro heq
    rw [heq] at hlist
    obtain rfl : ['.'] = rest := (List.cons.inj hlist).2
    exact absurd hmem (by decide)

theorem temporaryName_not_mem (d : Directory) (key : Key) (repository : String)
    (request : Request) : d.temporaryName key ∉ (Key.ofRequest repository request).names := by
  intro hmem
  obtain ⟨cs, hcs, heq⟩ := List.mem_map.1 hmem
  obtain ⟨rest, hlist, _⟩ := d.head_temporaryName key
  rw [← heq, String.toList_ofList] at hlist
  exact (Key.isSegment_of_mem hcs).head_ne (by rw [hlist]; rfl)

end Directory

/-! ## The map -/

/-- The entries of a cache, each with the time at which it was written, and the time. -/
structure Contents where
  /-- The time in milliseconds. -/
  now : Int
  /-- The content of an entry, and when it was written. -/
  entry : Key → Option (Bytes × Int)

/-- No entries. -/
def Contents.empty (now : Int) : Contents := ⟨now, fun _ => none⟩

/-- The entries after one of them was written. -/
def Contents.write (c : Contents) (key : Key) (content : Bytes) : Contents :=
  { c with entry := fun other => if other = key then some (content, c.now) else c.entry other }

theorem Contents.entry_write {c : Contents} {key other : Key} {content : Bytes}
    {found : Bytes × Int} : (c.write key content).entry other = some found ↔
      other = key ∧ found = (content, c.now) ∨ other ≠ key ∧ c.entry other = some found := by
  rw [write]
  by_cases hother : other = key <;> simp [hother, eq_comm]

namespace Directory

variable {d : Directory} {t t' t₀ : Tree} {place : Place} {c : Contents} {key : Key}
  {repository : String} {request : Request}

/-- The directory is there, and holds its lock file and nothing else. -/
structure Fresh (d : Directory) (t : Tree) (place : Place) : Prop where
  found : t.find d.location = .ok (place, .directory)
  lock : ∃ content modified, t.entryAt? (place ++ [lockName]) = some (.file content modified)
  only : ∀ rel, rel ≠ [] → rel ≠ [lockName] → t.entryAt? (place ++ rel) = none

/-- The names and paths of an entry are not too long. -/
structure Fits (d : Directory) (l : Limits) (key : Key) : Prop where
  names : ∀ name ∈ d.temporaryName key :: key.names, l.admitsName name = true
  paths : ∀ path ∈ d.entryPath key :: d.temporaryPath key ::
    Files.Path.ancestors (d.entryDirectory key), l.admitsPath path = true

theorem fits_of_unlimited {l : Limits} (h : l = ⟨none, none⟩) (d : Directory) (key : Key) :
    d.Fits l key := by
  subst h
  exact ⟨fun _ _ => rfl, fun _ _ => rfl⟩

theorem Fresh.bare (h : d.Fresh t place) : t.Bare place := by
  intro rel hrel hdirectory
  by_cases hlock : rel = [lockName]
  · obtain ⟨content, modified, hfile⟩ := h.lock
    rw [hlock, hfile] at hdirectory
    cases hdirectory
  · rw [h.only rel hrel hlock] at hdirectory
    cases hdirectory

/-- Below its place the tree holds the lock file of the first one, the entries, and the directories
that lead to them. -/
structure Holds (place : Place) (t₀ : Tree) (c : Contents) (t : Tree) : Prop where
  now_eq : t.now = c.now
  around : SameAround place t₀ t
  lock_eq : t.entryAt? (place ++ [lockName]) = t₀.entryAt? (place ++ [lockName])
  known : ∀ {key found}, c.entry key = some found →
    ∃ repository request, key = .ofRequest repository request
  file : ∀ {key found}, c.entry key = some found →
    t.entryAt? (place ++ key.names) = some (.file found.1 found.2)
  directory : ∀ {key found}, c.entry key = some found →
    ∀ rel, rel <+: key.names → rel ≠ key.names → rel ≠ [] →
      t.entryAt? (place ++ rel) = some .directory
  only : ∀ {rel e}, t.entryAt? (place ++ rel) = some e → rel ≠ [] →
    rel = [lockName] ∨ ∃ key found, c.entry key = some found ∧ rel <+: key.names

theorem Fresh.holds (h : d.Fresh t place) : Holds place t (.empty t.now) t where
  now_eq := rfl
  around := .refl place t
  lock_eq := rfl
  known hentry := by cases hentry
  file hentry := by cases hentry
  directory hentry := by cases hentry
  only {rel e} he hrel := by
    refine Or.inl ?_
    by_contra hlock
    rw [h.only rel hrel hlock] at he
    cases he

/-! ## Reading an entry -/

theorem store_read (d : Directory) (t : Tree) (key : Key) :
    d.store.read t key = orNone (t.read (d.entryPath key)) := by
  rw [store]

theorem store_age (d : Directory) (t : Tree) (key : Key) :
    d.store.age t key = orNone (t.age (d.entryPath key)) := by
  rw [store]

theorem store_write (d : Directory) (t : Tree) (key : Key) (content : Bytes) :
    d.store.write t key content = d.write t key content := by
  rw [store]

theorem ne_lock_on_way {rel : List String}
    (hrel : rel <+: (Key.ofRequest repository request).names) : rel ≠ [lockName] := by
  rintro rfl
  have hmem := hrel.subset (List.mem_singleton_self lockName)
  obtain ⟨cs, hcs, heq⟩ := List.mem_map.1 hmem
  have hlist : cs = lockName.toList := by rw [← heq, String.toList_ofList]
  exact (Key.isSegment_of_mem hcs).head_ne (by rw [hlist]; rfl)

/-- On the way to an entry there are directories only, or nothing. -/
theorem Holds.passable (h : Holds place t₀ c t) :
    t.Passable place (Key.ofRequest repository request).names.dropLast := by
  intro rel hinit hne
  have hrel := hinit.trans (List.dropLast_prefix _)
  cases he : t.entryAt? (place ++ rel) with
  | none => exact Or.inr rfl
  | some e =>
    rcases h.only he hne with hlock | ⟨key, found, hentry, hkey⟩
    · exact absurd hlock (ne_lock_on_way hrel)
    · refine Or.inl (he ▸ h.directory hentry rel hkey ?_ hne)
      rintro rfl
      obtain ⟨repository', request', rfl⟩ := h.known hentry
      rw [Key.eq_of_prefix hrel] at hinit
      exact Key.not_prefix_dropLast _ _ hinit

/-- At the end of the way there is the entry, or nothing. -/
theorem Holds.entryAt?_of_key (h : Holds place t₀ c t) (repository : String) (request : Request) :
    t.entryAt? (place ++ (Key.ofRequest repository request).names) =
      (c.entry (.ofRequest repository request)).map fun found => .file found.1 found.2 := by
  cases hentry : c.entry (.ofRequest repository request) with
  | some found => exact h.file hentry
  | none =>
    cases he : t.entryAt? (place ++ (Key.ofRequest repository request).names) with
    | none => rfl
    | some e =>
      rcases h.only he (Key.names_ne_nil _ _) with hlock | ⟨key, found, hfound, hkey⟩
      · exact absurd hlock (ne_lock_on_way (List.prefix_refl _))
      · obtain ⟨repository', request', rfl⟩ := h.known hfound
        rw [← Key.eq_of_prefix hkey, hentry] at hfound
        cases hfound

theorem spells_entryPath (hbase : t.Spells place d.location [])
    (hpath : t.limits.admitsPath (d.entryPath (.ofRequest repository request)) = true) :
    t.Spells place (d.entryPath (.ofRequest repository request))
      (Key.ofRequest repository request).names := by
  rw [entryPath_eq] at hpath ⊢
  exact Files.Tree.spells_join hbase (Key.names_ne_nil _ _) (fun _ => Key.isName_of_mem) hpath

section Paths

variable (hfind : t.find d.location = .ok (place, .directory))
  (hfits : d.Fits t.limits (.ofRequest repository request))
include hfits

theorem Fits.takes : t.Takes (Key.ofRequest repository request).names :=
  fun name hname => ⟨Key.isName_of_mem hname, hfits.names name (List.mem_cons_of_mem _ hname)⟩

theorem Fits.takes_init : t.Takes (Key.ofRequest repository request).names.dropLast :=
  fun name hname => hfits.takes name (List.dropLast_subset _ hname)

theorem Fits.takes_temporary : t.Takes [d.temporaryName (.ofRequest repository request)] := by
  intro name hname
  rw [List.mem_singleton.1 hname]
  exact ⟨isName_temporaryName fun _ => Key.isSegment_of_mem, hfits.names _ List.mem_cons_self⟩

include hfind

theorem Fits.spells : t.Spells place (d.entryPath (.ofRequest repository request))
    (Key.ofRequest repository request).names :=
  spells_entryPath (Files.Tree.spells_of_find hfind) (hfits.paths _ List.mem_cons_self)

theorem Fits.spells_temporary : t.Spells place (d.temporaryPath (.ofRequest repository request))
    ((Key.ofRequest repository request).names.dropLast ++
      [d.temporaryName (.ofRequest repository request)]) := by
  have hparts : ∀ name ∈ [d.temporaryName (.ofRequest repository request)], Path.IsPart name :=
    fun name hname => (hfits.takes_temporary name hname).1.toIsPart
  have hdirectory : t.Spells place (d.entryDirectory (.ofRequest repository request))
      (Key.ofRequest repository request).names.dropLast := by
    have hadmitted :
        t.limits.admitsPath (d.entryDirectory (.ofRequest repository request)) = true :=
      hfits.paths _ (by simp [Files.Path.ancestors])
    rw [entryDirectory_eq] at hadmitted ⊢
    exact Files.Tree.spells_join (Files.Tree.spells_of_find hfind) (Key.dropLast_names_ne_nil _ _)
      (fun name hname => Key.isName_of_mem (List.dropLast_subset _ hname)) hadmitted
  have hadmitted := hfits.paths _ (List.mem_cons_of_mem _ List.mem_cons_self)
  rw [temporaryPath_eq] at hadmitted ⊢
  have hjoined := hdirectory.join (Files.Path.isAbsolute_ofComponents hparts false)
    (Files.Path.ofComponents_ne_empty hparts (List.cons_ne_nil _ _) false)
    (Files.Path.no_nul_ofComponents hparts false) hadmitted
  rwa [Files.Path.components_ofComponents hparts] at hjoined

end Paths

theorem endsInSlash_entryPath (d : Directory) (repository : String) (request : Request) :
    Files.Path.endsInSlash (d.entryPath (.ofRequest repository request)) = false := by
  have hparts : ∀ name ∈ (Key.ofRequest repository request).names, Path.IsPart name :=
    fun name hname => (Key.isName_of_mem hname).toIsPart
  rw [entryPath_eq, Files.Path.endsInSlash_join (Files.Path.isAbsolute_ofComponents hparts false)
    (Files.Path.ofComponents_ne_empty hparts (Key.names_ne_nil _ _) false)]
  exact Files.Path.endsInSlash_ofComponents hparts (Key.names_ne_nil _ _) false

theorem endsInSlash_temporaryPath (d : Directory) (repository : String) (request : Request) :
    Files.Path.endsInSlash (d.temporaryPath (.ofRequest repository request)) = false := by
  have hparts : ∀ name ∈ [d.temporaryName (.ofRequest repository request)], Path.IsPart name := by
    intro name hname
    rw [List.mem_singleton.1 hname]
    exact (isName_temporaryName fun _ => Key.isSegment_of_mem).toIsPart
  rw [temporaryPath_eq,
    Files.Path.endsInSlash_join (Files.Path.isAbsolute_ofComponents hparts false)
      (Files.Path.ofComponents_ne_empty hparts (List.cons_ne_nil _ _) false)]
  exact Files.Path.endsInSlash_ofComponents hparts (List.cons_ne_nil _ _) false

section Fresh

variable (h : Holds place t₀ c t) (hfresh : d.Fresh t₀ place)
  (hfits : d.Fits t₀.limits (.ofRequest repository request))
include h hfresh hfits

/-- The path of an entry leads to it, if it is there, and to nothing else. -/
theorem Holds.find_eq : t.find (d.entryPath (.ofRequest repository request)) =
    match c.entry (.ofRequest repository request) with
    | some found => .ok (place ++ (Key.ofRequest repository request).names,
        .file found.1 found.2)
    | none => .error .notFound := by
  obtain ⟨last, hlast⟩ := Key.names_eq_concat repository request
  have hspells := h.around.spells hfresh.bare (hfits.spells hfresh.found)
  have htakes := h.around.takes hfits.takes
  have hend := h.entryAt?_of_key repository request
  rw [hlast] at hspells htakes hend ⊢
  rw [← List.append_assoc] at hend ⊢
  cases hentry : c.entry (.ofRequest repository request) with
  | some found =>
    have hpaved : t.Paved place (Key.ofRequest repository request).names.dropLast := by
      intro rel hinit hne
      refine h.directory hentry rel (hinit.trans (List.dropLast_prefix _)) ?_ hne
      rintro rfl
      exact Key.not_prefix_dropLast _ _ hinit
    rw [hentry] at hend
    exact Files.Tree.find_file hspells htakes hpaved (d.endsInSlash_entryPath _ _) hend
  | none =>
    rw [hentry] at hend
    exact Files.Tree.find_missing hspells htakes h.passable hend

theorem Holds.read_eq : d.store.read t (.ofRequest repository request) =
    .ok ((c.entry (.ofRequest repository request)).map Prod.fst) := by
  have hfind := h.find_eq hfresh hfits
  rw [store_read, Tree.read, hfind]
  cases c.entry (.ofRequest repository request) <;> rfl

theorem Holds.age_eq : d.store.age t (.ofRequest repository request) =
    .ok ((c.entry (.ofRequest repository request)).map fun found =>
      ⟨(c.now - found.2).toNat⟩) := by
  have hfind := h.find_eq hfresh hfits
  rw [store_age, Tree.age, hfind, ← h.now_eq]
  cases c.entry (.ofRequest repository request) <;> rfl

end Fresh

/-! ## Writing an entry -/

theorem write_of_ok {filled t₁ : Tree} {content : Bytes}
    (hmake : t.makeDirectories (d.entryDirectory key) = (.ok (), t₁))
    (hwrite : t₁.write (d.temporaryPath key) content = .ok filled)
    (hrename : filled.rename (d.temporaryPath key) (d.entryPath key) = .ok t') :
    d.store.write t key content = (.ok (), t') := by
  have hreplace : d.replaceEntry t₁ key content = (.ok (), t') := by
    unfold replaceEntry
    simp only [hwrite, hrename]
  rw [store_write]
  unfold Directory.write
  simp only [hmake, hreplace]

/-- Temporary files stand where nothing else does. -/
theorem Holds.entryAt?_of_temporary (h : Holds place t₀ c t) (d : Directory) :
    t.entryAt? (place ++ ((Key.ofRequest repository request).names.dropLast ++
      [d.temporaryName (.ofRequest repository request)])) = none := by
  rw [Option.eq_none_iff_forall_ne_some]
  intro e he
  rcases h.only he (by simp) with hlock | ⟨key, found, hentry, hkey⟩
  · obtain ⟨first, second, third, rest, hnames⟩ := Key.names_eq_cons repository request
    rw [hnames] at hlock
    simp at hlock
  · obtain ⟨repository', request', rfl⟩ := h.known hentry
    refine d.temporaryName_not_mem (.ofRequest repository request) repository' request' ?_
    exact hkey.subset (by simp)

theorem Holds.gains (h : Holds place t₀ c t) (hfresh : d.Fresh t₀ place)
    (hfits : d.Fits t₀.limits (.ofRequest repository request)) (content : Bytes) :
    ∃ t', d.store.write t (.ofRequest repository request) content = (.ok (), t') ∧
      Gains place (Key.ofRequest repository request).names content t t' := by
  obtain ⟨last, hlast⟩ := Key.names_eq_concat repository request
  have htarget := hfits.spells hfresh.found
  have htakes := hfits.takes
  have hend := h.entryAt?_of_key repository request
  have hnames : d.temporaryName (.ofRequest repository request) ≠ last := by
    rintro rfl
    refine d.temporaryName_not_mem (.ofRequest repository request) repository request ?_
    rw [hlast]
    simp
  rw [hlast] at htarget htakes hend
  have hadmitted : ∀ path ∈ Files.Path.ancestors (Files.Path.join d.location
      (Files.Path.ofComponents false (Key.ofRequest repository request).names.dropLast)),
      t₀.limits.admitsPath path = true := by
    intro path hpath
    rw [← entryDirectory_eq] at hpath
    exact hfits.paths path (List.mem_cons_of_mem _ (List.mem_cons_of_mem _ hpath))
  -- the directories first, then the file
  obtain ⟨t₁, hmake, hpaves⟩ := Files.Tree.makeDirectories_paves hfresh.bare h.around
    (Files.Tree.spells_of_find hfresh.found) (Key.dropLast_names_ne_nil repository request)
    hfits.takes_init hadmitted h.passable
  rw [← entryDirectory_eq] at hmake
  have hunused : t₁.entryAt? (place ++ (Key.ofRequest repository request).names.dropLast ++
      [d.temporaryName (.ofRequest repository request)]) = none := by
    rw [hpaves.entryAt?_after, List.append_assoc]
    exact h.entryAt?_of_temporary d
  have hfree : t₁.entryAt? (place ++ (Key.ofRequest repository request).names.dropLast ++
      [last]) ≠ some .directory := by
    rw [hpaves.entryAt?_after, List.append_assoc, hend]
    simp
  obtain ⟨filled, t', hwrite, hrename, hnow, haround, hentries⟩ := Files.Tree.replace_file
    hfresh.bare (h.around.trans hpaves.around) (hfits.spells_temporary hfresh.found) htarget htakes
    hfits.takes_temporary (d.endsInSlash_temporaryPath repository request) hpaves.paved hunused
    hfree hnames content
  have hgains := hpaves.gains hnow haround hentries
  rw [← hlast] at hgains
  exact ⟨t', write_of_ok hmake hwrite hrename, hgains⟩

/-- Where an entry was written, the map has that entry. -/
theorem Holds.write (h : Holds place t₀ c t) {content : Bytes}
    (hgains : Gains place (Key.ofRequest repository request).names content t t') :
    Holds place t₀ (c.write (.ofRequest repository request) content) t' where
  now_eq := hgains.now_eq.trans h.now_eq
  around := h.around.trans hgains.around
  lock_eq := by
    have hlock : ¬ [lockName] <+: (Key.ofRequest repository request).names :=
      fun hlock => ne_lock_on_way hlock rfl
    rw [hgains.entryAt?_eq _ hlock, h.lock_eq]
  known hfound := by
    rcases Contents.entry_write.1 hfound with ⟨rfl, _⟩ | ⟨_, hold⟩
    · exact ⟨repository, request, rfl⟩
    · exact h.known hold
  file hfound := by
    rcases Contents.entry_write.1 hfound with ⟨rfl, rfl⟩ | ⟨hother, hold⟩
    · rw [← h.now_eq]
      exact hgains.file
    · obtain ⟨repository', request', rfl⟩ := h.known hold
      rw [hgains.entryAt?_eq _ fun hprefix => hother (Key.eq_of_prefix hprefix)]
      exact h.file hold
  directory {other found} hfound rel hrel hproper hne := by
    by_cases hprefix : rel <+: (Key.ofRequest repository request).names
    · -- one key does not lead on from the other, so this is on the way to both
      refine hgains.directory rel hprefix ?_ hne
      rintro rfl
      rcases Contents.entry_write.1 hfound with ⟨rfl, _⟩ | ⟨hother, hold⟩
      · exact hproper rfl
      · obtain ⟨repository', request', rfl⟩ := h.known hold
        exact hother (Key.eq_of_prefix hrel).symm
    · rw [hgains.entryAt?_eq _ hprefix]
      rcases Contents.entry_write.1 hfound with ⟨rfl, _⟩ | ⟨_, hold⟩
      · exact absurd hrel hprefix
      · exact h.directory hold rel hrel hproper hne
  only {rel e} he hne := by
    by_cases hprefix : rel <+: (Key.ofRequest repository request).names
    · exact Or.inr ⟨_, _, Contents.entry_write.2 (Or.inl ⟨rfl, rfl⟩), hprefix⟩
    · rw [hgains.entryAt?_eq _ hprefix] at he
      refine (h.only he hne).imp_right ?_
      rintro ⟨other, found, hold, hrel⟩
      have hother : other ≠ .ofRequest repository request := fun heq => hprefix (heq ▸ hrel)
      exact ⟨other, found, Contents.entry_write.2 (Or.inr ⟨hother, hold⟩), hrel⟩

/-! ## Clearing the directory -/

/-- The tree without what stands at the names given, and below. -/
theorem entryAt?_eraseEach (t : Tree) (place : Place) (names : List String) (other : Place) :
    (names.foldl (fun t name => t.eraseAll (place ++ [name])) t).entryAt? other =
      if ∃ name ∈ names, place ++ [name] <+: other then none else t.entryAt? other := by
  induction names generalizing t with
  | nil => simp
  | cons first rest ih =>
    rw [List.foldl_cons, ih, Files.Tree.entryAt?_eraseAll (by simp)]
    by_cases hfirst : place ++ [first] <+: other <;> simp [hfirst]

theorem eraseEach_same (t : Tree) (place : Place) (names : List String) :
    (names.foldl (fun t name => t.eraseAll (place ++ [name])) t).now = t.now ∧
      SameAround place t (names.foldl (fun t name => t.eraseAll (place ++ [name])) t) := by
  induction names generalizing t with
  | nil => exact ⟨rfl, .refl place t⟩
  | cons first rest ih =>
    obtain ⟨hnow, haround⟩ := ih (t.eraseAll (place ++ [first]))
    have hfirst : SameAround place t (t.eraseAll (place ++ [first])) := by
      refine ⟨rfl, rfl, fun other hother => ?_⟩
      rw [Files.Tree.entryAt?_eraseAll (by simp), if_neg]
      rintro ⟨more, rfl⟩
      exact hother (first :: more) (List.cons_ne_nil _ _) (by simp)
    exact ⟨hnow, hfirst.trans haround⟩

theorem entryAt?_emptied (t : Tree) (place other : Place) :
    (emptied t place).entryAt? other =
      if ∃ name ∈ t.namesIn place, name ≠ lockName ∧ place ++ [name] <+: other then none
      else t.entryAt? other := by
  rw [emptied, entryAt?_eraseEach]
  simp [and_assoc]

/-- Where all entries were removed, the map is empty. -/
theorem Holds.clear (h : Holds place t₀ c t) :
    Holds place t₀ (.empty c.now) (emptied t place) where
  now_eq := (eraseEach_same t place _).1.trans h.now_eq
  around := h.around.trans (eraseEach_same t place _).2
  lock_eq := by
    rw [entryAt?_emptied, if_neg, h.lock_eq]
    rintro ⟨name, _, hne, hlock⟩
    exact hne (by simpa using hlock)
  known hentry := by cases hentry
  file hentry := by cases hentry
  directory hentry := by cases hentry
  only {rel e} he hne := by
    rw [entryAt?_emptied] at he
    split at he
    · cases he
    · next hkept =>
      refine Or.inl ((h.only he hne).resolve_right ?_)
      rintro ⟨key, found, hentry, hrel⟩
      -- the first name of a key leads to a directory, which is among those removed
      obtain ⟨repository, request, rfl⟩ := h.known hentry
      obtain ⟨first, rest, rfl⟩ := List.exists_cons_of_ne_nil hne
      have hfirst : [first] <+: (Key.ofRequest repository request).names :=
        (List.prefix_append [first] rest).trans hrel
      have hproper : [first] ≠ (Key.ofRequest repository request).names := by
        obtain ⟨_, _, _, _, hnames⟩ := Key.names_eq_cons repository request
        simp [hnames]
      have hdirectory := h.directory hentry [first] hfirst hproper (List.cons_ne_nil _ _)
      have hlock : first ≠ lockName := fun heq => ne_lock_on_way hfirst (by rw [heq])
      exact hkept ⟨first, Files.Tree.mem_namesIn hdirectory, hlock, by simp⟩

end Directory
end ArtifactResolver.Cache
