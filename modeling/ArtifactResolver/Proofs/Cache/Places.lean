import ArtifactResolver.Proofs.Cache.Identity
import ArtifactResolver.Proofs.Files.Growing

/-!
# The places of an opened cache

Once a cache is opened its location leads to a directory. The paths of its entries and of its
temporary files lead to places below that, and no temporary file stands at the place of an entry,
on the way to one, or at the place of another temporary file.
-/

namespace ArtifactResolver.Cache.Directory

open Files (Entry Path.IsName Place Tree)

variable {d d' : Directory} {t : Tree} {place : Place} {key key' : Key} {repository : String}
  {request : Request}

/-! ## Opening a cache -/

/-- The cache has been opened: its location leads to a directory, and everything stands in one. -/
structure Opened (d : Directory) (place : Place) (t : Tree) : Prop where
  rooted : t.Rooted
  no_nul : '\x00' ∉ d.location.toList
  leads : t.Leads place d.location []

theorem opened_of_isDirectory (hroot : t.Rooted)
    (h : d.location = "" ∨ t.isDirectory d.location = true) : ∃ place, d.Opened place t := by
  rcases h with hempty | hdirectory
  · refine ⟨t.origin, hroot, by simp [hempty], [], ?_, ?_⟩
    · rw [hempty]
      rfl
    · rw [hempty]
      rfl
  · obtain ⟨place, hfind⟩ := Files.Tree.exists_find_of_isDirectory hdirectory
    have hspells := Files.Tree.spells_of_find hfind
    exact ⟨place, hroot, hspells.no_nul, hspells.leads⟩

/-- The location is prepared if it leads to a directory in the end. -/
theorem isDirectory_of_prepare {location : String} {w w' : World Tree} (hroot : w.env.Rooted)
    (h : prepare location w = .ok (.ok ()) w') :
    w'.env.Rooted ∧ (location = "" ∨ w'.env.isDirectory location = true) := by
  rw [prepare] at h
  simp only [Action.bind_apply, Action.env_apply] at h
  split at h
  · split at h
    · next hdirectory =>
      obtain rfl := (EStateM.Result.ok.inj h).2
      exact ⟨hroot, Or.inr hdirectory⟩
    · cases h
  · obtain ⟨hmade, rfl⟩ := EStateM.Result.ok.inj h
    refine ⟨hroot.makeFirst _, Files.Tree.isDirectory_of_makeFirst ?_⟩
    cases hresult : (w.env.makeDirectories location).1 with
    | error e =>
      rw [hresult] at hmade
      cases hmade
    | ok _ => exact hresult

theorem Opened.acquireLock {path : String} {w w' : World Tree} (h : d.Opened place w.env)
    (hlock : Files.acquireLock path w = .ok (.ok ()) w') : d.Opened place w'.env := by
  rw [Files.acquireLock] at hlock
  simp only [Action.bind_apply, Action.env_apply] at hlock
  cases hwrite : w.env.write path [] with
  | error e =>
    rw [hwrite] at hlock
    cases hlock
  | ok locked =>
    rw [hwrite] at hlock
    obtain ⟨-, rfl⟩ := EStateM.Result.ok.inj hlock
    obtain ⟨parent, name, hfollow, -, hne, rfl⟩ := Files.Tree.exists_of_write hwrite
    exact ⟨h.rooted.put (h.rooted.follow hfollow) hne _, h.no_nul,
      (Files.Tree.keeps_put hne _).leads h.leads⟩

/-- Whoever opens a cache has an opened cache. -/
theorem opened_of_openAt {location : String} {w w' : World Tree} (hroot : w.env.Rooted)
    (h : openAt location w = .ok (.ok d) w') : ∃ place, d.Opened place w'.env := by
  rw [openAt, Action.bind_apply] at h
  rcases hprepare : prepare location w with ⟨_ | _, prepared⟩ | ⟨panic, prepared⟩
  · rw [hprepare] at h
    cases h
  · rw [hprepare] at h
    simp only [Action.bind_apply] at h
    obtain ⟨hroot', hdirectory⟩ := isDirectory_of_prepare hroot hprepare
    rcases hlock : Files.acquireLock (Files.Path.join location lockName) prepared with
      ⟨_ | _, locked⟩ | ⟨panic, locked⟩
    · rw [hlock] at h
      cases h
    · rw [hlock] at h
      obtain ⟨hd, rfl⟩ := EStateM.Result.ok.inj h
      obtain rfl := Except.ok.inj hd
      obtain ⟨place, hopen⟩ := opened_of_isDirectory (d := { location := location }) hroot'
        hdirectory
      exact ⟨place, hopen.acquireLock hlock⟩
    · rw [hlock] at h
      cases h
  · rw [hprepare] at h
    cases h

/-! ## Places -/

/-- Where an entry stands. -/
def entryPlace (place : Place) (key : Key) : Place := place ++ key.names

/-- Where the temporary file of an entry stands. -/
def temporaryPlace (d : Directory) (place : Place) (key : Key) : Place :=
  place ++ (key.names.dropLast ++ [d.temporaryName key])

theorem isName_of_mem_init {name : String}
    (h : name ∈ (Key.ofRequest repository request).names.dropLast) : Path.IsName name :=
  Key.isName_of_mem (List.dropLast_subset _ h)

theorem isName_of_mem_temporary {name : String}
    (h : name ∈ (Key.ofRequest repository request).names.dropLast ++
      [d.temporaryName (.ofRequest repository request)]) : Path.IsName name := by
  rcases List.mem_append.1 h with hmem | hmem
  · exact isName_of_mem_init hmem
  · rw [List.mem_singleton.1 hmem]
    exact isName_temporaryName fun _ => Key.isSegment_of_mem

section Leads

variable (hleads : t.Leads place d.location [])
include hleads

theorem leads_entryPath (repository : String) (request : Request) :
    t.Leads place (d.entryPath (.ofRequest repository request))
      (Key.ofRequest repository request).names := by
  rw [entryPath_eq]
  exact Files.Tree.leads_join hleads fun name hname => Key.isName_of_mem hname

theorem leads_temporaryPath (repository : String) (request : Request) :
    t.Leads place (d.temporaryPath (.ofRequest repository request))
      ((Key.ofRequest repository request).names.dropLast ++
        [d.temporaryName (.ofRequest repository request)]) := by
  obtain ⟨before, hcomponents, hwalk⟩ := hleads
  rw [List.append_nil] at hcomponents
  have hparts : ∀ name ∈ (Key.ofRequest repository request).names.dropLast,
      Files.Path.IsPart name := fun name hname => (isName_of_mem_init hname).toIsPart
  have hname : ∀ name ∈ [d.temporaryName (.ofRequest repository request)],
      Files.Path.IsPart name :=
    fun name hname => (isName_of_mem_temporary (List.mem_append_right _ hname)).toIsPart
  refine ⟨before, by rw [components_temporaryPath, hcomponents], ?_⟩
  rw [temporaryPath_eq, entryDirectory_eq, Tree.start,
    Files.Path.isAbsolute_join (Files.Path.isAbsolute_ofComponents hname false),
    Files.Path.isAbsolute_join (Files.Path.isAbsolute_ofComponents hparts false)]
  exact hwalk

/-- What the path of an entry leads to stands at its place. -/
theorem place_of_entryPath {parent : Place} {name : String}
    (h : t.follow (d.entryPath (.ofRequest repository request)) = .ok (.named parent name)) :
    parent ++ [name] = entryPlace place (.ofRequest repository request) :=
  (leads_entryPath hleads repository request).place_eq (fun _ => Key.isName_of_mem) h

theorem place_of_find_temporaryPath {reached : Place} {e : Entry}
    (h : t.find (d.temporaryPath (.ofRequest repository request)) = .ok (reached, e)) :
    reached = d.temporaryPlace place (.ofRequest repository request) :=
  (leads_temporaryPath hleads repository request).place_of_find (fun _ => isName_of_mem_temporary) h

theorem place_of_temporaryPath {parent : Place} {name : String}
    (h : t.follow (d.temporaryPath (.ofRequest repository request)) = .ok (.named parent name)) :
    parent ++ [name] = d.temporaryPlace place (.ofRequest repository request) :=
  (leads_temporaryPath hleads repository request).place_eq (fun _ => isName_of_mem_temporary) h

end Leads

/-- No temporary file stands on the way to an entry. -/
theorem not_on_way_temporary (d : Directory) (place : Place) (key : Key) {rel : List String}
    (hrel : rel <+: (Key.ofRequest repository request).names) :
    place ++ rel ≠ d.temporaryPlace place key := by
  intro heq
  have hmem : d.temporaryName key ∈ rel := by
    rw [List.append_cancel_left heq]
    simp
  exact d.temporaryName_not_mem key repository request (hrel.subset hmem)

/-- No entry stands on the way to another one. -/
theorem eq_of_on_way {repository' : String} {request' : Request} {rel : List String}
    (hrel : rel <+: (Key.ofRequest repository request).names)
    (heq : place ++ rel = entryPlace place (.ofRequest repository' request')) :
    Key.ofRequest repository request = .ofRequest repository' request' := by
  rw [List.append_cancel_left heq] at hrel
  exact (Key.eq_of_prefix hrel).symm

theorem entryPlace_ne_temporaryPlace (d : Directory) (place : Place) (repository : String)
    (request : Request) : entryPlace place (.ofRequest repository request) ≠
      d.temporaryPlace place (.ofRequest repository request) :=
  not_on_way_temporary d place _ (List.prefix_refl _)

/-! ## Temporary files -/

theorem toList_temporaryName (d : Directory) (key : Key) : ∃ before,
    (d.temporaryName key).toList = before ++ '.' :: d.count.repr.toList ++ ".tmp".toList := by
  refine ⟨("." ++ String.ofList (key.segments.getLast?.getD []) ++ "." ++ d.process.repr).toList,
    ?_⟩
  simp [temporaryName, toString]

theorem toList_repr_inj {m n : Nat} (h : m.repr.toList = n.repr.toList) : m = n := by
  rw [Nat.toList_repr, Nat.toList_repr] at h
  calc
    m = Nat.ofDigitChars 10 (Nat.toDigits 10 m) 0 := Nat.ofDigitChars_ten_toDigits.symm
    _ = Nat.ofDigitChars 10 (Nat.toDigits 10 n) 0 := by rw [h]
    _ = n := Nat.ofDigitChars_ten_toDigits

theorem takeWhile_digits (n : Nat) (before : List Char) :
    (before ++ '.' :: n.repr.toList).reverse.takeWhile (· ≠ '.') = n.repr.toList.reverse := by
  have hdigits : ∀ c ∈ n.repr.toList.reverse, decide (c ≠ '.') = true := by
    intro c hc
    rw [List.mem_reverse, Nat.toList_repr] at hc
    have hdigit := Nat.isDigit_of_mem_toDigits (by decide) (by decide) hc
    refine decide_eq_true ?_
    rintro rfl
    exact absurd hdigit (by decide)
  rw [List.reverse_append, List.reverse_cons, List.append_assoc,
    List.takeWhile_append_of_pos hdigits]
  simp

/-- The name of a temporary file tells how many the process had before it. -/
theorem count_eq_of_temporaryName (h : d.temporaryName key = d'.temporaryName key') :
    d.count = d'.count := by
  obtain ⟨before, hlist⟩ := d.toList_temporaryName key
  obtain ⟨before', hlist'⟩ := d'.toList_temporaryName key'
  rw [h, hlist'] at hlist
  -- what stands between the last two points are the digits of the count
  have hreversed := congrArg (fun cs => cs.reverse.takeWhile (· ≠ '.'))
    (List.append_cancel_right hlist)
  simp only [takeWhile_digits, List.reverse_inj] at hreversed
  exact (toList_repr_inj hreversed).symm

theorem temporaryPlace_ne (hcount : d'.count ≠ d.count) :
    d'.temporaryPlace place key' ≠ d.temporaryPlace place key := by
  intro heq
  have hnames := List.append_cancel_left heq
  have hname := (List.append_inj' hnames rfl).2
  exact hcount (count_eq_of_temporaryName (List.singleton_inj.1 hname))

end ArtifactResolver.Cache.Directory
