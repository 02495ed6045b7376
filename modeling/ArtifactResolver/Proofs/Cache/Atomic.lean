import Mathlib.Logic.Relation
import ArtifactResolver.Proofs.Cache.Places

/-!
# Writing an entry that fails anywhere

An entry is written in steps, each of which may fail: directories are created, a temporary file is
created, filled and synced, and takes the place of the entry at the end. Until the last step nobody
who reads an entry notices anything, since the temporary file is no entry of any key. What is left
by a failure are directories, and the temporary file if it cannot be removed.
-/

namespace ArtifactResolver.Cache.Directory

open Files (Entry Path.IsName Place Tree)
open Files.Tree (Grows Keeps)

/-! ## The steps -/

/-- How far the writing of an entry has come. -/
inductive Writing where
  /-- The directories that the entry stands in are being created. -/
  | making
  /-- The temporary file is about to be created. -/
  | creating
  /-- The temporary file holds the first bytes, and the others are about to be written. -/
  | filling (written rest : Bytes)
  /-- The temporary file holds all bytes, and is about to be synced. -/
  | syncing
  /-- The temporary file is about to take the place of the entry. -/
  | replacing
  /-- A step has failed, and the temporary file is about to be removed. -/
  | cleaning (cause : Files.Error)
  /-- The directories could not be created. -/
  | blocked (cause : Files.Error)
  /-- A step has failed, and the temporary file was removed if it was there. -/
  | cleaned (cause : Files.Error)
  /-- A step has failed, and so has the removal of the temporary file. -/
  | abandoned (cause : Files.Error)
  /-- The entry is written. -/
  | done

namespace Writing

/-- What is answered in the end. -/
def result? : Writing → Option (Except CacheError Unit)
  | blocked cause | cleaned cause | abandoned cause => some (.error (.io cause))
  | done => some (.ok ())
  | _ => none

/-- Whether the temporary file is removed if the next step fails. -/
def isGuarded : Writing → Bool
  | creating | filling .. | syncing | replacing => true
  | _ => false

/-- One step. Every step may fail for any cause, and bytes are written in chunks of any length. -/
inductive Step (d : Directory) (key : Key) (content : Bytes) :
    Writing × Tree → Writing × Tree → Prop
  | make {path : String} {t t' : Tree} (hpath : path ∈ Files.Path.ancestors (d.entryDirectory key))
      (hmake : t.makeDirectory path = .ok t') : Step d key content (making, t) (making, t')
  | block (cause : Files.Error) (t : Tree) : Step d key content (making, t) (blocked cause, t)
  | pass (t : Tree) : Step d key content (making, t) (creating, t)
  | create {t t' : Tree} (hwrite : t.write (d.temporaryPath key) [] = .ok t') :
      Step d key content (creating, t) (filling [] content, t')
  | fill {written chunk rest : Bytes} {t t' : Tree}
      (hwrite : t.write (d.temporaryPath key) (written ++ chunk) = .ok t') :
      Step d key content (filling written (chunk ++ rest), t) (filling (written ++ chunk) rest, t')
  | finish {written : Bytes} (t : Tree) : Step d key content (filling written [], t) (syncing, t)
  | sync (t : Tree) : Step d key content (syncing, t) (replacing, t)
  | rename {t t' : Tree} (hrename : t.rename (d.temporaryPath key) (d.entryPath key) = .ok t') :
      Step d key content (replacing, t) (done, t')
  | fail {stage : Writing} (hguarded : stage.isGuarded = true) (cause : Files.Error) (t : Tree) :
      Step d key content (stage, t) (cleaning cause, t)
  | clean (cause : Files.Error) (t : Tree) : Step d key content (cleaning cause, t)
      (cleaned cause, (t.removeFile (d.temporaryPath key)).toOption.getD t)
  | abandon (cause : Files.Error) (t : Tree) :
      Step d key content (cleaning cause, t) (abandoned cause, t)

/-- What the steps lead to from a tree in which the writing starts. -/
def Reaches (d : Directory) (key : Key) (content : Bytes) (t : Tree) (stage : Writing) (t' : Tree) :
    Prop :=
  Relation.ReflTransGen (Step d key content) (making, t) (stage, t')

end Writing

variable {d : Directory} {t t' t'' : Tree} {place : Place} {key : Key} {content : Bytes}
  {repository : String} {request : Request}

/-! ## Writing an entry is taking the steps -/

theorem reaches_makeFirst {paths : List String}
    (hpaths : ∀ path ∈ paths, path ∈ Files.Path.ancestors (d.entryDirectory key)) (t : Tree) :
    Writing.Reaches d key content t .making (t.makeFirst paths).2 := by
  induction paths generalizing t with
  | nil => exact .refl
  | cons path above ih =>
    have habove := ih (fun path hmem => hpaths path (List.mem_cons_of_mem _ hmem)) t
    have hpath := hpaths path List.mem_cons_self
    rw [Tree.makeFirst]
    split
    · exact .refl
    · split
      · next made hmake => exact .single (.make hpath hmake)
      · split
        · next e made hfirst =>
          rw [hfirst] at habove
          exact habove
        · next made hfirst =>
          rw [hfirst] at habove
          split
          · next made' hmake => exact habove.tail (.make hpath hmake)
          · split <;> exact habove
      · split <;> exact .refl

/-- What the steps lead to when the directories are there. -/
theorem reaches_replaceEntry (hreach : Writing.Reaches d key content t .creating t') :
    ∃ stage, Writing.Reaches d key content t stage (d.replaceEntry t' key content).2 ∧
      (stage = .done ∧ (d.replaceEntry t' key content).1 = .ok () ∨
        ∃ e, stage = .cleaning e ∧ (d.replaceEntry t' key content).1 = .error e) := by
  cases hwrite : t'.write (d.temporaryPath key) content with
  | error e =>
    have hresult : d.replaceEntry t' key content = (.error e, t') := by
      unfold replaceEntry
      simp only [hwrite]
    rw [hresult]
    exact ⟨.cleaning e, hreach.tail (.fail rfl e t'), Or.inr ⟨e, rfl, rfl⟩⟩
  | ok filled =>
    obtain ⟨created, hcreate, hfill⟩ := Files.Tree.write_twice hwrite []
    have hcreated : Writing.Reaches d key content t (.filling [] content) created :=
      hreach.tail (.create hcreate)
    have hfilling : Writing.Step d key content (.filling [] content, created)
        (.filling content [], filled) := by
      have hstep : Writing.Step d key content (.filling [] (content ++ []), created)
          (.filling ([] ++ content) [], filled) := .fill hfill
      rwa [List.append_nil] at hstep
    have hreplacing : Writing.Reaches d key content t .replacing filled :=
      ((hcreated.tail hfilling).tail (.finish filled)).tail (.sync filled)
    cases hrename : filled.rename (d.temporaryPath key) (d.entryPath key) with
    | error e =>
      have hresult : d.replaceEntry t' key content = (.error e, filled) := by
        unfold replaceEntry
        simp only [hwrite, hrename]
      rw [hresult]
      exact ⟨.cleaning e, hreplacing.tail (.fail rfl e filled), Or.inr ⟨e, rfl, rfl⟩⟩
    | ok renamed =>
      have hresult : d.replaceEntry t' key content = (.ok (), renamed) := by
        unfold replaceEntry
        simp only [hwrite, hrename]
      rw [hresult]
      exact ⟨.done, hreplacing.tail (.rename hrename), Or.inl ⟨rfl, rfl⟩⟩

/-- Where no fault is added to those that the operations have on their own, the steps lead to what
the store answers and leaves. -/
theorem exists_reaches_write (d : Directory) (t : Tree) (key : Key) (content : Bytes) :
    ∃ stage, Writing.Reaches d key content t stage (d.store.write t key content).2 ∧
      stage.result? = some (d.store.write t key content).1 := by
  have hmaking : Writing.Reaches d key content t .making
      (t.makeDirectories (d.entryDirectory key)).2 :=
    reaches_makeFirst (fun _ hpath => hpath) t
  rw [store_write]
  unfold Directory.write
  split
  · next e made hmake =>
    rw [hmake] at hmaking
    exact ⟨.blocked e, hmaking.tail (.block e made), rfl⟩
  · next made hmake =>
    rw [hmake] at hmaking
    obtain ⟨stage, hreach, hstage⟩ := reaches_replaceEntry (hmaking.tail (.pass made))
    generalize d.replaceEntry made key content = replaced at hreach hstage ⊢
    obtain ⟨result, replaced⟩ := replaced
    rcases hstage with ⟨rfl, hresult⟩ | ⟨e, rfl, hresult⟩
    · obtain rfl : result = .ok () := hresult
      exact ⟨.done, hreach, rfl⟩
    · obtain rfl : result = .error e := hresult
      dsimp only
      exact ⟨.cleaned e, hreach.tail (.clean e replaced), rfl⟩

/-! ## What is changed -/

/-- The second tree is as the first one, but for what stands at the given places and for some of the
directories that the entry stands in. -/
structure Touched (place : Place) (key : Key) (spots : List Place) (t t' : Tree) : Prop where
  keeps : Keeps t t'
  rooted : t'.Rooted
  same_or_made : ∀ other, other ∉ spots → t'.entryAt? other = t.entryAt? other ∨
    (t.entryAt? other = none ∧ t'.entryAt? other = some .directory) ∧
      ∃ rel, rel <+: key.names.dropLast ∧ other = place ++ rel

namespace Touched

variable {spots spots' : List Place} {other : Place}

theorem refl (hroot : t.Rooted) : Touched place key [] t t :=
  ⟨.refl t, hroot, fun _ _ => Or.inl rfl⟩

theorem mono (h : Touched place key spots t t') (hspots : spots ⊆ spots') :
    Touched place key spots' t t' :=
  ⟨h.keeps, h.rooted, fun other hother => h.same_or_made other fun hmem => hother (hspots hmem)⟩

theorem opened (h : Touched place key spots t t') (hopen : d.Opened place t) :
    d.Opened place t' :=
  ⟨h.rooted, hopen.no_nul, h.keeps.leads hopen.leads⟩

/-- Something is put at one of the places. -/
theorem put {parent : Place} {name : String} (h : Touched place key spots t t')
    (hparent : t'.entryAt? parent = some .directory)
    (hne : t'.entryAt? (parent ++ [name]) ≠ some .directory) (hmem : parent ++ [name] ∈ spots)
    (e : Entry) : Touched place key spots t (t'.put (parent ++ [name]) e) := by
  refine ⟨h.keeps.trans (Files.Tree.keeps_put hne e), h.rooted.put hparent hne e,
    fun other hother => ?_⟩
  have hother' : other ≠ parent ++ [name] := by
    rintro rfl
    exact hother hmem
  rw [Files.Tree.entryAt?_put (Files.Tree.ne_root_of_entryAt? hne), if_neg hother']
  exact h.same_or_made other hother

/-- The file at one of the places is removed. -/
theorem erase {spot : Place} (h : Touched place key spots t t')
    (hne : t'.entryAt? spot ≠ some .directory) (hmem : spot ∈ spots) :
    Touched place key spots t (t'.erase spot) := by
  refine ⟨h.keeps.trans (Files.Tree.keeps_erase hne), h.rooted.erase hne, fun other hother => ?_⟩
  have hother' : other ≠ spot := by
    rintro rfl
    exact hother hmem
  rw [Files.Tree.entryAt?_erase (Files.Tree.ne_root_of_entryAt? hne), if_neg hother']
  exact h.same_or_made other hother

/-- A directory that the entry stands in is created. -/
theorem make {rel : List String} (h : Touched place key [] t t') (hrel : rel <+: key.names.dropLast)
    (hnone : t'.entryAt? (place ++ rel) = none)
    (hroot : (t'.put (place ++ rel) .directory).Rooted) :
    Touched place key [] t (t'.put (place ++ rel) .directory) := by
  have hne : t'.entryAt? (place ++ rel) ≠ some .directory := by
    rw [hnone]
    nofun
  refine ⟨h.keeps.trans (Files.Tree.keeps_put hne _), hroot, fun other hother => ?_⟩
  rw [Files.Tree.entryAt?_put (Files.Tree.ne_root_of_entryAt? hne)]
  split
  · next heq =>
    subst heq
    right
    rcases h.same_or_made _ hother with hsame | ⟨⟨-, hdirectory⟩, -⟩
    · exact ⟨⟨hsame.symm.trans hnone, rfl⟩, rel, hrel, rfl⟩
    · exact absurd hdirectory hne
  · exact h.same_or_made other hother

/-- A place whose last name is in no key is none of those at which a directory is created. -/
theorem eq_of_not_mem {name : String} {names : List String} (h : Touched place key spots t t')
    (hspots : place ++ (names ++ [name]) ∉ spots) (hname : name ∉ key.names) :
    t'.entryAt? (place ++ (names ++ [name])) = t.entryAt? (place ++ (names ++ [name])) := by
  refine (h.same_or_made _ hspots).resolve_right ?_
  rintro ⟨-, rel, hrel, heq⟩
  have hnames := List.append_cancel_left heq
  rw [← hnames] at hrel
  exact hname (List.dropLast_subset _ (hrel.subset (by simp)))

/-- What is a file after the change was the same file before. -/
theorem file (h : Touched place key spots t t') (hother : other ∉ spots) {content : Bytes}
    {modified : Int} (hfile : t'.entryAt? other = some (.file content modified)) :
    t.entryAt? other = some (.file content modified) := by
  rcases h.same_or_made other hother with hsame | ⟨⟨-, hdirectory⟩, -⟩
  · exact hsame.symm.trans hfile
  · rw [hdirectory] at hfile
    cases hfile

/-- What the path of an entry finds that nothing was changed at. -/
theorem find_entryPath (h : Touched place (.ofRequest repository request) spots t t')
    (hopen : d.Opened place t) (repository' : String) (request' : Request)
    (hspots : ∀ rel, rel <+: (Key.ofRequest repository' request').names → place ++ rel ∉ spots) :
    t'.find (d.entryPath (.ofRequest repository' request')) =
        t.find (d.entryPath (.ofRequest repository' request')) ∨
      (∃ name ∈ (Key.ofRequest repository' request').names, t.limits.admitsName name = false) ∧
        t.find (d.entryPath (.ofRequest repository' request')) = .error .notFound ∧
        t'.find (d.entryPath (.ofRequest repository' request')) = .error .nameTooLong := by
  have hleads := leads_entryPath hopen.leads repository' request'
  have hn : ∀ name ∈ (Key.ofRequest repository' request').names, Path.IsName name :=
    fun _ => Key.isName_of_mem
  have hgrows : Grows place (Key.ofRequest repository' request').names.dropLast t t' := by
    intro rel hrel hne
    have hway := hrel.trans (List.dropLast_prefix _)
    exact (h.same_or_made _ (hspots rel hway)).imp_right And.left
  -- no directory is created where an entry stands, since no key leads on from another one
  have hend : t'.entryAt? (place ++ (Key.ofRequest repository' request').names) =
      t.entryAt? (place ++ (Key.ofRequest repository' request').names) := by
    refine (h.same_or_made _ (hspots _ (List.prefix_refl _))).resolve_right ?_
    rintro ⟨-, rel, hrel, heq⟩
    rw [← List.append_cancel_left heq] at hrel
    have hkeys := Key.eq_of_prefix (hrel.trans (List.dropLast_prefix _))
    rw [hkeys] at hrel
    exact Key.not_prefix_dropLast _ _ hrel
  obtain ⟨last, hlast⟩ := Key.names_eq_concat repository' request'
  rw [hlast] at hleads hn hend ⊢
  exact Files.Tree.find_grown hopen.rooted h.keeps hleads hn hgrows hend

end Touched

/-! ## What holds at every stage -/

/-- The temporary file is there and holds the bytes. -/
def Filled (d : Directory) (place : Place) (key : Key) (bytes : Bytes) (t : Tree) : Prop :=
  ∃ modified, t.find (d.temporaryPath key) =
    .ok (d.temporaryPlace place key, .file bytes modified)

/-- What the writing of an entry has changed when it is at a stage. -/
def Writing.Stands (d : Directory) (place : Place) (key : Key) (content : Bytes) (t : Tree) :
    Writing → Tree → Prop
  | making, t' | creating, t' | blocked _, t' => Touched place key [] t t'
  | filling written rest, t' => Touched place key [d.temporaryPlace place key] t t' ∧
      d.Filled place key written t' ∧ written ++ rest = content
  | syncing, t' | replacing, t' => Touched place key [d.temporaryPlace place key] t t' ∧
      d.Filled place key content t'
  | cleaning _, t' => Touched place key [d.temporaryPlace place key] t t' ∧
      (t'.entryAt? (d.temporaryPlace place key) = t.entryAt? (d.temporaryPlace place key) ∨
        ∃ bytes, d.Filled place key bytes t')
  | cleaned _, t' => Touched place key [d.temporaryPlace place key] t t' ∧
      (t'.entryAt? (d.temporaryPlace place key) = t.entryAt? (d.temporaryPlace place key) ∨
        t'.entryAt? (d.temporaryPlace place key) = none) ∧
      ∀ bytes, t'.read (d.temporaryPath key) ≠ .ok bytes
  | abandoned _, t' => Touched place key [d.temporaryPlace place key] t t'
  | done, t' => Touched place key [entryPlace place key, d.temporaryPlace place key] t t' ∧
      t'.entryAt? (d.temporaryPlace place key) = none ∧
      ∃ modified, t'.find (d.entryPath key) =
        .ok (entryPlace place key, .file content modified)

theorem Touched.temporary_eq
    (h : Touched place (.ofRequest repository request) [] t t') (d : Directory) :
    t'.entryAt? (d.temporaryPlace place (.ofRequest repository request)) =
      t.entryAt? (d.temporaryPlace place (.ofRequest repository request)) :=
  h.eq_of_not_mem List.not_mem_nil (d.temporaryName_not_mem _ repository request)

section Steps

variable {stage stage' : Writing} {bytes : Bytes}

/-- A directory that is created on the way is one that the entry stands in. -/
theorem touched_of_make {path : String} (hopen : d.Opened place t)
    (h : Touched place (.ofRequest repository request) [] t t')
    (hpath : path ∈ Files.Path.ancestors (d.entryDirectory (.ofRequest repository request)))
    (hmake : t'.makeDirectory path = .ok t'') :
    Touched place (.ofRequest repository request) [] t t'' := by
  have hopen' := h.opened hopen
  rw [entryDirectory_eq] at hpath
  obtain ⟨parent, name, rel, hfollow, hrel, -, hplace, hnone, rfl⟩ :=
    Files.Tree.exists_of_makeDirectory_ancestor hopen'.leads (fun _ => isName_of_mem_init)
      hopen'.no_nul hpath hmake
  refine h.make hrel hnone ?_
  rw [← hplace] at hnone ⊢
  exact h.rooted.put (h.rooted.follow hfollow) (by rw [hnone]; nofun) .directory

/-- The temporary file is created or written, in whichever tree that can be done. -/
theorem filled_of_write (hopen : d.Opened place t)
    (h : Touched place (.ofRequest repository request)
      [d.temporaryPlace place (.ofRequest repository request)] t t')
    (hwrite : t'.write (d.temporaryPath (.ofRequest repository request)) bytes = .ok t'') :
    Touched place (.ofRequest repository request)
        [d.temporaryPlace place (.ofRequest repository request)] t t'' ∧
      d.Filled place (.ofRequest repository request) bytes t'' := by
  obtain ⟨parent, name, hfollow, hslash, hne, rfl⟩ := Files.Tree.exists_of_write hwrite
  have hplace := place_of_temporaryPath (h.opened hopen).leads hfollow
  have hmem : parent ++ [name] ∈ [d.temporaryPlace place (.ofRequest repository request)] :=
    List.mem_singleton.2 hplace
  refine ⟨h.put (h.rooted.follow hfollow) hne hmem _, t'.now, ?_⟩
  rw [← hplace]
  refine Files.Tree.find_of_put hfollow hslash (Files.Tree.keeps_put hne _) ?_
  rw [Files.Tree.entryAt?_put (Files.Tree.ne_root_of_entryAt? hne), if_pos rfl]

theorem Filled.entryAt?_ne (h : d.Filled place key bytes t) :
    t.entryAt? (d.temporaryPlace place key) ≠ some .directory := by
  obtain ⟨modified, hfind⟩ := h
  rw [Files.Tree.entryAt?_of_find hfind]
  nofun

/-- The temporary file takes the place of the entry. -/
theorem done_of_rename (hopen : d.Opened place t)
    (h : Touched place (.ofRequest repository request)
      [d.temporaryPlace place (.ofRequest repository request)] t t')
    (hfilled : d.Filled place (.ofRequest repository request) content t')
    (hrename : t'.rename (d.temporaryPath (.ofRequest repository request))
      (d.entryPath (.ofRequest repository request)) = .ok t'') :
    Writing.Stands d place (.ofRequest repository request) content t .done t'' := by
  have hfile := hfilled.entryAt?_ne
  obtain ⟨modified, hfound⟩ := hfilled
  obtain ⟨reached, e, parent, name, hfind, hfollow, hne, rfl⟩ :=
    Files.Tree.exists_of_rename hrename
  rw [hfound] at hfind
  obtain ⟨rfl, rfl⟩ := Prod.mk.inj (Except.ok.inj hfind)
  -- the temporary file goes, and then the entry comes
  have hplace := place_of_entryPath (h.opened hopen).leads hfollow
  have herased := h.erase hfile (List.mem_singleton_self _)
  have hkeeps := Files.Tree.keeps_erase hfile
  have hfree : (t'.erase (d.temporaryPlace place (.ofRequest repository request))).entryAt?
      (parent ++ [name]) ≠ some .directory := by
    rw [Files.Tree.entryAt?_erase (Files.Tree.ne_root_of_entryAt? hfile)]
    split
    · nofun
    · exact hne
  have hput := Files.Tree.entryAt?_put (Files.Tree.ne_root_of_entryAt? hfree)
    (t'.erase (d.temporaryPlace place (.ofRequest repository request))) (.file content modified)
  refine ⟨?_, ?_, modified, ?_⟩
  · refine (herased.mono (List.subset_cons_self _ _)).put
      (hkeeps.directory (h.rooted.follow hfollow)) hfree ?_ _
    rw [hplace]
    exact List.mem_cons_self
  · have hplaces := entryPlace_ne_temporaryPlace d place repository request
    rw [hput, if_neg (hplace ▸ hplaces.symm),
      Files.Tree.entryAt?_erase (Files.Tree.ne_root_of_entryAt? hfile), if_pos rfl]
  · rw [← hplace]
    exact Files.Tree.find_of_put hfollow (d.endsInSlash_entryPath repository request)
      (Files.Tree.keeps_rename hfile hne _) (by rw [hput, if_pos rfl])

/-- The temporary file is removed, if it is there. -/
theorem cleaned_of_removeFile (hopen : d.Opened place t) (cause : Files.Error)
    (h : Writing.Stands d place (.ofRequest repository request) content t (.cleaning cause) t') :
    Writing.Stands d place (.ofRequest repository request) content t (.cleaned cause)
      ((t'.removeFile (d.temporaryPath (.ofRequest repository request))).toOption.getD t') := by
  obtain ⟨htouched, hleft⟩ := h
  rcases t'.removeFile_cases (d.temporaryPath (.ofRequest repository request)) with
    ⟨reached, bytes, modified, hfind, hremove⟩ | ⟨hmissing, e, hremove⟩
  · obtain rfl := place_of_find_temporaryPath (htouched.opened hopen).leads hfind
    have hfile : t'.entryAt? (d.temporaryPlace place (.ofRequest repository request)) ≠
        some .directory := by
      rw [Files.Tree.entryAt?_of_find hfind]
      nofun
    have herased := htouched.erase hfile (List.mem_singleton_self _)
    have hnone : (t'.erase (d.temporaryPlace place (.ofRequest repository request))).entryAt?
        (d.temporaryPlace place (.ofRequest repository request)) = none := by
      rw [Files.Tree.entryAt?_erase (Files.Tree.ne_root_of_entryAt? hfile), if_pos rfl]
    rw [hremove]
    refine ⟨herased, Or.inr hnone, fun found hread => ?_⟩
    obtain ⟨reached, modified, hfound⟩ := Files.Tree.exists_of_read hread
    obtain rfl := place_of_find_temporaryPath (herased.opened hopen).leads hfound
    have hthere := Files.Tree.entryAt?_of_find hfound
    exact absurd (hnone.symm.trans hthere) nofun
  · rw [hremove]
    refine ⟨htouched, Or.inl (hleft.resolve_right ?_), fun found hread => ?_⟩
    · rintro ⟨bytes, modified, hfind⟩
      exact hmissing _ _ _ hfind
    · obtain ⟨reached, modified, hfound⟩ := Files.Tree.exists_of_read hread
      exact hmissing _ _ _ hfound

/-- Where a step that is guarded fails, the temporary file is as it was, or holds something. -/
theorem cleaning_of_fail (hguarded : stage.isGuarded = true) (cause : Files.Error)
    (h : Writing.Stands d place (.ofRequest repository request) content t stage t') :
    Writing.Stands d place (.ofRequest repository request) content t (.cleaning cause) t' := by
  cases stage with
  | creating => exact ⟨h.mono (List.nil_subset _), Or.inl (h.temporary_eq d)⟩
  | filling written rest => exact ⟨h.1, Or.inr ⟨written, h.2.1⟩⟩
  | syncing => exact ⟨h.1, Or.inr ⟨content, h.2⟩⟩
  | replacing => exact ⟨h.1, Or.inr ⟨content, h.2⟩⟩
  | making => cases hguarded
  | cleaning e => cases hguarded
  | blocked e => cases hguarded
  | cleaned e => cases hguarded
  | abandoned e => cases hguarded
  | done => cases hguarded

theorem Writing.Step.stands (hopen : d.Opened place t)
    (hstep : Step d (.ofRequest repository request) content (stage, t') (stage', t''))
    (h : Stands d place (.ofRequest repository request) content t stage t') :
    Stands d place (.ofRequest repository request) content t stage' t'' := by
  cases hstep with
  | make hpath hmake => exact touched_of_make hopen h hpath hmake
  | block cause => exact h
  | pass => exact h
  | create hwrite =>
    obtain ⟨htouched, hfilled⟩ := filled_of_write hopen (h.mono (List.nil_subset _)) hwrite
    exact ⟨htouched, hfilled, List.nil_append _⟩
  | fill hwrite =>
    obtain ⟨htouched, -, hcontent⟩ := h
    obtain ⟨htouched', hfilled⟩ := filled_of_write hopen htouched hwrite
    exact ⟨htouched', hfilled, by rw [List.append_assoc, hcontent]⟩
  | finish =>
    obtain ⟨htouched, hfilled, hcontent⟩ := h
    rw [List.append_nil] at hcontent
    exact ⟨htouched, hcontent ▸ hfilled⟩
  | sync => exact h
  | rename hrename => exact done_of_rename hopen h.1 h.2 hrename
  | fail hguarded cause => exact cleaning_of_fail hguarded cause h
  | clean cause => exact cleaned_of_removeFile hopen cause h
  | abandon cause => exact h.1

/-- What holds at a stage holds whenever it is reached. -/
theorem Writing.Reaches.stands (hopen : d.Opened place t)
    (hreach : Reaches d (.ofRequest repository request) content t stage t') :
    Stands d place (.ofRequest repository request) content t stage t' := by
  -- the induction is on the steps, and what holds at a stage is the invariant
  suffices hall : ∀ {state : Writing × Tree},
      Relation.ReflTransGen (Step d (.ofRequest repository request) content) (making, t) state →
        Stands d place (.ofRequest repository request) content t state.1 state.2 from hall hreach
  intro state hrun
  induction hrun with
  | refl => exact .refl hopen.rooted
  | tail _ hstep ih => exact hstep.stands hopen ih

end Steps

/-! ## What readers see -/

/-- A reader of the key gets the same answer. Only where there was no entry, and can be none because
one of the names is too long for the file system, may that be the answer later on. -/
def SameAnswer (d : Directory) (t t' : Tree) (key : Key) : Prop :=
  d.store.read t' key = d.store.read t key ∨
    (∃ name ∈ key.names, t.limits.admitsName name = false) ∧
      d.store.read t key = .ok none ∧ d.store.read t' key = .error (.io .nameTooLong)

/-- Every file of the second tree that does not stand at one of the places is a file of the first
one, with the same content. -/
def NewFilesAt (spots : List Place) (t t' : Tree) : Prop :=
  ∀ spot content modified, spot ∉ spots → t'.entryAt? spot = some (.file content modified) →
    t.entryAt? spot = some (.file content modified)

theorem sameAnswer_of_find
    (h : t'.find (d.entryPath key) = t.find (d.entryPath key) ∨
      (∃ name ∈ key.names, t.limits.admitsName name = false) ∧
        t.find (d.entryPath key) = .error .notFound ∧
        t'.find (d.entryPath key) = .error .nameTooLong) : d.SameAnswer t t' key := by
  rw [SameAnswer, store_read, store_read, Tree.read, Tree.read]
  rcases h with hsame | ⟨hlong, hold, hnew⟩
  · exact Or.inl (by rw [hsame])
  · rw [hold, hnew]
    exact Or.inr ⟨hlong, rfl, rfl⟩

/-- What becomes of the writing of an entry, however far it has come. -/
structure Writing.Atomic (d : Directory) (place : Place) (key : Key) (content : Bytes) (t : Tree)
    (stage : Writing) (t' : Tree) : Prop where
  /-- Another entry can be written after it. -/
  opened : d.Opened place t'
  /-- If it has failed, no entry of any key has changed. -/
  failed : ∀ cause, stage.result? = some (.error cause) →
    ∀ repository request, d.SameAnswer t t' (.ofRequest repository request)
  /-- If it has failed, there is no file that was not there before, unless the removal of the
  temporary file has failed as well. -/
  removed : ∀ cause, stage.result? = some (.error cause) → (∀ e, stage ≠ .abandoned e) →
    NewFilesAt [] t t'
  /-- If the temporary file was removed, there is none. -/
  cleaned : ∀ cause, stage = .cleaned cause → ∀ bytes, t'.read (d.temporaryPath key) ≠ .ok bytes
  /-- If it has succeeded, the entry is the content and the only file that may be new, and no other
  entry has changed. -/
  written : stage.result? = some (.ok ()) → d.store.read t' key = .ok (some content) ∧
    NewFilesAt [entryPlace place key] t t' ∧
    ∀ repository request, Key.ofRequest repository request ≠ key →
      d.SameAnswer t t' (.ofRequest repository request)
  /-- At every stage, a reader of any key gets the old entry, or all of the new one. -/
  seen : ∀ repository request, d.SameAnswer t t' (.ofRequest repository request) ∨
    Key.ofRequest repository request = key ∧ d.store.read t' key = .ok (some content)
  /-- No other temporary file of the process has changed. -/
  apart : ∀ count, count ≠ d.count → ∀ repository request,
    t'.entryAt? (temporaryPlace { d with count := count } place (.ofRequest repository request)) =
      t.entryAt? (temporaryPlace { d with count := count } place (.ofRequest repository request))

section Stands

variable {stage : Writing}

theorem Writing.Stands.touched (h : Stands d place key content t stage t')
    (hne : stage ≠ .done) : Touched place key [d.temporaryPlace place key] t t' := by
  cases stage with
  | making => exact Touched.mono h (List.nil_subset _)
  | creating => exact Touched.mono h (List.nil_subset _)
  | blocked e => exact Touched.mono h (List.nil_subset _)
  | abandoned e => exact h
  | filling written rest => exact h.1
  | syncing => exact h.1
  | replacing => exact h.1
  | cleaning e => exact h.1
  | cleaned e => exact h.1
  | done => exact absurd rfl hne

/-- Before the last step, no entry of any key has changed. -/
theorem sameAnswer_of_touched (hopen : d.Opened place t)
    (h : Touched place (.ofRequest repository request)
      [d.temporaryPlace place (.ofRequest repository request)] t t')
    (repository' : String) (request' : Request) :
    d.SameAnswer t t' (.ofRequest repository' request') := by
  refine sameAnswer_of_find (h.find_entryPath hopen repository' request' fun rel hrel hmem => ?_)
  exact not_on_way_temporary d place _ hrel (List.mem_singleton.1 hmem)

/-- With the last step, the entry of one key has changed. -/
theorem sameAnswer_of_done (hopen : d.Opened place t)
    (h : Writing.Stands d place (.ofRequest repository request) content t .done t')
    {repository' : String} {request' : Request}
    (hother : Key.ofRequest repository' request' ≠ .ofRequest repository request) :
    d.SameAnswer t t' (.ofRequest repository' request') := by
  refine sameAnswer_of_find (h.1.find_entryPath hopen repository' request' fun rel hrel hmem => ?_)
  rcases List.mem_cons.1 hmem with hentry | hmem
  · exact hother (eq_of_on_way hrel hentry)
  · exact not_on_way_temporary d place _ hrel (List.mem_singleton.1 hmem)

theorem read_of_done (h : Writing.Stands d place key content t .done t') :
    d.store.read t' key = .ok (some content) := by
  obtain ⟨-, -, modified, hfind⟩ := h
  rw [store_read, Files.Tree.read_of_find hfind]
  rfl

/-- Where the temporary file is as it was or has gone, no file is new but at the other places. -/
theorem newFilesAt_of_touched {spots : List Place}
    (h : Touched place key (spots ++ [d.temporaryPlace place key]) t t')
    (htemporary : t'.entryAt? (d.temporaryPlace place key) =
        t.entryAt? (d.temporaryPlace place key) ∨
      t'.entryAt? (d.temporaryPlace place key) = none) : NewFilesAt spots t t' := by
  intro spot bytes modified hspot hfile
  by_cases hsame : spot = d.temporaryPlace place key
  · subst hsame
    rcases htemporary with hsame | hnone
    · exact hsame.symm.trans hfile
    · exact absurd (hnone.symm.trans hfile) nofun
  · refine h.file (fun hmem => ?_) hfile
    rcases List.mem_append.1 hmem with hmem | hmem
    · exact hspot hmem
    · exact hsame (List.mem_singleton.1 hmem)

theorem newFilesAt_of_failed {cause : CacheError}
    (h : Writing.Stands d place key content t stage t')
    (hresult : stage.result? = some (.error cause)) (hremoved : ∀ e, stage ≠ .abandoned e) :
    NewFilesAt [] t t' := by
  cases stage with
  | blocked e => exact fun _ _ _ hspot hfile => Touched.file h hspot hfile
  | cleaned e => exact newFilesAt_of_touched h.1 h.2.1
  | abandoned e => exact absurd rfl (hremoved e)
  | making => cases hresult
  | creating => cases hresult
  | filling written rest => cases hresult
  | syncing => cases hresult
  | replacing => cases hresult
  | cleaning e => cases hresult
  | done => cases hresult

theorem temporaryPlace_same
    (h : Writing.Stands d place (.ofRequest repository request) content t stage t') {count : Nat}
    (hcount : count ≠ d.count) (repository' : String) (request' : Request) :
    t'.entryAt? (temporaryPlace { d with count := count } place (.ofRequest repository' request')) =
      t.entryAt?
        (temporaryPlace { d with count := count } place (.ofRequest repository' request')) := by
  have hname := temporaryName_not_mem { d with count := count } (.ofRequest repository' request')
    repository request
  have hplace : temporaryPlace { d with count := count } place (.ofRequest repository' request') ≠
      d.temporaryPlace place (.ofRequest repository request) := temporaryPlace_ne hcount
  by_cases hdone : stage = .done
  · subst hdone
    refine h.1.eq_of_not_mem (fun hmem => ?_) hname
    rcases List.mem_cons.1 hmem with hentry | hmem
    · exact not_on_way_temporary { d with count := count } place _ (List.prefix_refl _) hentry.symm
    · exact hplace (List.mem_singleton.1 hmem)
  · exact (h.touched hdone).eq_of_not_mem (fun hmem => hplace (List.mem_singleton.1 hmem)) hname

theorem Writing.Stands.atomic (hopen : d.Opened place t)
    (h : Stands d place (.ofRequest repository request) content t stage t') :
    Atomic d place (.ofRequest repository request) content t stage t' := by
  have hold : stage ≠ .done → ∀ repository' request',
      d.SameAnswer t t' (.ofRequest repository' request') :=
    fun hne => sameAnswer_of_touched hopen (h.touched hne)
  refine ⟨?_, ?_, fun cause => newFilesAt_of_failed h, ?_, ?_, ?_, ?_⟩
  · by_cases hdone : stage = .done
    · subst hdone
      exact h.1.opened hopen
    · exact (h.touched hdone).opened hopen
  · intro cause hresult
    refine hold ?_
    rintro rfl
    cases hresult
  · rintro cause rfl
    exact h.2.2
  · intro hresult
    obtain rfl : stage = .done := by
      cases stage <;> first | rfl | cases hresult
    have hfiles : NewFilesAt [entryPlace place (.ofRequest repository request)] t t' :=
      newFilesAt_of_touched h.1 (Or.inr h.2.1)
    exact ⟨read_of_done h, hfiles, fun _ _ => sameAnswer_of_done hopen h⟩
  · intro repository' request'
    by_cases hdone : stage = .done
    · subst hdone
      by_cases hkey : Key.ofRequest repository' request' = .ofRequest repository request
      · exact Or.inr ⟨hkey, read_of_done h⟩
      · exact Or.inl (sameAnswer_of_done hopen h hkey)
    · exact Or.inl (hold hdone repository' request')
  · exact fun count hcount => temporaryPlace_same h hcount

end Stands

/-- An entry is written in steps that may fail at any point, and if none is made to fail the steps
lead to what the store answers and leaves. Whatever they lead to, nobody who reads an entry gets
anything but the old entry or all of the new one; an error leaves all entries as they were, and no
file if the temporary file can be removed; and success leaves all other entries as they were. -/
theorem write_atomic (hopen : d.Opened place t) (repository : String) (request : Request)
    (content : Bytes) :
    (∃ stage, Writing.Reaches d (.ofRequest repository request) content t stage
        (d.store.write t (.ofRequest repository request) content).2 ∧
      stage.result? = some (d.store.write t (.ofRequest repository request) content).1) ∧
    ∀ stage t', Writing.Reaches d (.ofRequest repository request) content t stage t' →
      Writing.Atomic d place (.ofRequest repository request) content t stage t' := by
  refine ⟨d.exists_reaches_write t _ content, fun stage t' hreach => ?_⟩
  have hstands := hreach.stands hopen
  exact hstands.atomic hopen

/-- The cache of the first process that writes to it. -/
def rootCache : Directory := ⟨"/cache", 1, 0⟩

/-- A tree with that cache, in which one entry stands. -/
def listedTree : Tree where
  entries := [
    (["cache"], .directory),
    (["cache", "central"], .directory),
    (["cache", "central", "versions"], .directory),
    (["cache", "central", "versions", "g"], .directory),
    (["cache", "central", "versions", "g", "lib"], .directory),
    (["cache", "central", "versions", "g", "lib", "versions"], .file [7] 0)]

theorem opened_listedTree : rootCache.Opened ["cache"] listedTree where
  rooted := Files.Tree.rooted_of_entries (by decide) (by decide)
  no_nul := by decide
  leads := ⟨["cache"], by decide, by decide⟩

/-- The disk is full after the first byte of the new entry, and the temporary file is removed. -/
theorem full_disk_keeps_entry :
    let key := Key.ofRequest "central" (.listing "g" "lib")
    let cause := Files.Error.other "No space left on device (os error 28)"
    rootCache.Opened ["cache"] listedTree ∧ rootCache.store.read listedTree key = .ok (some [7]) ∧
      ∃ t', Writing.Reaches rootCache key [1, 2] listedTree (.cleaned cause) t' ∧
        rootCache.store.read t' key = .ok (some [7]) ∧ NewFilesAt [] listedTree t' := by
  intro key cause
  have hread : rootCache.store.read listedTree key = .ok (some [7]) := by decide +kernel
  have hfollow : listedTree.follow (rootCache.temporaryPath key) =
      .ok (.named ["cache", "central", "versions", "g", "lib"] ".versions.1.0.tmp") := by
    decide +kernel
  have hslash : Files.Path.endsInSlash (rootCache.temporaryPath key) = false := by decide +kernel
  have hfree : listedTree.entryAt? (["cache", "central", "versions", "g", "lib"] ++
      [".versions.1.0.tmp"]) ≠ some .directory := by decide
  have hcreate := Files.Tree.write_of_named [] hfollow hslash hfree
  have hkept := (Files.Tree.keeps_put hfree (.file [] listedTree.now)).follow hfollow
  have hfill := Files.Tree.write_of_named ([] ++ [1]) hkept hslash (by decide)
  have hfirst : Writing.Step rootCache key [1, 2] (.filling [] ([1] ++ [2]), _)
      (.filling ([] ++ [1]) [2], _) := .fill hfill
  have hreach := ((((Relation.ReflTransGen.single (Writing.Step.pass listedTree)).tail
    (.create hcreate)).tail hfirst).tail (.fail rfl cause _)).tail (.clean cause _)
  have hatomic := (write_atomic opened_listedTree "central" (.listing "g" "lib") [1, 2]).2
    _ _ hreach
  refine ⟨opened_listedTree, hread, _, hreach, ?_, hatomic.removed _ rfl nofun⟩
  rcases hatomic.failed _ rfl "central" (.listing "g" "lib") with hsame | ⟨-, hnone, -⟩
  · exact hsame.trans hread
  · exact absurd (hread.symm.trans hnone) (by decide)

/-! ## Names that are too long -/

section Long

variable {names more : List String} {name : String} (hbase : t.Spells place d.location [])
  (hkey : (Key.ofRequest repository request).names = names ++ name :: more)
  (htakes : t.Takes names) (hpassable : t.Passable place names)
  (hpath : t.limits.admitsPath (d.entryPath (.ofRequest repository request)) = true)
include hbase hkey htakes hpassable hpath

/-- There is no entry as long as a directory on the way to it is missing. -/
theorem read_of_gap (hgap : ¬ t.Paved place names) :
    d.store.read t (.ofRequest repository request) = .ok none := by
  have hspells := spells_entryPath hbase hpath
  rw [hkey] at hspells
  have hfollow := Files.Tree.follow_of_gap hspells htakes hpassable hgap
  rw [store_read, Tree.read, Tree.find, hfollow]
  rfl

/-- Writing an entry that has a name that is too long fails, and so does reading it after that,
since the directories before that name are there then. -/
theorem write_of_long (hbare : t.Bare place) (hmore : more ≠ [])
    (hlong : t.limits.admitsName name = false)
    (hpaths : ∀ path ∈ Files.Path.ancestors (d.entryDirectory (.ofRequest repository request)),
      t.limits.admitsPath path = true) (content : Bytes) :
    ∃ t', d.store.write t (.ofRequest repository request) content =
        (.error (.io .nameTooLong), t') ∧
      d.store.read t' (.ofRequest repository request) = .error (.io .nameTooLong) := by
  have hinit : (Key.ofRequest repository request).names.dropLast =
      names ++ name :: more.dropLast := by
    rw [hkey, List.dropLast_append_of_ne_nil (List.cons_ne_nil _ _),
      List.dropLast_cons_of_ne_nil hmore]
  have hn : ∀ name' ∈ names ++ name :: more.dropLast, Path.IsName name' :=
    hinit ▸ fun _ => isName_of_mem_init
  rw [entryDirectory_eq, hinit] at hpaths
  obtain ⟨t', hmake, hpaves⟩ := Files.Tree.makeDirectories_of_long hbare (.refl place t) hbase hn
    htakes hlong hpaths hpassable
  refine ⟨t', ?_, ?_⟩
  · rw [store_write, Directory.write, entryDirectory_eq, hinit, hmake]
  · have hspells := hpaves.around.spells hbare (spells_entryPath hbase hpath)
    rw [hkey] at hspells
    have hfollow := Files.Tree.follow_of_long hspells (hpaves.around.takes htakes) hpaves.paved
      (hn name (by simp)) (hpaves.around.limits_eq ▸ hlong)
    rw [store_read, Tree.read, Tree.find, hfollow]
    rfl

end Long

/-- A tree with that cache, in which nothing stands. -/
def emptyTree : Tree where
  entries := [(["cache"], .directory)]

theorem opened_emptyTree : rootCache.Opened ["cache"] emptyTree where
  rooted := Files.Tree.rooted_of_entries (by decide) (by decide)
  no_nul := by decide
  leads := ⟨["cache"], by decide, by decide⟩

theorem entryAt?_emptyTree {rel : List String} (hrel : rel ≠ []) :
    emptyTree.entryAt? (["cache"] ++ rel) = none := by
  simp [Tree.entryAt?, emptyTree, hrel]

/-- A name of three hundred bytes, which is more than a file system takes. -/
def longName : String := String.ofList (List.replicate 300 'a')

/-- An entry with that name. -/
def longKey : Key := .ofRequest "central" (.descriptor ⟨longName, "lib", "1.0"⟩)

theorem names_longKey : longKey.names =
    ["central", "descriptors"] ++ longName :: ["lib", "1.0", "descriptor"] := by
  have hlist : longName.toList = List.replicate 300 'a' := String.toList_ofList
  have hescape : escape longName.toList = longName.toList := by
    refine escape_of_plain ?_ ?_ fun c hc => ?_
    · rw [hlist]
      exact List.cons_ne_nil _ _
    · rw [hlist, List.replicate_succ]
      decide
    · rw [hlist] at hc
      rw [List.eq_of_mem_replicate hc]
      decide
  rw [longKey, Key.ofRequest, Key.descriptor, Key.ofTexts, Key.names]
  simp only [List.map_cons, List.map_nil, hescape, String.ofList_toList]
  decide +kernel

/-- Its paths are not too long. -/
theorem admitted_longKey : ∀ path ∈ rootCache.entryPath longKey ::
    Files.Path.ancestors (rootCache.entryDirectory longKey),
    emptyTree.limits.admitsPath path = true := by
  have hjoin : ∀ names : List String, (∀ name ∈ names, Path.IsName name) →
      Files.Path.join rootCache.location (Files.Path.ofComponents false names) =
        "/cache/" ++ Files.Path.ofComponents false names := by
    intro names hn
    have hparts : ∀ name ∈ names, Files.Path.IsPart name :=
      fun name hname => (hn name hname).toIsPart
    exact Files.Path.join_of_relative (Files.Path.isAbsolute_ofComponents hparts false) (by decide)
      (by decide)
  have hn : ∀ name ∈ longKey.names, Path.IsName name := fun _ => Key.isName_of_mem
  have hinit : ∀ name ∈ longKey.names.dropLast, Path.IsName name :=
    fun name hname => hn name (List.dropLast_subset _ hname)
  rw [entryPath_eq, entryDirectory_eq, Files.Path.ancestors_join hinit, hjoin _ hn, hjoin _ hinit,
    names_longKey]
  decide +kernel

/-- The entry is missing as long as the directories before the long name are. The writing of it
creates these and fails then, and after that it is an error to read the entry. -/
theorem long_name_found_late :
    rootCache.Opened ["cache"] emptyTree ∧
      rootCache.store.read emptyTree longKey = .ok none ∧
      (rootCache.store.write emptyTree longKey [1]).1 = .error (.io .nameTooLong) ∧
      rootCache.store.read (rootCache.store.write emptyTree longKey [1]).2 longKey =
        .error (.io .nameTooLong) := by
  have hbase : emptyTree.Spells ["cache"] rootCache.location [] :=
    Files.Tree.spells_of_find (by decide)
  have hbare : emptyTree.Bare ["cache"] := fun rel hrel => by rw [entryAt?_emptyTree hrel]; nofun
  have hpassable : emptyTree.Passable ["cache"] ["central", "descriptors"] :=
    fun rel _ hrel => Or.inr (entryAt?_emptyTree hrel)
  have htakes : emptyTree.Takes ["central", "descriptors"] := by
    intro name hname
    refine ⟨Key.isName_of_mem (names_longKey ▸ List.mem_append_left _ hname), ?_⟩
    revert name
    decide
  have hgap : ¬ emptyTree.Paved ["cache"] ["central", "descriptors"] :=
    fun hpaved => absurd (hpaved ["central"] (by decide) (by decide)) (by decide)
  obtain ⟨hpath, hpaths⟩ := List.forall_mem_cons.1 admitted_longKey
  have hmissing := read_of_gap hbase names_longKey htakes hpassable hpath hgap
  obtain ⟨t', hwrite, hread⟩ := write_of_long hbase names_longKey htakes hpassable hpath hbare
    (by decide) (by decide +kernel) hpaths [1]
  rw [← longKey] at hmissing hwrite hread
  rw [hwrite]
  exact ⟨opened_emptyTree, hmissing, rfl, hread⟩

end ArtifactResolver.Cache.Directory
