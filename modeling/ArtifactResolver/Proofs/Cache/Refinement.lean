import ArtifactResolver.Proofs.Cache.Directory

/-!
# Runs on a cache in a directory

A directory that held its lock file only is written to and cleared, in any order, by any processes
and at any times. After every such run it is the map of what was written last under each key, and
the lock file is still there. That goes for the runs of a session as well, which writes each entry
under a number that it has not used before.
-/

namespace ArtifactResolver.Cache.Directory

open Files (Limits Place Tree)

/-- What is done with the cache in a directory. -/
inductive Step where
  /-- The process with this number, which had so many temporary files before, writes an entry. -/
  | write (process count : Nat) (repository : String) (request : Request) (content : Bytes)
  /-- All entries are removed. -/
  | clear
  /-- The clock is set, forward or back. -/
  | wait (now : Int)

namespace Step

/-- What a step makes of the map. -/
def on : Step → Contents → Contents
  | write _ _ repository request content, c => c.write (.ofRequest repository request) content
  | clear, c => .empty c.now
  | wait now, c => { c with now := now }

/-- The step as an action on the tree. -/
def run (d : Directory) : Step → Action Tree (Except CacheError Unit)
  | write process count repository request content =>
    let writer : Directory := { d with process := process, count := count }
    writer.store.put (.ofRequest repository request) content
  | clear => d.clear
  | wait now => do
    Action.setEnv { (← Action.env) with now := now }
    return .ok ()

/-- What the step writes has no names or paths that are too long. -/
def Fits (d : Directory) (l : Limits) : Step → Prop
  | write process count repository request _ =>
    let writer : Directory := { d with process := process, count := count }
    writer.Fits l (.ofRequest repository request)
  | clear => True
  | wait _ => True

theorem fits_of_unlimited {l : Limits} (h : l = ⟨none, none⟩) (d : Directory) (step : Step) :
    step.Fits d l := by
  cases step with
  | write process count repository request content => exact Directory.fits_of_unlimited h _ _
  | clear => trivial
  | wait now => trivial

end Step

/-- The map after the steps of a run. -/
def after (steps : List Step) (c : Contents) : Contents := steps.foldl (fun c step => step.on c) c

theorem after_concat (steps : List Step) (step : Step) (c : Contents) :
    after (steps ++ [step]) c = step.on (after steps c) := by
  rw [after, List.foldl_append]
  rfl

/-- What every step of a run keeps, whichever way the steps are taken, the run keeps. -/
theorem run_induction {take : Step → Action Tree (Except CacheError Unit)}
    {I : List Step → World Tree → Prop} {steps : List Step}
    (hstep : ∀ step ∈ steps, ∀ before w, I before w →
      ∃ w', take step w = .ok (.ok ()) w' ∧ I (before ++ [step]) w') {w : World Tree}
    (h : I [] w) :
    ∃ w', steps.mapM take w = .ok (steps.map fun _ => .ok ()) w' ∧ I steps w' := by
  -- the induction is on the steps that are left, behind those that were taken
  suffices hall : ∀ rest ⊆ steps, ∀ before w, I before w →
      ∃ w', rest.mapM take w = .ok (rest.map fun _ => .ok ()) w' ∧ I (before ++ rest) w' from
    hall steps (List.Subset.refl steps) [] w h
  intro rest
  induction rest with
  | nil => exact fun _ before w h => ⟨w, rfl, (List.append_nil before).symm ▸ h⟩
  | cons step rest ih =>
    intro hrest before w h
    obtain ⟨hmem, hrest⟩ := List.cons_subset.1 hrest
    obtain ⟨w₁, htake, h₁⟩ := hstep step hmem before w h
    obtain ⟨w', hothers, h'⟩ := ih hrest (before ++ [step]) w₁ h₁
    refine ⟨w', ?_, List.append_cons before step rest ▸ h'⟩
    rw [List.mapM_cons, Action.bind_apply, htake]
    simp only [Action.bind_apply, hothers]
    rfl

variable {d : Directory} {t₀ : Tree} {place : Place} {c : Contents} {w : World Tree}

theorem Holds.wait {t : Tree} (h : Holds place t₀ c t) (now : Int) :
    Holds place t₀ { c with now := now } { t with now := now } :=
  ⟨rfl, ⟨h.around.limits_eq, h.around.origin_eq, h.around.entryAt?_eq⟩, h.lock_eq, h.known, h.file,
    h.directory, h.only⟩

/-- Clearing the directory finds it, and removes its entries. -/
theorem Holds.clear_apply (h : Holds place t₀ c w.env) (hfresh : d.Fresh t₀ place) :
    ∃ w', d.clear w = .ok (.ok ()) w' ∧ w'.env = emptied w.env place := by
  have hspells := h.around.spells hfresh.bare (Files.Tree.spells_of_find hfresh.found)
  have hfind := Files.Tree.find_of_spells hspells
  rw [Directory.clear]
  simp only [Action.bind_apply, Action.env_apply, hfind]
  exact ⟨_, rfl, rfl⟩

/-- A step does to the directory what it does to the map. -/
theorem Holds.step (h : Holds place t₀ c w.env) (hfresh : d.Fresh t₀ place) {step : Step}
    (hfits : step.Fits d t₀.limits) :
    ∃ w', step.run d w = .ok (.ok ()) w' ∧ Holds place t₀ (step.on c) w'.env := by
  cases step with
  | write process count repository request content =>
    have hwriter : ({ d with process := process, count := count } : Directory).Fresh t₀ place :=
      ⟨hfresh.found, hfresh.lock, hfresh.only⟩
    obtain ⟨t', hwrite, hgains⟩ := h.gains hwriter hfits content
    refine ⟨{ w with env := t' }, ?_, h.write hgains⟩
    simp only [Step.run, Store.put, Action.bind_apply, Action.env_apply, hwrite]
    rfl
  | clear =>
    obtain ⟨w', hclear, henv⟩ := h.clear_apply hfresh
    exact ⟨w', hclear, henv ▸ h.clear⟩
  | wait now => exact ⟨_, rfl, h.wait now⟩

/-- A run whose names and paths are not too long does to the directory what it does to the map. -/
theorem Holds.run (h : Holds place t₀ c w.env) (hfresh : d.Fresh t₀ place) {steps : List Step}
    (hfits : ∀ step ∈ steps, step.Fits d t₀.limits) :
    ∃ w', steps.mapM (Step.run d) w = .ok (steps.map fun _ => .ok ()) w' ∧
      Holds place t₀ (after steps c) w'.env := by
  refine run_induction (I := fun before w => Holds place t₀ (after before c) w.env)
    (fun step hmem before w hbefore => ?_) h
  rw [after_concat]
  exact hbefore.step hfresh (hfits step hmem)

/-- The directory is seen as a map. -/
structure Shows (d : Directory) (place : Place) (c : Contents) (w : World Tree) : Prop where
  read_eq : ∀ repository request, d.store.read w.env (.ofRequest repository request) =
    .ok ((c.entry (.ofRequest repository request)).map Prod.fst)
  age_eq : ∀ repository request, d.store.age w.env (.ofRequest repository request) =
    .ok ((c.entry (.ofRequest repository request)).map fun found => ⟨(c.now - found.2).toNat⟩)
  /-- An entry has no age just if there is nothing to read. -/
  age_none : ∀ repository request, d.store.age w.env (.ofRequest repository request) = .ok none ↔
    d.store.read w.env (.ofRequest repository request) = .ok none
  /-- Another entry can be written, and this one stays. -/
  write : ∀ process count repository request content, ∃ w',
    (Step.write process count repository request content).run d w = .ok (.ok ()) w' ∧
    ∀ repository' request', Key.ofRequest repository' request' ≠ .ofRequest repository request →
      d.store.read w'.env (.ofRequest repository' request') =
        d.store.read w.env (.ofRequest repository' request') ∧
      d.store.age w'.env (.ofRequest repository' request') =
        d.store.age w.env (.ofRequest repository' request')
  /-- All entries can be removed, and the lock file stays. -/
  clear : ∃ w', d.clear w = .ok (.ok ()) w' ∧
    (∀ repository request, d.store.read w'.env (.ofRequest repository request) = .ok none ∧
      d.store.age w'.env (.ofRequest repository request) = .ok none) ∧
    w'.env.entryAt? (place ++ [lockName]) = w.env.entryAt? (place ++ [lockName])
  lock : ∃ content modified,
    w.env.entryAt? (place ++ [lockName]) = some (.file content modified)
  /-- There are no other files, and so no temporary ones. -/
  files : ∀ rel content modified, rel ≠ [] →
    w.env.entryAt? (place ++ rel) = some (.file content modified) → rel = [lockName] ∨
      ∃ repository request, rel = (Key.ofRequest repository request).names ∧
        d.store.read w.env (.ofRequest repository request) = .ok (some content)

section Shows

variable (hlimits : t₀.limits = ⟨none, none⟩)
include hlimits

theorem Holds.write_others (h : Holds place t₀ c w.env) (hfresh : d.Fresh t₀ place)
    (process count : Nat) (repository : String) (request : Request) (content : Bytes) : ∃ w',
      (Step.write process count repository request content).run d w = .ok (.ok ()) w' ∧
      ∀ repository' request', Key.ofRequest repository' request' ≠ .ofRequest repository request →
        d.store.read w'.env (.ofRequest repository' request') =
          d.store.read w.env (.ofRequest repository' request') ∧
        d.store.age w'.env (.ofRequest repository' request') =
          d.store.age w.env (.ofRequest repository' request') := by
  obtain ⟨w', hrun, h'⟩ := h.step hfresh (Step.fits_of_unlimited hlimits d
    (.write process count repository request content))
  refine ⟨w', hrun, fun repository' request' hother => ?_⟩
  have hfits := fits_of_unlimited hlimits d (.ofRequest repository' request')
  have hsame : ((Step.write process count repository request content).on c).entry
      (.ofRequest repository' request') = c.entry (.ofRequest repository' request') :=
    if_neg hother
  constructor
  · rw [h'.read_eq hfresh hfits, h.read_eq hfresh hfits, hsame]
  · rw [h'.age_eq hfresh hfits, h.age_eq hfresh hfits, hsame]
    rfl

theorem Holds.clear_others (h : Holds place t₀ c w.env) (hfresh : d.Fresh t₀ place) :
    ∃ w', d.clear w = .ok (.ok ()) w' ∧
      (∀ repository request, d.store.read w'.env (.ofRequest repository request) = .ok none ∧
        d.store.age w'.env (.ofRequest repository request) = .ok none) ∧
      w'.env.entryAt? (place ++ [lockName]) = w.env.entryAt? (place ++ [lockName]) := by
  obtain ⟨w', hclear, henv⟩ := h.clear_apply hfresh
  have h' : Holds place t₀ (.empty c.now) w'.env := henv ▸ h.clear
  refine ⟨w', hclear, fun repository request => ?_, h'.lock_eq.trans h.lock_eq.symm⟩
  have hfits := fits_of_unlimited hlimits d (.ofRequest repository request)
  exact ⟨h'.read_eq hfresh hfits, h'.age_eq hfresh hfits⟩

theorem Holds.shows (h : Holds place t₀ c w.env) (hfresh : d.Fresh t₀ place) :
    d.Shows place c w := by
  have hfits := fun repository request =>
    fits_of_unlimited hlimits d (.ofRequest repository request)
  have hread := fun repository request => h.read_eq hfresh (hfits repository request)
  have hage := fun repository request => h.age_eq hfresh (hfits repository request)
  refine ⟨hread, hage, fun repository request => ?_, h.write_others hlimits hfresh,
    h.clear_others hlimits hfresh, ?_, ?_⟩
  · rw [hread, hage]
    simp
  · rw [h.lock_eq]
    exact hfresh.lock
  · intro rel content modified hne hfile
    refine (h.only hfile hne).imp_right ?_
    rintro ⟨key, found, hentry, hrel⟩
    obtain ⟨repository, request, rfl⟩ := h.known hentry
    -- a file is the end of the way, because the way goes through directories
    have hend : rel = (Key.ofRequest repository request).names := by
      by_contra hproper
      rw [h.directory hentry rel hrel hproper hne] at hfile
      cases hfile
    have hcontent := h.file hentry
    rw [← hend, hfile, Option.some.injEq, Files.Entry.file.injEq] at hcontent
    refine ⟨repository, request, hend, ?_⟩
    rw [hread, hentry, hcontent.1]
    rfl

end Shows

/-- Every run of writes and removals in a directory that held its lock file only succeeds, and makes
of the directory what it makes of the empty map. -/
theorem runs_refine_map {d : Directory} {place : Place} {w : World Tree}
    (hfresh : d.Fresh w.env place) (hlimits : w.env.limits = ⟨none, none⟩) (steps : List Step) :
    ∃ w', steps.mapM (Step.run d) w = .ok (steps.map fun _ => .ok ()) w' ∧
      d.Shows place (after steps (.empty w.env.now)) w' := by
  obtain ⟨w', hrun, h⟩ := hfresh.holds.run hfresh fun step _ =>
    Step.fits_of_unlimited hlimits d step
  exact ⟨w', hrun, h.shows hlimits hfresh⟩

/-! ## Sessions -/

namespace Step

/-- The step as a session takes it, under its own process and with its own numbers, whatever those
of the step are. -/
def inSession (d : Directory) : Step → Action Tree (Except CacheError Unit)
  | write _ _ repository request content =>
    d.sessionStore.put (.ofRequest repository request) content
  | clear => clear.run d
  | wait now => (wait now).run d

/-- Whether the step writes an entry. -/
def isWrite : Step → Bool
  | write .. => true
  | _ => false

end Step

/-- In a session an entry is written as by the directory with the next number. -/
theorem sessionStore_write (d : Directory) (t : Tree) (key : Key) (content : Bytes) :
    d.sessionStore.write t key content =
      (((d.next t).store.write t key content).1,
        { ((d.next t).store.write t key content).2 with
          temporaries := d.temporariesAfter t key }) := rfl

theorem temporariesAfter_of_write {t t' : Tree} {key : Key} {content : Bytes}
    (h : (d.next t).store.write t key content = (.ok (), t')) :
    d.temporariesAfter t key = t.temporaries + 1 := by
  have hdirectory : (d.next t).entryDirectory key = d.entryDirectory key := rfl
  rw [store_write, Directory.write, hdirectory] at h
  rw [temporariesAfter]
  split at h
  · cases (Prod.mk.inj h).1
  · next made hmake =>
    rw [hmake]
    rfl

theorem temporaries_emptied (t : Tree) (place : Place) :
    (emptied t place).temporaries = t.temporaries := by
  have herased : ∀ (names : List String) (t : Tree),
      (names.foldl (fun t name => t.eraseAll (place ++ [name])) t).temporaries =
        t.temporaries := by
    intro names
    induction names with
    | nil => exact fun _ => rfl
    | cons name rest ih => exact fun t => ih (t.eraseAll (place ++ [name]))
  exact herased _ t

theorem Holds.count {t : Tree} (h : Holds place t₀ c t) (temporaries : Nat) :
    Holds place t₀ c { t with temporaries := temporaries } :=
  ⟨h.now_eq, ⟨h.around.limits_eq, h.around.origin_eq, h.around.entryAt?_eq⟩, h.lock_eq, h.known,
    h.file, h.directory, h.only⟩

/-- A step of a session does to the directory what it does to the map, and a write uses up one
number. -/
theorem Holds.session_step (h : Holds place t₀ c w.env) (hfresh : d.Fresh t₀ place)
    (hlimits : t₀.limits = ⟨none, none⟩) (step : Step) :
    ∃ w', step.inSession d w = .ok (.ok ()) w' ∧ Holds place t₀ (step.on c) w'.env ∧
      w'.env.temporaries = w.env.temporaries + if step.isWrite then 1 else 0 := by
  cases step with
  | write process count repository request content =>
    have hwriter : (d.next w.env).Fresh t₀ place := ⟨hfresh.found, hfresh.lock, hfresh.only⟩
    obtain ⟨t', hwrite, hgains⟩ :=
      h.gains hwriter (fits_of_unlimited hlimits _ (.ofRequest repository request)) content
    have hnumber := temporariesAfter_of_write hwrite
    refine ⟨{ w with env := { t' with temporaries := w.env.temporaries + 1 } }, ?_,
      (h.write hgains).count _, rfl⟩
    simp only [Step.inSession, Store.put, Action.bind_apply, Action.env_apply, sessionStore_write,
      hwrite, hnumber]
    rfl
  | clear =>
    obtain ⟨w', hclear, henv⟩ := h.clear_apply hfresh
    refine ⟨w', hclear, henv ▸ h.clear, ?_⟩
    rw [henv, temporaries_emptied]
    rfl
  | wait now => exact ⟨_, rfl, h.wait now, rfl⟩

theorem Holds.session_run (h : Holds place t₀ c w.env) (hfresh : d.Fresh t₀ place)
    (hlimits : t₀.limits = ⟨none, none⟩) (steps : List Step) :
    ∃ w', steps.mapM (Step.inSession d) w = .ok (steps.map fun _ => .ok ()) w' ∧
      Holds place t₀ (after steps c) w'.env ∧
      w'.env.temporaries = w.env.temporaries + steps.countP Step.isWrite := by
  let number := w.env.temporaries
  refine run_induction (I := fun before w => Holds place t₀ (after before c) w.env ∧
    w.env.temporaries = number + before.countP Step.isWrite)
    (fun step _ before w hbefore => ?_) ⟨h, rfl⟩
  obtain ⟨hholds, hnumber⟩ := hbefore
  obtain ⟨w', hstep, h', hnumber'⟩ := hholds.session_step hfresh hlimits step
  refine ⟨w', hstep, (after_concat before step c).symm ▸ h', ?_⟩
  rw [hnumber', hnumber, List.countP_append, List.countP_singleton, Nat.add_assoc]

/-- A session makes of the directory what it makes of the empty map, and the number of its next
temporary file has grown by the number of its writes, so that no two of them have had the same. -/
theorem session_refines_map {d : Directory} {place : Place} {w : World Tree}
    (hfresh : d.Fresh w.env place) (hlimits : w.env.limits = ⟨none, none⟩) (steps : List Step) :
    ∃ w', steps.mapM (Step.inSession d) w = .ok (steps.map fun _ => .ok ()) w' ∧
      d.Shows place (after steps (.empty w.env.now)) w' ∧
      (d.next w'.env).count = (d.next w.env).count + steps.countP Step.isWrite := by
  obtain ⟨w', hrun, h, hnumber⟩ := hfresh.holds.session_run hfresh hlimits steps
  refine ⟨w', hrun, h.shows hlimits hfresh, ?_⟩
  rw [next, next, hnumber, Nat.add_assoc]

/-! ## A run -/

/-- A directory that holds its lock file only. -/
def sampleFresh : World Tree where
  env := {
    entries := [(["c"], .directory), (["c", ".lock"], .file [] 0)]
    limits := ⟨none, none⟩ }

/-- An entry is written, removed, and written twice again, the second time a day later. -/
def sampleSteps : List Step :=
  [.write 7 0 "central" (.listing "g" "m") [1], .clear,
    .write 7 1 "central" (.listing "g" "m") [2], .wait 86400000,
    .write 8 0 "central" (.listing "g" "m") [3]]

theorem fresh_sampleFresh : Fresh ⟨"/c", 1, 0⟩ sampleFresh.env ["c"] where
  found := by decide
  lock := ⟨[], 0, rfl⟩
  only rel hne hlock := by
    have hempty : rel.isEmpty = false := by simpa using hne
    have hother : (rel == [".lock"]) = false := beq_false_of_ne hlock
    simp [Tree.entryAt?, sampleFresh, List.lookup_cons, hempty, hother]

theorem sample_refines_map :
    (after sampleSteps (.empty 0)).entry (.ofRequest "central" (.listing "g" "m")) =
        some ([3], 86400000) ∧
      ∃ w', sampleSteps.mapM (Step.run ⟨"/c", 1, 0⟩) sampleFresh =
          .ok (sampleSteps.map fun _ => .ok ()) w' ∧
        Shows ⟨"/c", 1, 0⟩ ["c"] (after sampleSteps (.empty 0)) w' :=
  ⟨by decide, runs_refine_map fresh_sampleFresh rfl sampleSteps⟩

end ArtifactResolver.Cache.Directory
