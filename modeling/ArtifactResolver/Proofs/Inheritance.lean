import ArtifactResolver.Metadata
import ArtifactResolver.Proofs.Ascending
import Mathlib.Logic.Relation

/-!
# What configurations inherit

The artifacts of a configuration are those of all declared configurations that it leads to by
extensions. The search that finds them is given as steps between its states. It always comes to an
end, also where extensions form cycles: a configuration is entered once, and only an entry makes
more names pending. What was entered is reachable and what is reachable is entered in the end, which
is the invariant of the steps.
-/

namespace ArtifactResolver.Metadata

open Relation (ReflTransGen)

variable {m : Metadata} {name : String} {visited : List String}

/-- A declared configuration extends another one, which may be declared or not. -/
def Extends (m : Metadata) (child parent : String) : Prop :=
  ∃ c, m.configuration? child = some c ∧ parent ∈ c.parents

/-- The artifact is one of a declared configuration that the named one leads to by zero or more
extensions. -/
def Inherits (m : Metadata) (name : String) (a : Artifact) : Prop :=
  ∃ ancestor c, ReflTransGen m.Extends name ancestor ∧ m.configuration? ancestor = some c ∧
    a ∈ c.artifacts

/-- How far the search for inherited artifacts got. -/
structure Search where
  /-- The names that are still to be looked at, the next one first. -/
  pending : List String
  /-- The names that were looked at. -/
  visited : List String
  /-- The artifacts of the configurations that were looked at. -/
  found : List Artifact

namespace Search

variable {s t : Search}

/-- The search from one configuration, before its first step. -/
def start (name : String) : Search := ⟨[name], [], []⟩

/-- One step of the search. A name that was looked at before is passed over. -/
inductive Step (m : Metadata) : Search → Search → Prop
  | skip {name pending visited found} (h : name ∈ visited) :
    Step m ⟨name :: pending, visited, found⟩ ⟨pending, visited, found⟩
  | miss {name pending visited found} (hv : name ∉ visited) (h : m.configuration? name = none) :
    Step m ⟨name :: pending, visited, found⟩ ⟨pending, name :: visited, found⟩
  | enter {name pending visited found c} (hv : name ∉ visited)
    (h : m.configuration? name = some c) :
    Step m ⟨name :: pending, visited, found⟩ ⟨c.parents.reverse ++ pending, name :: visited,
      Ascending.insertAll found c.artifacts⟩

/-! ## The end of the search -/

/-- How many names the configurations that were not entered yet may still make pending. -/
def extensionsLeft (visited : List String) (configurations : List (String × Configuration)) : Nat :=
  (configurations.flatMap fun entry => if entry.1 ∈ visited then [] else entry.2.parents).length

theorem extensionsLeft_cons_le (name : String) (visited : List String)
    (configurations : List (String × Configuration)) :
    extensionsLeft (name :: visited) configurations ≤ extensionsLeft visited configurations := by
  induction configurations with
  | nil => exact Nat.le_refl 0
  | cons entry rest ih =>
    unfold extensionsLeft at ih ⊢
    simp only [List.flatMap_cons, List.length_append]
    by_cases hvisited : entry.1 ∈ visited
    · have hstill : entry.1 ∈ name :: visited := List.mem_cons_of_mem name hvisited
      rw [if_pos hvisited, if_pos hstill]
      omega
    · rw [if_neg hvisited]
      have hfewer : (if entry.1 ∈ name :: visited then [] else entry.2.parents).length ≤
          entry.2.parents.length := by
        split
        · exact Nat.zero_le _
        · exact Nat.le_refl _
      omega

/-- To enter a configuration uses up its extensions. -/
theorem extensionsLeft_enter {configurations : List (String × Configuration)} {c : Configuration}
    (hmem : (name, c) ∈ configurations) (hv : name ∉ visited) :
    extensionsLeft (name :: visited) configurations + c.parents.length ≤
      extensionsLeft visited configurations := by
  obtain ⟨before, after, rfl⟩ := List.append_of_mem hmem
  have hbefore := extensionsLeft_cons_le name visited before
  have hafter := extensionsLeft_cons_le name visited after
  unfold extensionsLeft at hbefore hafter ⊢
  simp only [List.flatMap_append, List.flatMap_cons, List.length_append, List.mem_cons_self,
    if_true, if_neg hv, List.length_nil]
  omega

/-- A bound on the steps that are left. -/
def stepsLeft (m : Metadata) (s : Search) : Nat :=
  s.pending.length + extensionsLeft s.visited m.configurations

theorem Step.stepsLeft_lt (h : Step m s t) : t.stepsLeft m < s.stepsLeft m := by
  unfold stepsLeft
  cases h with
  | skip hv =>
    simp only [List.length_cons]
    omega
  | miss hv hname =>
    have hleft := extensionsLeft_cons_le ‹String› ‹List String› m.configurations
    simp only [List.length_cons]
    omega
  | enter hv hname =>
    have hleft := extensionsLeft_enter (Ascending.mem_of_find?_eq_some hname) hv
    simp only [List.length_cons, List.length_append, List.length_reverse]
    omega

/-- No search goes on for ever. -/
theorem wellFounded_step (m : Metadata) : WellFounded fun t s => Step m s t :=
  Subrelation.wf Step.stepsLeft_lt (measure (stepsLeft m)).wf

/-- Enough fuel takes the search to its end. -/
theorem exists_end (fuel : Nat) (s : Search) (h : s.stepsLeft m ≤ fuel) :
    ∃ last, ReflTransGen (Step m) s last ∧ last.pending = [] ∧
      last.found = m.inherit fuel s.pending s.visited s.found := by
  obtain ⟨pending, visited, found⟩ := s
  dsimp only
  fun_induction m.inherit fuel pending visited found with
  | case1 pending visited found =>
    have hpending : pending = [] := by
      unfold stepsLeft at h
      exact List.length_eq_zero_iff.1 (by dsimp only at h; omega)
    exact ⟨_, .refl, hpending, rfl⟩
  | case2 => exact ⟨_, .refl, rfl, rfl⟩
  | case3 fuel name pending visited found hv ih =>
    have hstep : Step m ⟨name :: pending, visited, found⟩ ⟨pending, visited, found⟩ := .skip hv
    obtain ⟨last, hlast, hend⟩ := ih (by have := hstep.stepsLeft_lt; omega)
    exact ⟨last, hlast.head hstep, hend⟩
  | case4 fuel name pending visited found hv hname ih =>
    have hstep : Step m ⟨name :: pending, visited, found⟩ ⟨pending, name :: visited, found⟩ :=
      .miss hv hname
    obtain ⟨last, hlast, hend⟩ := ih (by have := hstep.stepsLeft_lt; omega)
    exact ⟨last, hlast.head hstep, hend⟩
  | case5 fuel name pending visited found hv c hname ih =>
    have hstep : Step m ⟨name :: pending, visited, found⟩ ⟨c.parents.reverse ++ pending,
        name :: visited, Ascending.insertAll found c.artifacts⟩ := .enter hv hname
    obtain ⟨last, hlast, hend⟩ := ih (by have := hstep.stepsLeft_lt; omega)
    exact ⟨last, hlast.head hstep, hend⟩

/-! ## What the search finds -/

/-- The state of a search from the named configuration: whatever it looked at or will look at can
be reached, and whatever extends what it looked at is not forgotten. -/
structure Sound (m : Metadata) (name : String) (s : Search) : Prop where
  reached : ∀ x, x ∈ s.visited ∨ x ∈ s.pending → ReflTransGen m.Extends name x
  covered : name ∈ s.visited ∨ name ∈ s.pending
  closed : ∀ x ∈ s.visited, ∀ y, m.Extends x y → y ∈ s.visited ∨ y ∈ s.pending
  found_iff : ∀ a, a ∈ s.found ↔
    ∃ x ∈ s.visited, ∃ c, m.configuration? x = some c ∧ a ∈ c.artifacts
  ascending : Ascending.IsAscending s.found

theorem sound_start (m : Metadata) (name : String) : Sound m name (start name) where
  reached x hx := by
    have hname : x = name := by simpa [start] using hx
    rw [hname]
  covered := Or.inr List.mem_cons_self
  closed := by simp [start]
  found_iff := by simp [start]
  ascending := List.Pairwise.nil

theorem Sound.step (hs : Sound m name s) (h : Step m s t) : Sound m name t := by
  obtain ⟨hreached, hcovered, hclosed, hfound, hascending⟩ := hs
  cases h with
  | @skip next pending visited found hv =>
    -- the name that is passed over was looked at, so it is not lost
    have hkept : ∀ x, x ∈ visited ∨ x ∈ next :: pending → x ∈ visited ∨ x ∈ pending := by
      intro x hx
      rcases hx with hx | hx
      · exact Or.inl hx
      · rcases List.mem_cons.1 hx with rfl | hx
        · exact Or.inl hv
        · exact Or.inr hx
    refine ⟨fun x hx => hreached x (hx.imp_right (List.mem_cons_of_mem next)), hkept _ hcovered,
      fun x hx y hy => hkept y (hclosed x hx y hy), hfound, hascending⟩
  | @miss next pending visited found hv hnext =>
    have hkept : ∀ x, x ∈ visited ∨ x ∈ next :: pending ↔ x ∈ next :: visited ∨ x ∈ pending := by
      intro x
      simp only [List.mem_cons]
      tauto
    refine ⟨fun x hx => hreached x ((hkept x).2 hx), (hkept _).1 hcovered, ?_, ?_, hascending⟩
    · intro x hx y hy
      rcases List.mem_cons.1 hx with rfl | hx
      · obtain ⟨c, hc, _⟩ := hy
        rw [hnext] at hc
        cases hc
      · exact (hkept y).1 (hclosed x hx y hy)
    · intro a
      rw [hfound]
      simp [hnext]
  | @enter next pending visited found c hv hnext =>
    have hnextReached : ReflTransGen m.Extends name next :=
      hreached next (Or.inr List.mem_cons_self)
    have hkept : ∀ x, x ∈ visited ∨ x ∈ next :: pending →
        x ∈ next :: visited ∨ x ∈ c.parents.reverse ++ pending := by
      intro x hx
      simp only [List.mem_cons, List.mem_append] at hx ⊢
      tauto
    refine ⟨?_, hkept _ hcovered, ?_, ?_, Ascending.isAscending_insertAll hascending⟩
    · intro x hx
      simp only [List.mem_cons, List.mem_append, List.mem_reverse] at hx
      rcases hx with (rfl | hx) | hx | hx
      · exact hnextReached
      · exact hreached x (Or.inl hx)
      · exact hnextReached.tail ⟨c, hnext, hx⟩
      · exact hreached x (Or.inr (List.mem_cons_of_mem next hx))
    · intro x hx y hy
      rcases List.mem_cons.1 hx with rfl | hx
      · obtain ⟨c', hc', hparent⟩ := hy
        obtain rfl := Option.some.inj (hnext.symm.trans hc')
        exact Or.inr (List.mem_append_left pending (List.mem_reverse.2 hparent))
      · exact hkept y (hclosed x hx y hy)
    · intro a
      rw [Ascending.mem_insertAll, hfound]
      simp [hnext, or_comm]

theorem Sound.run (hs : Sound m name s) (h : ReflTransGen (Step m) s t) : Sound m name t := by
  induction h with
  | refl => exact hs
  | tail _ hstep ih => exact ih.step hstep

/-- Once nothing is pending, everything that can be reached was looked at. -/
theorem Sound.mem_found_iff (hs : Sound m name s) (hend : s.pending = []) (a : Artifact) :
    a ∈ s.found ↔ m.Inherits name a := by
  have hvisited : ∀ x, ReflTransGen m.Extends name x → x ∈ s.visited := by
    intro x hx
    induction hx with
    | refl => simpa [hend] using hs.covered
    | tail _ hxy ih => simpa [hend] using hs.closed _ ih _ hxy
  rw [hs.found_iff]
  constructor
  · rintro ⟨x, hx, c, hc, ha⟩
    exact ⟨x, c, hs.reached x (Or.inl hx), hc, ha⟩
  · rintro ⟨x, c, hx, hc, ha⟩
    exact ⟨x, hvisited x hx, c, hc, ha⟩

end Search

/-! ## The artifacts of a configuration -/

theorem stepsLeft_start (m : Metadata) (name : String) :
    (Search.start name).stepsLeft m = m.extensionCount + 1 := by
  simp [Search.stepsLeft, Search.start, Search.extensionsLeft, extensionCount, Nat.add_comm]

theorem exists_search (m : Metadata) (name : String) :
    ∃ last, ReflTransGen (Search.Step m) (Search.start name) last ∧ last.pending = [] ∧
      last.found = m.inherit (m.extensionCount + 1) [name] [] [] :=
  Search.exists_end _ _ (stepsLeft_start m name).le

/-- A configuration that is declared has a set of artifacts, and no other one has. -/
theorem artifactsOf?_eq_none_iff : m.artifactsOf? name = none ↔ m.configuration? name = none := by
  simp [artifactsOf?]

theorem exists_artifactsOf? (h : m.configuration? name ≠ none) :
    ∃ artifacts, m.artifactsOf? name = some artifacts :=
  Option.ne_none_iff_exists'.1 (mt artifactsOf?_eq_none_iff.1 h)

theorem ascending_inherited {artifacts : List Artifact} (h : m.artifactsOf? name = some artifacts) :
    Ascending.IsAscending artifacts ∧ ∀ a, a ∈ artifacts ↔ m.Inherits name a := by
  obtain ⟨last, hrun, hend, hlast⟩ := exists_search m name
  have hsound := (Search.sound_start m name).run hrun
  obtain ⟨c, _, rfl⟩ := Option.map_eq_some_iff.1 h
  rw [← hlast]
  exact ⟨hsound.ascending, hsound.mem_found_iff hend⟩

/-- Two modules declare the same configurations with the same artifacts, and each extends the same
ones: in whatever order it lists them, and however often. -/
def SameExtensions (m m' : Metadata) : Prop :=
  ∀ name, (m.configuration? name).map (·.artifacts) = (m'.configuration? name).map (·.artifacts) ∧
    ∀ parent, m.Extends name parent ↔ m'.Extends name parent

theorem SameExtensions.inherits_iff {m' : Metadata} (h : m.SameExtensions m') (name : String)
    (a : Artifact) : m.Inherits name a ↔ m'.Inherits name a := by
  have hextends : m.Extends = m'.Extends := by
    funext child parent
    exact propext ((h child).2 parent)
  have hdeclared : ∀ x, (∃ c, m.configuration? x = some c ∧ a ∈ c.artifacts) ↔
      ∃ c, m'.configuration? x = some c ∧ a ∈ c.artifacts := by
    intro x
    have hx := (h x).1
    cases hc : m.configuration? x with
    | none =>
      rw [hc, Option.map_none, eq_comm, Option.map_eq_none_iff] at hx
      simp [hx]
    | some c =>
      rw [hc, Option.map_some, eq_comm, Option.map_eq_some_iff] at hx
      obtain ⟨c', hc', hartifacts⟩ := hx
      simp [hc', hartifacts]
  unfold Inherits
  rw [hextends]
  refine exists_congr fun x => ?_
  constructor
  · rintro ⟨c, hreach, hc⟩
    obtain ⟨c', hc'⟩ := (hdeclared x).1 ⟨c, hc⟩
    exact ⟨c', hreach, hc'⟩
  · rintro ⟨c', hreach, hc'⟩
    obtain ⟨c, hc⟩ := (hdeclared x).2 ⟨c', hc'⟩
    exact ⟨c, hreach, hc⟩

/-- The search for the artifacts of a configuration has no infinite run, and it runs until nothing is
pending. There is no answer exactly if the configuration is not declared; the answer is the set of
the artifacts of all declared configurations that can be reached, and the order and the number of
times in which extensions are listed make no difference to it. -/
theorem inherited_closure (m : Metadata) (name : String) :
    WellFounded (fun t s => Search.Step m s t) ∧
    (∃ last, ReflTransGen (Search.Step m) (Search.start name) last ∧ last.pending = [] ∧
      m.artifactsOf? name = (m.configuration? name).map fun _ => last.found) ∧
    (m.artifactsOf? name = none ↔ m.configuration? name = none) ∧
    (∀ artifacts, m.artifactsOf? name = some artifacts →
      Ascending.IsAscending artifacts ∧ ∀ a, a ∈ artifacts ↔ m.Inherits name a) ∧
    ∀ m' : Metadata, m.SameExtensions m' → m'.artifactsOf? name = m.artifactsOf? name := by
  refine ⟨Search.wellFounded_step m, ?_, artifactsOf?_eq_none_iff,
    fun artifacts => ascending_inherited, ?_⟩
  · obtain ⟨last, hrun, hend, hlast⟩ := exists_search m name
    refine ⟨last, hrun, hend, ?_⟩
    rw [hlast]
    rfl
  · intro m' hsame
    cases hm : m.artifactsOf? name with
    | none =>
      have hnone := (hsame name).1
      rw [artifactsOf?_eq_none_iff.1 hm, Option.map_none, eq_comm, Option.map_eq_none_iff] at hnone
      exact artifactsOf?_eq_none_iff.2 hnone
    | some artifacts =>
      have hdeclared : m'.configuration? name ≠ none := by
        intro hnone
        have hname := (hsame name).1
        rw [hnone, Option.map_none, Option.map_eq_none_iff, ← artifactsOf?_eq_none_iff, hm] at hname
        cases hname
      obtain ⟨artifacts', hm'⟩ := exists_artifactsOf? hdeclared
      obtain ⟨hascending, hmem⟩ := ascending_inherited hm
      obtain ⟨hascending', hmem'⟩ := ascending_inherited hm'
      rw [hm', hascending'.eq_of_mem_iff hascending fun a => ?_]
      rw [hmem', hmem, hsame.inherits_iff]

/-- Two configurations that extend each other, `runtime` by way of the given list, and one that
extends one of them. -/
def circle (listed : List String) : Metadata where
  coordinate := ⟨"g", "lib", "1.0"⟩
  configurations := [
    ("api", { name := "api", parents := ["runtime"],
              artifacts := [⟨⟨"g", "lib", "1.0"⟩, "lib-api", "jar", "jar", none⟩] }),
    ("runtime", { name := "runtime", parents := listed,
                  artifacts := [⟨⟨"g", "lib", "1.0"⟩, "lib", "jar", "jar", none⟩] }),
    ("test", { name := "test", parents := ["api"],
               artifacts := [⟨⟨"g", "lib", "1.0"⟩, "lib", "jar", "jar", some "tests"⟩] })]

theorem sameExtensions_circle {listed others : List String} (h : ∀ x, x ∈ listed ↔ x ∈ others) :
    (circle listed).SameExtensions (circle others) := by
  intro name
  simp only [Extends, configuration?, circle, Ascending.find?_cons]
  split_ifs
  · simp
  · simp [h]
  · simp
  · simp

/-- A configuration that extends another one twice, itself, and one that is not declared: it inherits
what it can reach, and listed otherwise it inherits the same. -/
theorem circle_inherited :
    (∀ a, (circle ["api", "tools", "api", "runtime"]).Inherits "runtime" a ↔
      a ∈ [⟨⟨"g", "lib", "1.0"⟩, "lib", "jar", "jar", none⟩,
        ⟨⟨"g", "lib", "1.0"⟩, "lib-api", "jar", "jar", none⟩]) ∧
    (circle ["api", "tools", "api", "runtime"]).artifactsOf? "tools" = none ∧
    (circle ["tools", "runtime", "api"]).artifactsOf? "runtime" =
      (circle ["api", "tools", "api", "runtime"]).artifactsOf? "runtime" := by
  obtain ⟨_, _, _, hclosure, hsame⟩ :=
    inherited_closure (circle ["api", "tools", "api", "runtime"]) "runtime"
  obtain ⟨_, _, hundeclared, _⟩ :=
    inherited_closure (circle ["api", "tools", "api", "runtime"]) "tools"
  have hset : (circle ["api", "tools", "api", "runtime"]).artifactsOf? "runtime" =
      some [⟨⟨"g", "lib", "1.0"⟩, "lib", "jar", "jar", none⟩,
        ⟨⟨"g", "lib", "1.0"⟩, "lib-api", "jar", "jar", none⟩] := by decide +kernel
  have hlisted : ∀ x, x ∈ ["api", "tools", "api", "runtime"] ↔ x ∈ ["tools", "runtime", "api"] := by
    intro x
    simp only [List.mem_cons, List.not_mem_nil]
    tauto
  exact ⟨fun a => ((hclosure _ hset).2 a).symm, hundeclared.2 (by decide +kernel),
    hsame _ (sameExtensions_circle hlisted)⟩

end ArtifactResolver.Metadata
