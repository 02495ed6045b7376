import ArtifactResolver.Proofs.Files.Tree

/-!
# Paths that stay below a directory

Whether a path leads out of a directory can be told on paper, from the names that it adds to the
path of the directory. The tree has no links, so a path that is found leads where its names lead on
paper, and what is found by a path that stays below a directory stands below it.
-/

namespace ArtifactResolver.Files

namespace Path

/-- Whether names never lead above the place that they start from, if they are followed from the
given number of levels below it. -/
def staysBelow : Nat → List String → Bool
  | _, [] => true
  | depth, name :: names =>
    if name = "." then staysBelow depth names
    else if name = ".." then depth != 0 && staysBelow (depth - 1) names
    else staysBelow (depth + 1) names

/-- The path goes on from that of the directory, and never leads above it. -/
structure Within (directory path : String) : Prop where
  isAbsolute_eq : isAbsolute path = isAbsolute directory
  goes_on : ∃ names, components path = components directory ++ names ∧ staysBelow 0 names = true

/-- Only `..` can lead above the start. -/
theorem staysBelow_of_not_mem {names : List String} (h : ".." ∉ names) (depth : Nat) :
    staysBelow depth names = true := by
  induction names generalizing depth with
  | nil => rfl
  | cons name names ih =>
    rw [List.mem_cons, not_or] at h
    rw [staysBelow, if_neg (Ne.symm h.1), ih h.2, ih h.2, ite_self]

theorem LeadsBelow.within {directory path : String} (h : LeadsBelow directory path) :
    Within directory path := by
  obtain ⟨names, -, hnames, hcomponents⟩ := h.goes_on
  exact ⟨h.isAbsolute_eq, names, hcomponents,
    staysBelow_of_not_mem (fun hmem => (hnames ".." hmem).ne_above rfl) 0⟩

/-- Where a name leads from a place on paper. -/
def lead (place : List String) (name : String) : List String :=
  if name = "." then place
  else if name = ".." then place.dropLast
  else place ++ [name]

/-- Names that stay below a place lead to a place below it. -/
theorem foldl_lead_of_staysBelow {names : List String} (place : List String) {rel : List String}
    (h : staysBelow rel.length names = true) :
    ∃ rel', names.foldl lead (place ++ rel) = place ++ rel' := by
  induction names generalizing rel with
  | nil => exact ⟨rel, rfl⟩
  | cons name names ih =>
    rw [staysBelow] at h
    rw [List.foldl_cons, lead]
    by_cases hhere : name = "."
    · rw [if_pos hhere] at h ⊢
      exact ih h
    rw [if_neg hhere] at h ⊢
    by_cases habove : name = ".."
    · rw [if_pos habove] at h ⊢
      rcases List.eq_nil_or_concat rel with rfl | ⟨before, last, rfl⟩
      · cases h
      · rw [List.concat_eq_append] at h ⊢
        rw [← List.append_assoc, List.dropLast_concat]
        rw [List.length_append, List.length_singleton, Nat.add_sub_cancel, Bool.and_eq_true] at h
        exact ih h.2
    · rw [if_neg habove] at h ⊢
      rw [List.append_assoc]
      refine ih ?_
      rw [List.length_append, List.length_singleton]
      exact h

end Path

namespace Tree

/-- The place of a target. -/
def Target.place : Target → Place
  | directory place => place
  | named parent name => parent ++ [name]

variable {t : Tree} {place reached : Place} {path name : String} {names : List String}

theorem arrive_eq_lead {target : Target} (h : t.arrive name place = .ok target) :
    target.place = Path.lead place name := by
  rw [arrive] at h
  rw [Path.lead]
  by_cases hhere : name = "."
  · rw [if_pos hhere] at h ⊢
    rw [← Except.ok.inj h, Target.place]
  rw [if_neg hhere] at h ⊢
  by_cases habove : name = ".."
  · rw [if_pos habove] at h ⊢
    rw [← Except.ok.inj h, Target.place]
  · rw [if_neg habove] at h ⊢
    split at h
    · cases h
    · rw [← Except.ok.inj h, Target.place]

theorem enter_eq_lead (h : t.enter place name = .ok reached) : reached = Path.lead place name := by
  rcases enter_eq_ok_iff.1 h with harrive | ⟨harrive, rfl, -⟩
  · exact arrive_eq_lead harrive
  · exact arrive_eq_lead harrive

theorem walk_eq_lead (h : t.walk place names = .ok reached) :
    reached = names.foldl Path.lead place := by
  induction names generalizing place with
  | nil => exact (Except.ok.inj h).symm
  | cons name names ih =>
    rw [walk_cons] at h
    obtain ⟨next, henter, hrest⟩ := exists_of_bind h
    rw [List.foldl_cons, ← enter_eq_lead henter]
    exact ih hrest

/-- A path that can be followed leads where its names lead on paper. -/
theorem follow_eq_lead {target : Target} (h : t.follow path = .ok target) :
    target.place = (Path.components path).foldl Path.lead (t.start path) := by
  have haccepts := accepts_of_follow h
  rcases List.eq_nil_or_concat (Path.components path) with hnil | ⟨names, name, hconcat⟩
  · rw [follow_of_no_names haccepts hnil] at h
    rw [← Except.ok.inj h, hnil]
    rfl
  · rw [List.concat_eq_append] at hconcat
    rw [follow_of_names haccepts hconcat] at h
    obtain ⟨parent, hwalk, harrive⟩ := exists_of_bind h
    rw [hconcat, List.foldl_append, ← walk_eq_lead hwalk]
    exact arrive_eq_lead harrive

theorem find_eq_lead {e : Entry} (h : t.find path = .ok (place, e)) :
    place = (Path.components path).foldl Path.lead (t.start path) := by
  obtain ⟨target, hfollow, hfound⟩ := exists_of_bind h
  rw [← follow_eq_lead hfollow]
  cases target with
  | directory reached => exact (congrArg Prod.fst (Except.ok.inj hfound)).symm
  | named parent name =>
    rw [find_of_named hfollow] at h
    split at h
    · cases h
    · exact (congrArg Prod.fst (Except.ok.inj h)).symm
    · split at h
      · cases h
      · exact (congrArg Prod.fst (Except.ok.inj h)).symm

/-- What is found by a path that stays below a directory stands at or below its place. -/
theorem prefix_of_within {directory : String} {top : Place} {e e' : Entry}
    (h : Path.Within directory path) (hdirectory : t.find directory = .ok (top, e))
    (hfind : t.find path = .ok (place, e')) : top <+: place := by
  obtain ⟨names, hcomponents, hbelow⟩ := h.goes_on
  have hstart : Path.staysBelow ([] : List String).length names = true := hbelow
  obtain ⟨rel, hrel⟩ := Path.foldl_lead_of_staysBelow top hstart
  refine ⟨rel, ?_⟩
  rw [find_eq_lead hfind, hcomponents, List.foldl_append, start, h.isAbsolute_eq, ← hrel,
    List.append_nil, find_eq_lead hdirectory]
  rfl

end Tree
end ArtifactResolver.Files
