import ArtifactResolver.Ascending
import Mathlib.Data.List.Induction
import Mathlib.Data.List.Sort

/-!
# Ascending lists as sets and maps

An ascending list is determined by its members. A map that is built from a list of entries is
determined by the last entry of every key, and its keys ascend.
-/

namespace ArtifactResolver.Ascending

open Std (TransOrd LawfulEqOrd OrientedOrd ReflOrd TransCmp OrientedCmp)

variable {α β : Type} [Ord α]

/-! ## Sets -/

section Sets

variable [TransOrd α]

instance irrefl_compare : Std.Irrefl fun a b : α => compare a b = .lt where
  irrefl a h := by
    rw [ReflOrd.compare_self] at h
    cases h

instance antisymm_compare : Std.Antisymm fun a b : α => compare a b = .lt where
  antisymm a b hab hba := by
    rw [OrientedOrd.eq_swap, hba] at hab
    cases hab

theorem IsAscending.eq_of_mem_iff {as bs : List α} (has : IsAscending as) (hbs : IsAscending bs)
    (h : ∀ a, a ∈ as ↔ a ∈ bs) : as = bs :=
  List.Pairwise.eq_of_mem_iff has hbs h

/-- Lists with the same members have the same set. -/
theorem ofList_eq_of_mem_iff [LawfulEqOrd α] {as bs : List α} (h : ∀ a, a ∈ as ↔ a ∈ bs) :
    ofList as = ofList bs :=
  (isAscending_ofList as).eq_of_mem_iff (isAscending_ofList bs) fun a => by
    rw [mem_ofList, mem_ofList, h]

/-- The set of the members of a set is that set. -/
theorem ofList_of_isAscending [LawfulEqOrd α] {as : List α} (h : IsAscending as) :
    ofList as = as :=
  (isAscending_ofList as).eq_of_mem_iff h fun _ => mem_ofList

end Sets

/-! ## Maps -/

theorem find?_cons (key : α) (entry : α × β) (map : List (α × β)) :
    find? key (entry :: map) =
      if compare key entry.1 = .eq then some entry.2 else find? key map := by
  unfold find?
  by_cases h : compare key entry.1 = .eq
  · simp [h]
  · simp [h]

variable [LawfulEqOrd α] {key : α} {value : β} {map : List (α × β)}

theorem mem_of_find?_eq_some (h : find? key map = some value) : (key, value) ∈ map := by
  induction map with
  | nil => cases h
  | cons entry rest ih =>
    rw [find?_cons] at h
    by_cases hkey : compare key entry.1 = .eq
    · rw [if_pos hkey] at h
      obtain rfl := LawfulEqOrd.eq_of_compare hkey
      obtain rfl := Option.some.inj h
      exact List.mem_cons_self
    · rw [if_neg hkey] at h
      exact List.mem_cons_of_mem entry (ih h)

/-- A binding is found under its own key and hides nothing else. -/
theorem find?_put (k key : α) (value : β) (map : List (α × β)) :
    find? k (put key value map) = if compare k key = .eq then some value else find? k map := by
  induction map with
  | nil => exact find?_cons k (key, value) []
  | cons entry rest ih =>
    unfold put
    cases hkey : compare key entry.1 with
    | lt => exact find?_cons k (key, value) (entry :: rest)
    | eq =>
      have hentry : key = entry.1 := LawfulEqOrd.eq_of_compare hkey
      simp only [find?_cons, hentry]
      by_cases hk : compare k entry.1 = .eq
      · rw [if_pos hk, if_pos hk]
      · rw [if_neg hk, if_neg hk, if_neg hk]
    | gt =>
      simp only [find?_cons, ih]
      by_cases hk : compare k key = .eq
      · obtain rfl := LawfulEqOrd.eq_of_compare hk
        simp [hkey]
      · simp only [if_neg hk]

/-- Of several entries with one key the last one counts. -/
theorem find?_ofEntries [DecidableEq α] (key : α) (entries : List (α × β)) :
    find? key (ofEntries entries) = entries.reverse.lookup key := by
  induction entries using List.reverseRecOn with
  | nil => rfl
  | append_singleton entries entry ih =>
    have hput : ofEntries (entries ++ [entry]) = put entry.1 entry.2 (ofEntries entries) := by
      unfold ofEntries
      rw [List.foldl_append]
      rfl
    rw [hput, find?_put, ih, List.reverse_append, List.reverse_singleton, List.singleton_append,
      List.lookup_cons]
    by_cases hkey : key = entry.1
    · simp [hkey]
    · simp [hkey, beq_false_of_ne hkey]

section Keys

variable [TransOrd α]

theorem isAscending_keys_put (h : IsAscending (map.map (·.1))) :
    IsAscending ((put key value map).map (·.1)) := by
  induction map with
  | nil => exact List.pairwise_singleton _ _
  | cons entry rest ih =>
    obtain ⟨hfirst, hrest⟩ := List.pairwise_cons.1 h
    unfold put
    cases hkey : compare key entry.1 with
    | lt =>
      refine List.pairwise_cons.2 ⟨fun k hk => ?_, h⟩
      rcases List.mem_cons.1 hk with rfl | hk
      · exact hkey
      · exact TransCmp.lt_trans hkey (hfirst k hk)
    | eq =>
      have hentry : key = entry.1 := LawfulEqOrd.eq_of_compare hkey
      subst hentry
      exact h
    | gt =>
      refine List.pairwise_cons.2 ⟨fun k hk => ?_, ih hrest⟩
      obtain ⟨bound, hbound, rfl⟩ := List.mem_map.1 hk
      rcases mem_of_mem_put hbound with rfl | hbound
      · exact OrientedCmp.lt_of_gt hkey
      · exact hfirst _ (List.mem_map_of_mem hbound)

theorem isAscending_keys_ofEntries (entries : List (α × β)) :
    IsAscending ((ofEntries entries).map (·.1)) := by
  unfold ofEntries
  have hfold : ∀ map : List (α × β), IsAscending (map.map (·.1)) →
      IsAscending ((entries.foldl (fun map entry => put entry.1 entry.2 map) map).map (·.1)) := by
    induction entries with
    | nil => exact fun _ h => h
    | cons entry rest ih => exact fun map h => ih _ (isAscending_keys_put h)
  exact hfold [] List.Pairwise.nil

/-- A map whose keys ascend has one entry for a key at the most. -/
theorem find?_eq_some_iff (h : IsAscending (map.map (·.1))) :
    find? key map = some value ↔ (key, value) ∈ map := by
  refine ⟨mem_of_find?_eq_some, fun hmem => ?_⟩
  induction map with
  | nil => cases hmem
  | cons entry rest ih =>
    obtain ⟨hfirst, hrest⟩ := List.pairwise_cons.1 h
    rw [find?_cons]
    rcases List.mem_cons.1 hmem with rfl | hmem
    · rw [if_pos ReflOrd.compare_self]
    · have hlt : compare entry.1 key = .lt := hfirst key (List.mem_map_of_mem hmem)
      rw [if_neg, ih hrest hmem]
      rw [OrientedOrd.eq_swap, hlt]
      decide

end Keys

end ArtifactResolver.Ascending
