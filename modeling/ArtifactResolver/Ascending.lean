/-!
# Ascending lists

A finite set is written as the list of its members in strictly ascending order, and a finite map as
the list of its entries in strictly ascending order of their keys. The order is the one that the
answers show, so that listing a set needs no further sorting, and two equal sets are equal lists.
-/

namespace ArtifactResolver.Ascending

variable {α : Type} [Ord α]

/-- The members of a set in strictly ascending order. -/
def IsAscending (set : List α) : Prop := set.Pairwise fun a b => compare a b = .lt

/-- Adds a member; a member that is there already is kept. -/
def insert (a : α) : List α → List α
  | [] => [a]
  | b :: rest =>
    match compare a b with
    | .lt => a :: b :: rest
    | .eq => b :: rest
    | .gt => b :: insert a rest

/-- Adds every member of a list. -/
def insertAll (set : List α) (members : List α) : List α :=
  members.foldl (fun set a => insert a set) set

/-- The set of the members of a list. -/
def ofList (members : List α) : List α := insertAll [] members

/-- The greatest member of a list, none for the empty list. -/
def max? : List α → Option α
  | [] => none
  | a :: rest =>
    match max? rest with
    | none => some a
    | some b => if compare a b = .gt then some a else some b

variable {β : Type}

/-- Binds a key to a value; an earlier binding of the key is replaced. -/
def put (key : α) (value : β) : List (α × β) → List (α × β)
  | [] => [(key, value)]
  | entry :: rest =>
    match compare key entry.1 with
    | .lt => (key, value) :: entry :: rest
    | .eq => (key, value) :: rest
    | .gt => entry :: put key value rest

/-- The map of a list of entries; of two entries with one key the later one counts. -/
def ofEntries (entries : List (α × β)) : List (α × β) :=
  entries.foldl (fun map entry => put entry.1 entry.2 map) []

/-- The value that a key is bound to. -/
def find? (key : α) (map : List (α × β)) : Option β :=
  (map.find? fun entry => compare key entry.1 == .eq).map (·.2)

/-! ## Values -/

/-- Changing the values of a map before or after a binding makes no difference. -/
theorem map_put {γ : Type} (f : β → γ) (key : α) (value : β) (map : List (α × β)) :
    (put key value map).map (fun entry => (entry.1, f entry.2)) =
      put key (f value) (map.map fun entry => (entry.1, f entry.2)) := by
  induction map with
  | nil => rfl
  | cons entry rest ih =>
    rw [put, List.map_cons, put]
    cases compare key entry.1 with
    | lt => rfl
    | eq => rfl
    | gt => exact congrArg _ ih

/-- The values of a map can be changed before it is built. -/
theorem map_ofEntries {γ : Type} (f : β → γ) (entries : List (α × β)) :
    (ofEntries entries).map (fun entry => (entry.1, f entry.2)) =
      ofEntries (entries.map fun entry => (entry.1, f entry.2)) := by
  have hfold : ∀ map : List (α × β),
      (entries.foldl (fun map entry => put entry.1 entry.2 map) map).map
          (fun entry => (entry.1, f entry.2)) =
        (entries.map fun entry => (entry.1, f entry.2)).foldl
          (fun map entry => put entry.1 entry.2 map)
          (map.map fun entry => (entry.1, f entry.2)) := by
    induction entries with
    | nil =>
      intro map
      rfl
    | cons entry rest ih =>
      intro map
      rw [List.foldl_cons, List.map_cons, List.foldl_cons, ih, map_put]
  exact hfold []

/-! ## Entries -/

/-- What a map holds after a binding is the binding, or was in it before. -/
theorem mem_of_mem_put {key : α} {value : β} {entry : α × β} {map : List (α × β)}
    (h : entry ∈ put key value map) : entry = (key, value) ∨ entry ∈ map := by
  induction map with
  | nil => exact Or.inl (List.mem_singleton.1 h)
  | cons first rest ih =>
    rw [put] at h
    split at h
    · exact List.mem_cons.1 h
    · rcases List.mem_cons.1 h with h | h
      · exact Or.inl h
      · exact Or.inr (List.mem_cons_of_mem first h)
    · rcases List.mem_cons.1 h with rfl | h
      · exact Or.inr List.mem_cons_self
      · exact (ih h).imp_right (List.mem_cons_of_mem first)

/-- What the map of a list holds is in the list. -/
theorem mem_of_mem_ofEntries {entry : α × β} {entries : List (α × β)}
    (h : entry ∈ ofEntries entries) : entry ∈ entries := by
  have hfold : ∀ (entries map : List (α × β)),
      entry ∈ entries.foldl (fun map entry => put entry.1 entry.2 map) map →
        entry ∈ map ∨ entry ∈ entries := by
    intro entries
    induction entries with
    | nil => exact fun map h => Or.inl h
    | cons first rest ih =>
      intro map h
      rcases ih (put first.1 first.2 map) h with h | h
      · rcases mem_of_mem_put h with rfl | h
        · exact Or.inr List.mem_cons_self
        · exact Or.inl h
      · exact Or.inr (List.mem_cons_of_mem first h)
  simpa using hfold entries [] h

/-! ## The greatest member -/

/-- There is a greatest member unless there is none at all. -/
theorem max?_eq_none_iff {members : List α} : max? members = none ↔ members = [] := by
  cases members with
  | nil => simp [max?]
  | cons a rest =>
    rw [max?]
    cases max? rest with
    | none => simp
    | some b =>
      dsimp only
      split <;> simp

/-- The greatest member is a member. -/
theorem mem_of_max? {members : List α} {m : α} (h : max? members = some m) : m ∈ members := by
  induction members generalizing m with
  | nil => cases h
  | cons a rest ih =>
    rw [max?] at h
    cases hrest : max? rest with
    | none =>
      rw [hrest] at h
      exact Option.some.inj h ▸ List.mem_cons_self
    | some b =>
      simp only [hrest] at h
      split at h
      · exact Option.some.inj h ▸ List.mem_cons_self
      · exact Option.some.inj h ▸ List.mem_cons_of_mem a (ih hrest)

/-- No member is greater than the greatest one. -/
theorem isLE_of_max? [Std.TransOrd α] {members : List α} {m : α} (h : max? members = some m) :
    ∀ a ∈ members, (compare a m).isLE := by
  induction members generalizing m with
  | nil => cases h
  | cons a rest ih =>
    rw [max?] at h
    cases hrest : max? rest with
    | none =>
      obtain rfl := max?_eq_none_iff.1 hrest
      rw [hrest] at h
      obtain rfl := Option.some.inj h
      intro c hc
      rw [List.mem_singleton.1 hc]
      exact Std.ReflCmp.isLE_rfl
    | some b =>
      simp only [hrest] at h
      split at h
      · next hgt =>
        obtain rfl := Option.some.inj h
        have hba : (compare b a).isLE := Ordering.isLE_of_eq_lt (Std.OrientedCmp.lt_of_gt hgt)
        intro c hc
        rcases List.mem_cons.1 hc with rfl | hc
        · exact Std.ReflCmp.isLE_rfl
        · exact Std.TransCmp.isLE_trans (ih hrest c hc) hba
      · next hle =>
        obtain rfl := Option.some.inj h
        intro c hc
        rcases List.mem_cons.1 hc with rfl | hc
        · exact Ordering.isLE_iff_ne_gt.2 hle
        · exact ih hrest c hc

/-! ## Membership -/

variable [Std.LawfulEqOrd α]

/-- Inserting adds one member and loses none. -/
@[simp] theorem mem_insert {a x : α} {set : List α} : x ∈ insert a set ↔ x = a ∨ x ∈ set := by
  induction set with
  | nil => simp [insert]
  | cons b rest ih =>
    unfold insert
    split
    · simp
    · next h => simp [Std.LawfulEqOrd.eq_of_compare h]
    · simp [ih, or_left_comm]

/-- Inserting a list adds its members and loses none. -/
@[simp] theorem mem_insertAll {x : α} {members set : List α} :
    x ∈ insertAll set members ↔ x ∈ set ∨ x ∈ members := by
  induction members generalizing set with
  | nil => simp [insertAll]
  | cons a rest ih =>
    rw [show insertAll set (a :: rest) = insertAll (insert a set) rest from rfl, ih]
    simp [or_assoc, or_comm, or_left_comm]

/-- The set of a list has the members of the list. -/
@[simp] theorem mem_ofList {x : α} {members : List α} : x ∈ ofList members ↔ x ∈ members := by
  simp [ofList]

/-! ## Order -/

/-- Inserting keeps the order. -/
theorem isAscending_insert [Std.TransOrd α] {a : α} {set : List α} (h : IsAscending set) :
    IsAscending (insert a set) := by
  induction set with
  | nil => simp [insert, IsAscending]
  | cons b rest ih =>
    have hb : ∀ c ∈ rest, compare b c = .lt := (List.pairwise_cons.1 h).1
    have hr : IsAscending rest := (List.pairwise_cons.1 h).2
    unfold insert
    split
    · next hab =>
      refine List.pairwise_cons.2 ⟨fun c hc => ?_, h⟩
      rcases List.mem_cons.1 hc with rfl | hc
      · exact hab
      · exact Std.TransCmp.lt_trans hab (hb c hc)
    · exact h
    · next hab =>
      refine List.pairwise_cons.2 ⟨fun c hc => ?_, ih hr⟩
      rcases mem_insert.1 hc with rfl | hc
      · exact Std.OrientedCmp.lt_of_gt hab
      · exact hb c hc

/-- Inserting a list keeps the order. -/
theorem isAscending_insertAll [Std.TransOrd α] {members set : List α} (h : IsAscending set) :
    IsAscending (insertAll set members) := by
  induction members generalizing set with
  | nil => exact h
  | cons a rest ih => exact ih (isAscending_insert h)

/-- The set of a list is in strictly ascending order. -/
theorem isAscending_ofList [Std.TransOrd α] (members : List α) : IsAscending (ofList members) :=
  isAscending_insertAll List.Pairwise.nil

end ArtifactResolver.Ascending
