import ArtifactResolver.Proofs.Text.Decimal
import ArtifactResolver.Proofs.Text.Order
import ArtifactResolver.Proofs.Version.Runs

/-!
# The order of versions

A version is compared as the sequence of its parts followed by its end, and at every position words
stand before the end and the end before numbers. Seen in this way the comparison of parts is a
lexicographic one of what stands at the positions, where words are ordered by their bytes and
numbers by their values; so it is transitive, and with the comparison of the texts that decides a
tie it is a total order.
-/

namespace ArtifactResolver.Version

open Std (TransCmp TransOrd OrientedOrd LawfulEqOrd)

/-! ## What stands at a position -/

/-- What stands at a position of a version, as far as the order is concerned. -/
inductive Place where
  /-- A word, by its bytes. -/
  | word (bytes : Bytes)
  /-- The end of the version. -/
  | finish
  /-- A number, by its value. -/
  | number (value : Nat)
deriving DecidableEq, Repr

namespace Place

/-- Words stand before the end of a version, and the end before numbers. -/
def rank : Place → Nat
  | word _ => 0
  | finish => 1
  | number _ => 2

/-- The bytes of a word. -/
def bytes : Place → Bytes
  | word bytes => bytes
  | _ => []

/-- The value of a number. -/
def value : Place → Nat
  | number value => value
  | _ => 0

/-- Places compare by rank, words by their bytes, and numbers by their values. -/
instance : Ord Place where
  compare := compareLex (compareOn rank) (compareLex (compareOn bytes) (compareOn value))

instance : TransOrd Place :=
  inferInstanceAs (TransCmp
    (compareLex (compareOn rank) (compareLex (compareOn bytes) (compareOn value))))

/-- The place of a part, or that of the end where there is none. -/
def ofPart? : Option Part → Place
  | some (.word letters) => word (letters.flatMap String.utf8EncodeChar)
  | some (.number digits) => number (Text.decimalValue digits)
  | none => finish

end Place

theorem Part.IsRun.isDigit {digits : List Char} (h : (Part.number digits).IsRun) :
    ∀ c ∈ digits, Text.isDigit c = true :=
  fun c hc => (h.takes c hc).2

open Place (ofPart?)

/-- Parts are ordered like their places. -/
theorem compare_ofPart? {a b : Part} (ha : a.IsRun) (hb : b.IsRun) :
    compare (ofPart? (some a)) (ofPart? (some b)) = compare a b := by
  cases a with
  | number a =>
    cases b with
    | number b => exact (Text.compareDigits_eq ha.isDigit hb.isDigit).symm
    | word b => rfl
  | word a =>
    cases b with
    | number b => rfl
    | word b =>
      -- words have no value, so that only their bytes count
      show (compare _ _).then .eq = compare a b
      rw [Ordering.then_eq]
      exact Text.compare_flatMap_utf8EncodeChar a b

/-! ## Sequences of parts -/

/-- What stands at the positions of a version, its end included. -/
def places (parts : List Part) : List Place :=
  (parts.map fun part => ofPart? (some part)) ++ [.finish]

/-- Parts are compared like sequences that know where they end. -/
theorem compareParts_eq {as bs : List Part} (has : ∀ part ∈ as, part.IsRun)
    (hbs : ∀ part ∈ bs, part.IsRun) : compareParts as bs = compare (places as) (places bs) := by
  induction as generalizing bs with
  | nil =>
    cases bs with
    | nil => rfl
    | cons b bs => cases b <;> rfl
  | cons a as ih =>
    cases bs with
    | nil => cases a <;> rfl
    | cons b bs =>
      rw [List.forall_mem_cons] at has hbs
      rw [compareParts, ih has.2 hbs.2, ← compare_ofPart? has.1 hbs.1]
      exact List.compare_cons_cons.symm

/-- Compares two sequences of parts position by position, up to the end of the longer one: the first
position at which different things stand decides. -/
def compareByPosition (as bs : List Part) : Ordering :=
  (List.range (max as.length bs.length)).foldr
    (fun i rest => (compare (ofPart? as[i]?) (ofPart? bs[i]?)).then rest) .eq

theorem compareByPosition_cons_cons (a b : Part) (as bs : List Part) :
    compareByPosition (a :: as) (b :: bs) =
      (compare (ofPart? (some a)) (ofPart? (some b))).then (compareByPosition as bs) := by
  rw [compareByPosition, List.length_cons, List.length_cons, Nat.add_max_add_right,
    List.range_succ_eq_map, List.foldr_cons, List.foldr_map]
  simp [compareByPosition]

theorem compareByPosition_eq (as bs : List Part) :
    compareByPosition as bs = compare (places as) (places bs) := by
  induction as generalizing bs with
  | nil =>
    cases bs with
    | nil => rfl
    | cons b bs =>
      rw [compareByPosition, List.length_nil, Nat.zero_max, List.length_cons,
        List.range_succ_eq_map, List.foldr_cons]
      cases b <;> rfl
  | cons a as ih =>
    cases bs with
    | nil =>
      rw [compareByPosition, List.length_nil, Nat.max_zero, List.length_cons,
        List.range_succ_eq_map, List.foldr_cons]
      cases a <;> rfl
    | cons b bs =>
      rw [compareByPosition_cons_cons, ih]
      exact List.compare_cons_cons.symm

/-! ## Versions -/

theorem isRun_of_mem_parts (v : Version) : ∀ part ∈ v.parts, part.IsRun :=
  (runs_partsOf v.text.toList).isRun

/-- Versions compare by what stands at their positions, and then by their texts. -/
theorem compare_eq (v w : Version) : compare v w =
    compareLex (compareOn fun v : Version => places v.parts) (compareOn Version.text) v w := by
  show (compareParts v.parts w.parts).then (compare v.text w.text) = _
  rw [compareParts_eq v.isRun_of_mem_parts w.isRun_of_mem_parts]
  rfl

instance : TransOrd Version := by
  have heq : (compare : Version → Version → Ordering) =
      compareLex (compareOn fun v => places v.parts) (compareOn Version.text) :=
    funext fun v => funext (compare_eq v)
  rw [TransOrd, heq]
  infer_instance

instance : LawfulEqOrd Version where
  compare_self := Std.ReflCmp.compare_self
  eq_of_compare {v w} h := by
    have htext : compare v.text w.text = .eq := (Ordering.then_eq_eq.1 h).2
    cases v
    cases w
    exact congrArg Version.mk (LawfulEqOrd.eq_of_compare htext)

/-- The comparison of versions is a total order in which only versions of one text are equal. -/
theorem totally_ordered (a b c : Version) :
    compare a b = (compare b a).swap ∧ (compare a b = .eq ↔ a.text = b.text) ∧
      ((compare a b).isLE → (compare b c).isLE → (compare a c).isLE ∧
        (compare a b = .lt ∨ compare b c = .lt → compare a c = .lt)) := by
  refine ⟨OrientedOrd.eq_swap, ?_, fun hab hbc => ⟨TransCmp.isLE_trans hab hbc, ?_⟩⟩
  · rw [Std.compare_eq_iff_eq]
    constructor
    · rintro rfl
      rfl
    · intro h
      cases a
      cases b
      exact congrArg Version.mk h
  · rintro (hlt | hlt)
    · exact TransCmp.lt_of_lt_of_isLE hlt hbc
    · exact TransCmp.lt_of_isLE_of_lt hab hlt

/-- The end of a version stands between a word and a number, even if that is zero. -/
theorem totally_ordered_around_end :
    let a : Version := ⟨"1.0-rc"⟩
    let b : Version := ⟨"1.0"⟩
    let c : Version := ⟨"1.0.00"⟩
    (compare a b).isLE ∧ (compare b c).isLE ∧ compare a b = .lt ∧ compare a c = .lt := by
  intro a b c
  have hab : compare a b = .lt := by decide +kernel
  have hbc : compare b c = .lt := by decide +kernel
  have hle : (compare a b).isLE ∧ (compare b c).isLE := by simp [hab, hbc]
  exact ⟨hle.1, hle.2, hab, ((totally_ordered a b c).2.2 hle.1 hle.2).2 (Or.inl hab)⟩

/-- Versions compare like their maximal runs of digits and of other characters, position by
position, and where these tie like the bytes of their texts. The runs of a text are the only ones
that it has, none of them is empty, and together they are the text without its separators. -/
theorem compare_by_runs (v w : Version) :
    ∃ as bs, (∀ parts, Runs v.text.toList parts ↔ parts = as) ∧
      (∀ parts, Runs w.text.toList parts ↔ parts = bs) ∧
      [] ∉ (as ++ bs).map Part.chars ∧
      as.flatMap Part.chars = v.text.toList.filter (!isSeparator ·) ∧
      bs.flatMap Part.chars = w.text.toList.filter (!isSeparator ·) ∧
      compare v w =
        (compareByPosition as bs).then (compare (Text.encode v.text) (Text.encode w.text)) := by
  refine ⟨v.parts, w.parts, fun _ => runs_iff, fun _ => runs_iff, ?_,
    (runs_partsOf _).flatMap_chars, (runs_partsOf _).flatMap_chars, ?_⟩
  · intro hempty
    obtain ⟨part, hpart, hnil⟩ := List.mem_map.1 hempty
    rcases List.mem_append.1 hpart with hpart | hpart
    · exact (v.isRun_of_mem_parts part hpart).chars_ne_nil hnil
    · exact (w.isRun_of_mem_parts part hpart).chars_ne_nil hnil
  · rw [compareByPosition_eq, Text.compare_encode, compare_eq]
    rfl

example : compare (⟨"1.18446744073709551616"⟩ : Version) ⟨"1.0018446744073709551615"⟩ = .gt := by
  decide +kernel

end ArtifactResolver.Version
