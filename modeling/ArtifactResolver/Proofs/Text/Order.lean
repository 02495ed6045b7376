import ArtifactResolver.Proofs.Text.Encoding
import Mathlib.Data.Char
import Mathlib.Data.UInt

/-!
# The order of texts

Texts are ordered by their characters, and their encodings by bytes. Both orders are the same: of
two characters the greater one has the greater lead byte, or the same lead byte and the greater
bytes behind it.
-/

namespace ArtifactResolver.Text

open Std (OrientedOrd ReflOrd LawfulEqOrd)

/-- A map under which what is less stays less keeps every comparison. -/
theorem compare_map {α β : Type} [Ord α] [Ord β] [OrientedOrd α] [LawfulEqOrd α] [OrientedOrd β]
    [ReflOrd β] {f : α → β} (h : ∀ {a b}, compare a b = .lt → compare (f a) (f b) = .lt) (a b : α) :
    compare (f a) (f b) = compare a b := by
  cases hab : compare a b with
  | lt => exact h hab
  | eq =>
    rw [LawfulEqOrd.eq_of_compare hab]
    exact ReflOrd.compare_self
  | gt =>
    have hba : compare b a = .lt := OrientedOrd.eq_swap.trans (congrArg Ordering.swap hab)
    rw [OrientedOrd.eq_swap, h hba]
    rfl

/-- What two lists start with has no say in how they compare. -/
theorem compare_append {α : Type} [Ord α] [ReflOrd α] (cs as bs : List α) :
    compare (cs ++ as) (cs ++ bs) = compare as bs := by
  induction cs with
  | nil => rfl
  | cons c cs ih =>
    rw [List.cons_append, List.cons_append, List.compare_cons_cons, ReflOrd.compare_self, ih]
    rfl

/-! ## Bytes -/

theorem compare_ofNat_cons {m n : Nat} (hm : m < 256) (hn : n < 256) (as bs : Bytes) :
    compare (UInt8.ofNat m :: as) (UInt8.ofNat n :: bs) = (compare m n).then (compare as bs) := by
  rw [List.compare_cons_cons, UInt8.compare_eq_toNat_compare_toNat, toNat_ofNat_of_lt hm,
    toNat_ofNat_of_lt hn]

/-- The encodings of two characters decide, whatever is behind them. -/
theorem compare_utf8EncodeChar {c d : Char} (h : compare c d = .lt) (as bs : Bytes) :
    compare (String.utf8EncodeChar c ++ as) (String.utf8EncodeChar d ++ bs) = .lt := by
  have hlt : c.val.toNat < d.val.toNat := UInt32.lt_iff_toNat_lt.1 (compare_lt_iff_lt.1 h)
  have hd : d.val.toNat < 0x110000 := by
    have hvalid := d.valid
    rw [UInt32.isValidChar, Nat.isValidChar] at hvalid
    omega
  rw [String.utf8EncodeChar, String.utf8EncodeChar]
  generalize c.val.toNat = m at hlt
  generalize d.val.toNat = n at hlt hd
  have htwo : ∀ k : Nat, k / 4096 = k / 64 / 64 := fun k => by rw [Nat.div_div_eq_div_mul]
  have hthree : ∀ k : Nat, k / 262144 = k / 64 / 64 / 64 := fun k => by
    rw [Nat.div_div_eq_div_mul, Nat.div_div_eq_div_mul]
  -- lead bytes of encodings of different lengths are in different ranges, and encodings of one
  -- length are the digits of their numbers to the base 64
  repeat' split
  all_goals
    simp (disch := omega) only [List.cons_append, List.nil_append, compare_ofNat_cons,
      Ordering.then_eq_lt, Nat.compare_eq_lt, Nat.compare_eq_eq, htwo, hthree]
    omega

theorem compare_flatMap_utf8EncodeChar (as bs : List Char) :
    compare (as.flatMap String.utf8EncodeChar) (bs.flatMap String.utf8EncodeChar) =
      compare as bs := by
  refine compare_map (f := fun cs : List Char => cs.flatMap String.utf8EncodeChar) ?_ as bs
  intro as bs h
  induction as generalizing bs with
  | nil =>
    cases bs with
    | nil => cases h
    | cons b bs =>
      obtain ⟨byte, rest, hb⟩ :=
        List.exists_cons_of_ne_nil (String.utf8EncodeChar_ne_nil (c := b))
      rw [List.flatMap_cons, hb]
      rfl
  | cons a as ih =>
    cases bs with
    | nil => cases h
    | cons b bs =>
      rw [List.compare_cons_cons, Ordering.then_eq_lt] at h
      rw [List.flatMap_cons, List.flatMap_cons]
      rcases h with hab | ⟨hab, hrest⟩
      · exact compare_utf8EncodeChar hab _ _
      · rw [LawfulEqOrd.eq_of_compare hab, compare_append]
        exact ih hrest

/-! ## Texts -/

theorem compare_toList (a b : String) : compare a.toList b.toList = compare a b := by
  refine compare_map (f := String.toList) ?_ a b
  intro a b h
  have hlt : a.toList < b.toList := String.lt_iff.1 (compareOfLessAndEq_eq_lt.1 h)
  clear h
  generalize a.toList = as at hlt
  generalize b.toList = bs at hlt
  induction hlt with
  | nil => rfl
  | rel hab => rw [List.compare_cons_cons, compare_lt_iff_lt.2 hab]; rfl
  | cons _ ih => rw [List.compare_cons_cons, ReflOrd.compare_self, ih]; rfl

/-- Texts compare like their bytes. -/
theorem compare_encode (a b : String) : compare (encode a) (encode b) = compare a b :=
  (compare_flatMap_utf8EncodeChar _ _).trans (compare_toList a b)

end ArtifactResolver.Text
