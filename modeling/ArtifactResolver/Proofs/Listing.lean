import ArtifactResolver.Proofs.Ascending
import ArtifactResolver.Proofs.Selection
import ArtifactResolver.Proofs.Toml.Lines

/-!
# What a listing holds

A listing is read as the set of its versions, in ascending order: nothing that it gives is lost, not
even versions that differ in their text alone, and neither the order in which it gives them nor how
often it does so makes a difference. The same is true of the version that a constraint selects.
-/

namespace ArtifactResolver

/-! ## Arrays of strings -/

namespace Toml

/-- The text of an array of strings behind its opening bracket, every string on its own line. -/
def writeItems (items : List String) : List Char :=
  items.flatMap (fun item => '\n' :: writeString item.toList ++ ['\n', ',']) ++ [']']

theorem exists_quote (cs : List Char) :
    ∃ quote written, writeString cs = quote :: written ∧ (quote = '"' ∨ quote = '\'') := by
  unfold writeString
  cases formOf cs <;> simp

/-- The strings of an array are read back, whatever is behind it. -/
theorem scanItems_writeItems (depth : Nat) (items : List String) (rest : List Char) (fuel : Nat)
    (h : (writeItems items).length < fuel) :
    scanItems (scanValue depth) fuel (writeItems items ++ rest) =
      some (items.map .string, rest) := by
  induction items generalizing fuel with
  | nil =>
    cases fuel with
    | zero => omega
    | succ fuel => simp [writeItems, scanItems, skipTrivia?, isSpace]
  | cons item items ih =>
    cases fuel with
    | zero => omega
    | succ fuel =>
      have hwritten : writeItems (item :: items) ++ rest = '\n' :: (writeString item.toList ++
          '\n' :: ',' :: (writeItems items ++ rest)) := by
        simp [writeItems]
      have hfuel : (writeItems items).length < fuel := by
        rw [writeItems, List.flatMap_cons, List.append_assoc, List.length_append] at h
        rw [writeItems]
        simp only [List.length_append, List.length_cons] at h ⊢
        omega
      have hitem := scanValue_writeString depth item.toList (',' :: (writeItems items ++ rest))
      obtain ⟨quote, written, hq, hquote⟩ := exists_quote item.toList
      have htrivia : skipTrivia? false ('\n' :: (writeString item.toList ++
          '\n' :: ',' :: (writeItems items ++ rest))) = some (writeString item.toList ++
          '\n' :: ',' :: (writeItems items ++ rest)) := by
        rw [skipTrivia?, if_pos rfl, hq]
        rcases hquote with rfl | rfl <;> exact skipTrivia?_cons (by decide) _
      have hcomma : skipTrivia? false ('\n' :: ',' :: (writeItems items ++ rest)) =
          some (',' :: (writeItems items ++ rest)) := rfl
      rw [hwritten, scanItems, htrivia]
      rw [hq, List.cons_append] at hitem ⊢
      have hne : quote ≠ ']' := by rcases hquote with rfl | rfl <;> decide
      simp [hne, hitem, hcomma, ih fuel hfuel, push]

end Toml

namespace Descriptor

/-- The versions of a listing in the order in which it gives them. -/
def listedVersions (bytes : Bytes) : Except ParseError (List Version) :=
  readDocument (fun entries => do Toml.required "versions" (← listingFields.readAll entries)) bytes

/-- A listing is read as the set of the versions that it gives. -/
theorem readVersions_eq (bytes : Bytes) :
    readVersions bytes = (listedVersions bytes).map Ascending.ofList := by
  rw [readVersions]
  show (listedVersions bytes).bind _ = _
  cases listedVersions bytes <;> rfl

/-- The text of a listing of versions. -/
def writeVersions (versions : List Version) : List Char :=
  ("versions".toList ++ ' ' :: '=' :: ' ' :: '[' :: Toml.writeItems (versions.map Version.text)) ++
    ['\n']

theorem parse_writeVersions (versions : List Version) :
    Toml.parse (String.ofList (writeVersions versions)) =
      .ok [("versions", .array (versions.map fun v => .string v.text))] := by
  have hitems := Toml.scanItems_writeItems 78 (versions.map Version.text) ['\n']
    ((Toml.writeItems (versions.map Version.text) ++ ['\n']).length + 1)
    (by rw [List.length_append]; omega)
  have hv : Toml.scanValue Toml.nestingLimit
      ('[' :: Toml.writeItems (versions.map Version.text) ++ ['\n']) =
        some (.array (versions.map fun v => .string v.text), ['\n']) := by
    show Toml.scanValue (78 + 1) _ = _
    rw [List.cons_append, Toml.scanValue, hitems, List.map_map]
    rfl
  have hread : Toml.ReadAs (writeVersions versions)
      [.assign ["versions"] (.array (versions.map fun v => .string v.text))] :=
    Toml.ReadAs.nil.assign (by simp) (List.all_eq_true.1 (by decide)) rfl hv
  have hmark : Toml.dropByteOrderMark (writeVersions versions) = writeVersions versions := by
    have hstart : "versions".toList = 'v' :: "ersions".toList := by decide
    unfold writeVersions
    rw [hstart, List.cons_append, List.cons_append, Toml.dropByteOrderMark, if_neg (by decide)]
  rw [Toml.parse, String.toList_ofList, Toml.statements?, hmark, hread _ (Nat.lt_succ_self _)]
  simp [Toml.ofStatements?, Toml.Draft.add, Toml.Entries.change, Toml.Entries.assign,
    Toml.entriesToValues, Toml.Node.toValue]

/-- Every list of versions is what some listing gives. -/
theorem listedVersions_writeVersions (versions : List Version) :
    listedVersions (Text.encode (String.ofList (writeVersions versions))) = .ok versions := by
  have hlist : (Toml.Value.array (versions.map fun v => .string v.text)).list
      (fun version => return (⟨← version.text⟩ : Version)) = .ok versions := by
    rw [Toml.Value.list]
    induction versions with
    | nil => rfl
    | cons v versions ih =>
      rw [List.map_cons, List.mapM_cons, ih]
      rfl
  have hfields : listingFields.readAll
      [("versions", .array (versions.map fun v => .string v.text))] = .ok (some versions) := by
    rw [Toml.Fields.readAll, List.foldlM_cons]
    simp only [listingFields, hlist]
    rfl
  rw [listedVersions, readDocument, Text.decode_encode]
  simp only [parse_writeVersions, Except.bind, hfields]
  rfl

end Descriptor

/-! ## The order of a list does not count -/

/-- Of lists with the same members a constraint selects the same version. -/
theorem Constraint.select_eq_of_mem_iff {versions others : List Version}
    (h : ∀ v, v ∈ others ↔ v ∈ versions) (c : Constraint) :
    c.select others = c.select versions := by
  refine Option.ext fun v => ?_
  simp only [select_eq_some_iff, h]

/-! ## Listings and selection -/

/-- Every list of versions is given by some listing. Every listing that gives these versions, in any
order and any number of times, is read as one and the same set, which holds each of them once in
ascending order. A constraint selects none of the versions if it accepts none, and else the one that
it accepts and that every accepted one is less than or equal to, again in whatever order and however
often they are given. -/
theorem listed_once_and_greatest_selected (versions : List Version) :
    (∃ bytes, Descriptor.listedVersions bytes = .ok versions) ∧
    (∃ set, (∀ v, v ∈ set ↔ v ∈ versions) ∧ set.Nodup ∧ Ascending.IsAscending set ∧
      ∀ bytes others, Descriptor.listedVersions bytes = .ok others →
        (∀ v, v ∈ others ↔ v ∈ versions) → Descriptor.readVersions bytes = .ok set) ∧
    ∀ c : Constraint,
      (c.select versions = none ↔ ∀ v ∈ versions, c.accepts v = false) ∧
      (∀ v, c.select versions = some v ↔ (v ∈ versions ∧ c.accepts v = true) ∧
        ∀ u ∈ versions, c.accepts u = true → (compare u v).isLE) ∧
      ∀ others, (∀ v, v ∈ others ↔ v ∈ versions) → c.select others = c.select versions := by
  have hascending := Ascending.isAscending_ofList versions
  refine ⟨⟨_, Descriptor.listedVersions_writeVersions versions⟩,
    ⟨Ascending.ofList versions, fun v => Ascending.mem_ofList, hascending.nodup, hascending, ?_⟩,
    fun c => ⟨Constraint.select_eq_none_iff, fun v => ?_, fun others h => ?_⟩⟩
  · intro bytes others hlisted hothers
    rw [Descriptor.readVersions_eq, hlisted, ← Ascending.ofList_eq_of_mem_iff hothers]
    rfl
  · simp only [Ordering.isLE_iff_ne_gt]
    exact Constraint.select_eq_some_iff
  · exact c.select_eq_of_mem_iff h

/-- Three versions with the same parts, one of them twice. -/
def tiedVersions : List Version := [⟨"1.00"⟩, ⟨"1.0"⟩, ⟨"1-0"⟩, ⟨"1.0"⟩]

/-- A listing of these versions. -/
def tiedListing : Bytes :=
  Text.encode "versions = [\"1.00\", \"1.0\", \"1-0\", \"1.0\"]\n"

theorem tiedListing_listed : Descriptor.listedVersions tiedListing = .ok tiedVersions :=
  Repository.toOption_eq_some_iff.1 (by decide +kernel)

/-- Versions with the same parts are all listed, and the greatest of them is selected. -/
theorem tied_versions_listed :
    (∃ set, Descriptor.readVersions tiedListing = .ok set ∧ set.Nodup ∧
      ∀ v : Version, v ∈ set ↔ v ∈ [⟨"1-0"⟩, ⟨"1.0"⟩, ⟨"1.00"⟩]) ∧
    Constraint.latest.select tiedVersions = some ⟨"1.00"⟩ := by
  have hothers : ∀ v, v ∈ tiedVersions ↔ v ∈ [⟨"1-0"⟩, ⟨"1.0"⟩, ⟨"1.00"⟩] := by
    intro v
    simp only [tiedVersions, List.mem_cons, List.not_mem_nil, or_false]
    tauto
  obtain ⟨_, ⟨set, hset, hnodup, _, hread⟩, hselect⟩ :=
    listed_once_and_greatest_selected [⟨"1-0"⟩, ⟨"1.0"⟩, ⟨"1.00"⟩]
  refine ⟨⟨set, hread _ _ tiedListing_listed hothers, hnodup, hset⟩, ?_⟩
  rw [(hselect .latest).2.2 tiedVersions hothers]
  decide +kernel

end ArtifactResolver
