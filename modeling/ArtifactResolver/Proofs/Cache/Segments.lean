import ArtifactResolver.Proofs.Cache.Key
import ArtifactResolver.Proofs.Files.Path

/-!
# Keys as paths

The segments of a key are names that no file system takes for anything else, and none of them starts
with a point. What a key is for stands in its second segment and settles how many there are, so no
key leads on from another one.
-/

namespace ArtifactResolver.Cache

open Files.Path (IsName)

/-! ## Segments -/

/-- The characters are those of an escaped text. -/
structure IsSegment (cs : List Char) : Prop where
  ne_nil : cs ≠ []
  chars : ∀ c ∈ cs, isPlain c = true ∨ c = '%'
  head_ne : cs.head? ≠ some '.'

theorem isPlain_hexDigit : ∀ n < 16, isPlain (Text.hexDigit n) = true := by decide

theorem chars_escapeChar (c : Char) : ∀ d ∈ escapeChar c, isPlain d = true ∨ d = '%' := by
  intro d hd
  obtain ⟨b, _, hd⟩ := List.mem_flatMap.1 hd
  have hb := b.toNat_lt
  have hhigh := isPlain_hexDigit (b.toNat / 16) (by omega)
  have hlow := isPlain_hexDigit (b.toNat % 16) (by omega)
  rcases List.mem_cons.1 hd with rfl | hd
  · exact Or.inr rfl
  · rcases List.mem_cons.1 hd with rfl | hd
    · exact Or.inl hhigh
    · exact Or.inl (List.mem_singleton.1 hd ▸ hlow)

theorem chars_escapeInner (c : Char) : ∀ d ∈ escapeInner c, isPlain d = true ∨ d = '%' := by
  intro d hd
  rw [escapeInner] at hd
  split at hd
  · next hplain => exact Or.inl (List.mem_singleton.1 hd ▸ hplain)
  · exact chars_escapeChar c d hd

/-- An escaped character starts with a percent sign. -/
theorem head_escapeChar (c : Char) : ∃ rest, escapeChar c = '%' :: rest := by
  have hne : String.utf8EncodeChar c ≠ [] := by
    intro hnil
    have hlength := String.length_utf8EncodeChar c
    rw [hnil] at hlength
    have := Char.utf8Size_pos c
    simp at hlength
    omega
  obtain ⟨b, bytes, hbytes⟩ := List.exists_cons_of_ne_nil hne
  rw [escapeChar, hbytes, List.flatMap_cons, escapeByte]
  exact ⟨_, rfl⟩

theorem isSegment_escape (cs : List Char) : IsSegment (escape cs) := by
  cases cs with
  | nil => exact ⟨by simp [escape], by simp [escape], by simp [escape]⟩
  | cons c rest =>
    have hinner : ∀ d ∈ rest.flatMap escapeInner, isPlain d = true ∨ d = '%' := by
      intro d hd
      obtain ⟨c, _, hd⟩ := List.mem_flatMap.1 hd
      exact chars_escapeInner c d hd
    obtain ⟨tail, htail⟩ := head_escapeChar c
    rw [escape]
    split
    · refine ⟨by simp [htail], fun d hd => ?_, by simp [htail]⟩
      exact (List.mem_append.1 hd).elim (chars_escapeChar c d) (hinner d)
    · next hpoint =>
      have hhead : ∃ d tail, escapeInner c = d :: tail ∧ d ≠ '.' := by
        rw [escapeInner]
        split
        · exact ⟨c, [], rfl, hpoint⟩
        · exact ⟨'%', tail, htail, by decide⟩
      obtain ⟨d, tail, hcons, hd⟩ := hhead
      refine ⟨by simp [hcons], fun d hd => ?_, by simpa [hcons] using hd⟩
      exact (List.mem_append.1 hd).elim (chars_escapeInner c d) (hinner d)

theorem flatMap_escapeInner {cs : List Char} (h : ∀ c ∈ cs, isPlain c = true) :
    cs.flatMap escapeInner = cs := by
  induction cs with
  | nil => rfl
  | cons c rest ih =>
    obtain ⟨hc, hrest⟩ := List.forall_mem_cons.1 h
    rw [List.flatMap_cons, ih hrest, escapeInner, if_pos hc, List.singleton_append]

/-- A text that is a segment without any escapes is its own escaped form. -/
theorem escape_of_plain {cs : List Char} (hne : cs ≠ []) (hhead : cs.head? ≠ some '.')
    (h : ∀ c ∈ cs, isPlain c = true) : escape cs = cs := by
  cases cs with
  | nil => exact absurd rfl hne
  | cons c rest =>
    have hpoint : c ≠ '.' := by simpa using hhead
    rw [escape, if_neg hpoint, ← List.flatMap_cons, flatMap_escapeInner h]

theorem IsSegment.not_mem {cs : List Char} (h : IsSegment cs) {c : Char}
    (hplain : isPlain c = false) (hc : c ≠ '%') : c ∉ cs := by
  intro hmem
  rcases h.chars c hmem with hc' | hc'
  · rw [hplain] at hc'
    cases hc'
  · exact hc hc'

/-- A segment is a name. -/
theorem IsSegment.isName {cs : List Char} (h : IsSegment cs) : IsName (String.ofList cs) where
  ne_empty := by simpa using h.ne_nil
  no_slash := by simpa using h.not_mem (by decide) (by decide)
  no_nul := by simpa using h.not_mem (by decide) (by decide)
  ne_here heq := h.head_ne (by rw [← String.toList_ofList (l := cs), heq]; rfl)
  ne_above heq := h.head_ne (by rw [← String.toList_ofList (l := cs), heq]; rfl)

/-! ## Keys -/

/-- The second text of the key of a request, by which kinds of entries are told apart. -/
def Request.kind : Request → String
  | descriptor _ => "descriptors"
  | listing .. => "versions"
  | artifact _ => "artifacts"
  | artifactSet .. => "artifact-sets"

namespace Key

/-- The segments of a key as names. -/
def names (k : Key) : List String := k.segments.map String.ofList

/-- The text of a key is the path through its names. -/
theorem text_eq (k : Key) : k.text = Files.Path.ofComponents false k.names := by
  rw [← String.toList_inj, text, names, Files.Path.ofComponents]
  simp [Function.comp_def]

theorem names_inj {k k' : Key} : k.names = k'.names ↔ k = k' := by
  constructor
  · intro h
    have hsegments : k.segments = k'.segments :=
      (List.map_inj_right fun cs ds hcs => by simpa using congrArg String.toList hcs).1 h
    cases k
    cases k'
    exact congrArg Key.mk hsegments
  · exact congrArg names

variable {repository repository' : String} {request request' : Request}

/-- Every segment of a key is an escaped text. -/
theorem isSegment_of_mem {cs : List Char} (h : cs ∈ (ofRequest repository request).segments) :
    IsSegment cs := by
  have htexts : ∃ texts, ofRequest repository request = ofTexts texts := by
    cases request <;> exact ⟨_, rfl⟩
  obtain ⟨texts, htexts⟩ := htexts
  rw [htexts] at h
  obtain ⟨text, _, rfl⟩ := List.mem_map.1 h
  exact isSegment_escape _

theorem isName_of_mem {name : String} (h : name ∈ (ofRequest repository request).names) :
    IsName name := by
  obtain ⟨cs, hcs, rfl⟩ := List.mem_map.1 h
  exact (isSegment_of_mem hcs).isName

/-- A key has a repository and a kind, and more than that. -/
theorem names_eq_cons (repository : String) (request : Request) :
    ∃ first second third rest,
      (ofRequest repository request).names = first :: second :: third :: rest := by
  cases request <;> exact ⟨_, _, _, _, rfl⟩

theorem names_eq_concat (repository : String) (request : Request) :
    ∃ last, (ofRequest repository request).names =
      (ofRequest repository request).names.dropLast ++ [last] := by
  obtain ⟨first, second, third, rest, hnames⟩ := names_eq_cons repository request
  rw [hnames]
  exact ⟨_, (List.dropLast_concat_getLast (List.cons_ne_nil _ _)).symm⟩

theorem names_ne_nil (repository : String) (request : Request) :
    (ofRequest repository request).names ≠ [] := by
  obtain ⟨first, second, third, rest, hnames⟩ := names_eq_cons repository request
  simp [hnames]

theorem not_prefix_dropLast (repository : String) (request : Request) :
    ¬ (ofRequest repository request).names <+: (ofRequest repository request).names.dropLast := by
  intro hprefix
  have hlength := hprefix.length_le
  have hne := List.length_pos_iff.2 (names_ne_nil repository request)
  rw [List.length_dropLast] at hlength
  omega

theorem dropLast_names_ne_nil (repository : String) (request : Request) :
    (ofRequest repository request).names.dropLast ≠ [] := by
  obtain ⟨first, second, third, rest, hnames⟩ := names_eq_cons repository request
  rw [hnames]
  simp

theorem second_name (repository : String) (request : Request) :
    (ofRequest repository request).names[1]? =
      some (String.ofList (escape request.kind.toList)) := by
  cases request <;> rfl

/-- Keys of one kind have the same number of names. -/
theorem length_names (h : request.kind = request'.kind) :
    (ofRequest repository request).names.length =
      (ofRequest repository' request').names.length := by
  cases request <;> cases request' <;> first | (simp [Request.kind] at h; done) | rfl

/-- No key leads on from another one. -/
theorem eq_of_prefix
    (h : (ofRequest repository request).names <+: (ofRequest repository' request').names) :
    ofRequest repository request = ofRequest repository' request' := by
  have hsecond : (ofRequest repository request).names[1]? =
      (ofRequest repository' request').names[1]? := by
    obtain ⟨rest, hrest⟩ := h
    obtain ⟨first, second, third, others, hnames⟩ := names_eq_cons repository request
    rw [← hrest, hnames]
    rfl
  have hkind : request.kind = request'.kind := by
    rw [second_name, second_name, Option.some.injEq] at hsecond
    have hescaped := congrArg String.toList hsecond
    rw [String.toList_ofList, String.toList_ofList] at hescaped
    exact String.toList_inj.1 (escape_injective hescaped)
  exact names_inj.1 (h.eq_of_length (length_names hkind))

end Key
end ArtifactResolver.Cache
