import ArtifactResolver.Cache.Key
import ArtifactResolver.Proofs.Text.Encoding

/-!
# What a key tells

The escaped form of a text can be read back to the bytes of the text, so different texts have
different segments. A key is made for a repository and for what is asked of it, and tells both.
-/

namespace ArtifactResolver

namespace Cache

/-! ## Segments -/

/-- The bytes of the text that a segment is the escaped form of. -/
def unescape : List Char → Bytes
  | '%' :: a :: b :: rest => Text.bytesOfHex [a, b] ++ unescape rest
  | '%' :: _ => []
  | c :: rest => String.utf8EncodeChar c ++ unescape rest
  | [] => []

theorem unescape_cons_of_ne {c : Char} (h : c ≠ '%') (rest : List Char) :
    unescape (c :: rest) = String.utf8EncodeChar c ++ unescape rest := by
  rw [unescape]
  · rintro a b rest rfl
    exact absurd rfl h
  · rintro rfl
    exact absurd rfl h

theorem unescape_escapeByte (b : UInt8) (rest : List Char) :
    unescape (escapeByte b ++ rest) = b :: unescape rest := by
  rw [escapeByte, List.cons_append, List.cons_append, List.cons_append, List.nil_append, unescape,
    Text.bytesOfHex_hexDigit, List.singleton_append]

theorem unescape_escapeChar (c : Char) (rest : List Char) :
    unescape (escapeChar c ++ rest) = String.utf8EncodeChar c ++ unescape rest := by
  rw [escapeChar]
  induction String.utf8EncodeChar c with
  | nil => rfl
  | cons b bytes ih => rw [List.flatMap_cons, List.append_assoc, unescape_escapeByte, ih]; rfl

theorem ne_percent_of_isPlain {c : Char} (h : isPlain c = true) : c ≠ '%' := by
  rintro rfl
  exact absurd h (by decide)

theorem unescape_escapeInner (c : Char) (rest : List Char) :
    unescape (escapeInner c ++ rest) = String.utf8EncodeChar c ++ unescape rest := by
  rw [escapeInner]
  by_cases h : isPlain c = true
  · rw [if_pos h, List.singleton_append, unescape_cons_of_ne (ne_percent_of_isPlain h)]
  · rw [if_neg h, unescape_escapeChar]

/-- The escaped form of a text tells the bytes of the text. -/
theorem unescape_escape (cs : List Char) :
    unescape (escape cs) = cs.flatMap String.utf8EncodeChar := by
  have hrest : ∀ cs : List Char,
      unescape (cs.flatMap escapeInner) = cs.flatMap String.utf8EncodeChar := by
    intro cs
    induction cs with
    | nil => rfl
    | cons c rest ih =>
      rw [List.flatMap_cons, unescape_escapeInner, ih, List.flatMap_cons]
  cases cs with
  | nil => rfl
  | cons c rest =>
    rw [escape, List.flatMap_cons]
    by_cases h : c = '.'
    · rw [if_pos h, unescape_escapeChar, hrest]
    · rw [if_neg h, unescape_escapeInner, hrest]

/-- Different texts have different segments. -/
theorem escape_injective {cs ds : List Char} (h : escape cs = escape ds) : cs = ds := by
  have := congrArg unescape h
  rw [unescape_escape, unescape_escape] at this
  exact Text.utf8_injective this

/-! ## Requests -/

/-- What an entry of a repository holds the answer to. -/
inductive Request where
  /-- The descriptor of a module version. -/
  | descriptor (c : Coordinate)
  /-- The version listing of a module. -/
  | listing (group name : String)
  /-- The content of an artifact. -/
  | artifact (a : Artifact)
  /-- The record of a probe for a category. -/
  | artifactSet (c : Coordinate) (category : Category)
deriving DecidableEq, Repr

namespace Key

/-- The key under which a repository keeps the answer to a request. -/
def ofRequest (repository : String) : Request → Key
  | .descriptor c => descriptor repository c
  | .listing group name => listing repository ⟨group, name, .latest⟩
  | .artifact a => artifact repository a
  | .artifactSet c category => artifactSet repository c category

theorem ofTexts_injective {texts texts' : List String} (h : ofTexts texts = ofTexts texts') :
    texts = texts' := by
  have hs : texts.map (fun text => escape text.toList) =
      texts'.map (fun text => escape text.toList) := congrArg Key.segments h
  refine (List.map_inj_right fun s t hst => ?_).1 hs
  exact String.toList_inj.1 (escape_injective hst)

theorem classifierText_injective {c c' : Option String} (h : classifierText c = classifierText c') :
    c = c' := by
  rw [← String.toList_inj] at h
  cases c <;> cases c' <;> simp_all [classifierText, String.toList_inj]

theorem categoryText_injective {c c' : Category} (h : categoryText c = categoryText c') :
    c = c' := by
  rw [← String.toList_inj] at h
  cases c <;> cases c' <;> simp_all [categoryText, String.toList_inj]

/-- The file name tells the extension of an artifact of which the rest is known. -/
theorem extension_eq_of_fileName {a b : Artifact} (hm : a.module = b.module) (hn : a.name = b.name)
    (hc : a.classifier = b.classifier) (h : a.fileName = b.fileName) :
    a.extension = b.extension := by
  rw [Artifact.fileName, Artifact.fileName, hm, hn, hc] at h
  cases hb : b.classifier <;> rw [hb] at h <;> simpa [← String.toList_inj, toString] using h

/-- A key tells the repository and the request. -/
theorem ofRequest_injective {repository repository' : String} {request request' : Request}
    (h : ofRequest repository request = ofRequest repository' request') :
    repository = repository' ∧ request = request' := by
  cases request with
  | descriptor c =>
    cases request' with
    | descriptor c' =>
      obtain ⟨group, name, version⟩ := c
      obtain ⟨group', name', version'⟩ := c'
      have := ofTexts_injective h
      simp_all
    | _ => simpa using ofTexts_injective h
  | listing group name =>
    cases request' with
    | listing group' name' =>
      have := ofTexts_injective h
      simp_all
    | _ => simpa using ofTexts_injective h
  | artifact a =>
    cases request' with
    | artifact b =>
      have hab := ofTexts_injective h
      simp only [List.cons.injEq, true_and, and_true] at hab
      obtain ⟨hr, hg, hn, hv, hk, hname, hc, hf⟩ := hab
      have hm : a.module = b.module := by
        cases hm : a.module
        cases hm' : b.module
        simp_all
      have hc := classifierText_injective hc
      have he := extension_eq_of_fileName hm hname hc hf
      refine ⟨hr, ?_⟩
      cases a
      cases b
      simp_all
    | _ => simpa using ofTexts_injective h
  | artifactSet c category =>
    cases request' with
    | artifactSet c' category' =>
      obtain ⟨group, name, version⟩ := c
      obtain ⟨group', name', version'⟩ := c'
      have hcc := ofTexts_injective h
      simp only [List.cons.injEq, true_and, and_true] at hcc
      obtain ⟨hr, hg, hn, hv, hc⟩ := hcc
      have hc := categoryText_injective hc
      subst hr hg hn hv hc
      exact ⟨rfl, rfl⟩
    | _ => simpa using ofTexts_injective h

end Key
end Cache
end ArtifactResolver
