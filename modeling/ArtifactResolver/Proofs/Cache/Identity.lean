import ArtifactResolver.Proofs.Cache.Directory

/-!
# What keys are for

The cache is asked for an entry by a key, and the text of the key is all that it has to go by. So
the text has to tell apart whatever is asked for, and as a path it has to stay inside the cache: it
leads strictly below the directory, never through or beyond another entry, and never to a file that
the cache has for itself.
-/

namespace ArtifactResolver.Cache

open Files.Path (LeadsBelow)

/-! ## What is asked for -/

/-- What is asked of the cache of a repository, with all that is known when it is asked. -/
inductive Inquiry where
  /-- The descriptor of a module version. -/
  | descriptor (c : Coordinate)
  /-- The versions from which a selector chooses. -/
  | listing (s : Selector)
  /-- The content of an artifact. -/
  | artifact (a : Artifact)
  /-- What a probe for a category has found. -/
  | artifactSet (c : Coordinate) (category : Category)

namespace Inquiry

/-- The key by which a repository asks. -/
def key (repository : String) : Inquiry → Key
  | descriptor c => .descriptor repository c
  | listing s => .listing repository s
  | artifact a => .artifact repository a
  | artifactSet c category => .artifactSet repository c category

/-- Both ask for the same entry: of one kind, and for the same thing. Selectors of one module choose
from the same versions, whatever their constraints are. -/
def SameEntry : Inquiry → Inquiry → Prop
  | descriptor c, descriptor c' => c = c'
  | listing s, listing s' => s.group = s'.group ∧ s.name = s'.name
  | artifact a, artifact a' => a = a'
  | artifactSet c category, artifactSet c' category' => c = c' ∧ category = category'
  | _, _ => False

/-- What an entry holds the answer to. -/
def request : Inquiry → Request
  | descriptor c => .descriptor c
  | listing s => .listing s.group s.name
  | artifact a => .artifact a
  | artifactSet c category => .artifactSet c category

theorem key_eq (asked : Inquiry) (repository : String) :
    asked.key repository = .ofRequest repository asked.request := by
  cases asked <;> rfl

theorem request_inj {asked asked' : Inquiry} :
    asked.request = asked'.request ↔ asked.SameEntry asked' := by
  cases asked <;> cases asked' <;> simp [request, SameEntry]

end Inquiry

/-! ## The text of a key -/

namespace Key

/-- What stands between the slashes of the text of a key. -/
def parts (k : Key) : List (List Char) := k.text.toList.splitOn '/'

variable (repository repository' : String) (request request' : Request)

/-- Slashes separate the segments of a key and stand nowhere else in its text. -/
theorem parts_ofRequest : (ofRequest repository request).parts =
    (ofRequest repository request).segments := by
  obtain ⟨first, second, third, rest, hnames⟩ := names_eq_cons repository request
  have hne : (ofRequest repository request).segments ≠ [] := by
    intro hnil
    rw [names, hnil] at hnames
    cases hnames
  rw [parts, text, String.toList_ofList]
  refine List.splitOn_intercalate '/' (fun cs hcs => ?_) hne
  exact (isSegment_of_mem hcs).not_mem (by decide) (by decide)

variable {repository repository' request request'}

theorem text_inj : (ofRequest repository request).text = (ofRequest repository' request').text ↔
    repository = repository' ∧ request = request' := by
  constructor
  · intro h
    have hparts : (ofRequest repository request).parts =
        (ofRequest repository' request').parts := by
      rw [parts, parts, h]
    rw [parts_ofRequest, parts_ofRequest] at hparts
    exact ofRequest_injective (congrArg Key.mk hparts)
  · rintro ⟨rfl, rfl⟩
    rfl

theorem parts_prefix_iff :
    (ofRequest repository request).parts <+: (ofRequest repository' request').parts ↔
      (ofRequest repository request).text = (ofRequest repository' request').text := by
  constructor
  · intro h
    rw [parts_ofRequest, parts_ofRequest] at h
    exact congrArg text (Key.eq_of_prefix (h.map String.ofList))
  · intro h
    have hparts : (ofRequest repository request).parts =
        (ofRequest repository' request').parts := congrArg (·.toList.splitOn '/') h
    exact hparts ▸ List.prefix_rfl

end Key

/-- Escaped texts are made of ASCII letters and digits and of five marks. -/
theorem IsSegment.alphabet {cs : List Char} (h : IsSegment cs) :
    ∀ c ∈ cs, c.isAlphanum = true ∨ c ∈ ['%', '.', '-', '_', '+'] := by
  intro c hc
  rcases h.chars c hc with hplain | rfl
  · simp only [isPlain, Bool.or_eq_true, beq_iff_eq] at hplain
    simp only [List.mem_cons, List.not_mem_nil, or_false]
    tauto
  · exact Or.inr (by decide)

/-! ## The path of an entry -/

namespace Directory

variable (d : Directory) (repository repository' : String) (request request' : Request)

theorem entryPath_leadsBelow :
    LeadsBelow d.location (d.entryPath (.ofRequest repository request)) := by
  rw [entryPath_eq]
  exact Files.Path.leadsBelow_join d.location (Key.names_ne_nil repository request)
    fun name hname => Key.isName_of_mem hname

theorem components_entryPath : Files.Path.components (d.entryPath (.ofRequest repository request)) =
    Files.Path.components d.location ++ (Key.ofRequest repository request).names := by
  have hparts : ∀ name ∈ (Key.ofRequest repository request).names, Files.Path.IsPart name :=
    fun name hname => (Key.isName_of_mem hname).toIsPart
  rw [entryPath_eq, Files.Path.components_join (Files.Path.isAbsolute_ofComponents hparts false),
    Files.Path.components_ofComponents hparts]

theorem components_temporaryPath :
    Files.Path.components (d.temporaryPath (.ofRequest repository request)) =
      Files.Path.components d.location ++ ((Key.ofRequest repository request).names.dropLast ++
        [d.temporaryName (.ofRequest repository request)]) := by
  have hdirectory : ∀ name ∈ (Key.ofRequest repository request).names.dropLast,
      Files.Path.IsPart name :=
    fun name hname => (Key.isName_of_mem (List.dropLast_subset _ hname)).toIsPart
  have hname : ∀ name ∈ [d.temporaryName (.ofRequest repository request)],
      Files.Path.IsPart name := by
    intro name hname
    rw [List.mem_singleton.1 hname]
    exact (isName_temporaryName fun _ => Key.isSegment_of_mem).toIsPart
  rw [temporaryPath_eq, entryDirectory_eq,
    Files.Path.components_join (Files.Path.isAbsolute_ofComponents hname false),
    Files.Path.components_ofComponents hname,
    Files.Path.components_join (Files.Path.isAbsolute_ofComponents hdirectory false),
    Files.Path.components_ofComponents hdirectory, List.append_assoc]

theorem entryPath_ne_lock :
    d.entryPath (.ofRequest repository request) ≠ Files.Path.join d.location lockName := by
  intro h
  have hcomponents := congrArg Files.Path.components h
  have hlock : Files.Path.components lockName = [lockName] := by decide
  rw [components_entryPath, Files.Path.components_join (by decide), hlock] at hcomponents
  have hnames := List.append_cancel_left hcomponents
  exact ne_lock_on_way (List.prefix_refl _) hnames

theorem entryPath_ne_temporaryPath :
    d.entryPath (.ofRequest repository request) ≠
      d.temporaryPath (.ofRequest repository' request') := by
  intro h
  have hcomponents := congrArg Files.Path.components h
  rw [components_entryPath, components_temporaryPath] at hcomponents
  have hnames := List.append_cancel_left hcomponents
  apply d.temporaryName_not_mem (.ofRequest repository' request') repository request
  rw [hnames]
  exact List.mem_append_right _ (List.mem_singleton_self _)

end Directory

/-- The text of a key tells the repository and what is asked for, and nothing more. No text leads on
from another one as a path; what stands between its slashes is never empty, never starts with a
point and is made of a few characters; and the path of an entry stays strictly below the directory
of the cache, where it is neither the lock file nor any temporary file of any process. -/
theorem key_identifies_inquiry (repository repository' : String) (asked asked' : Inquiry) :
    ((asked.key repository).text = (asked'.key repository').text ↔
      repository = repository' ∧ asked.SameEntry asked') ∧
    ((asked.key repository).parts <+: (asked'.key repository').parts ↔
      (asked.key repository).text = (asked'.key repository').text) ∧
    (∀ part ∈ (asked.key repository).parts, part ≠ [] ∧ part.head? ≠ some '.' ∧
      ∀ c ∈ part, c.isAlphanum = true ∨ c ∈ ['%', '.', '-', '_', '+']) ∧
    ∀ d : Directory, LeadsBelow d.location (d.entryPath (asked.key repository)) ∧
      d.entryPath (asked.key repository) ≠ Files.Path.join d.location Directory.lockName ∧
      ∀ process count, d.entryPath (asked.key repository) ≠
        Directory.temporaryPath { d with process := process, count := count }
          (asked'.key repository') := by
  rw [asked.key_eq, asked'.key_eq]
  refine ⟨?_, Key.parts_prefix_iff, ?_, ?_⟩
  · rw [Key.text_inj, Inquiry.request_inj]
  · intro part hpart
    rw [Key.parts_ofRequest] at hpart
    have hsegment := Key.isSegment_of_mem hpart
    exact ⟨hsegment.ne_nil, hsegment.head_ne, hsegment.alphabet⟩
  · intro d
    refine ⟨d.entryPath_leadsBelow _ _, d.entryPath_ne_lock _ _, fun process count => ?_⟩
    -- the path of an entry is the same for every process
    exact Directory.entryPath_ne_temporaryPath { d with process := process, count := count } _ _ _ _

/-- Two artifacts that differ in having no classifier and an empty one, in a repository and a group
whose names would lead out of the cache. -/
theorem odd_artifacts_keep_apart :
    let plain : Artifact := ⟨⟨"..", "a/b", "1.0"⟩, "lib", "jar", "jar", none⟩
    let empty : Artifact := { plain with classifier := some "" }
    let key := (Inquiry.artifact plain).key "../central"
    key.text = "%2E.%2Fcentral/artifacts/%2E./a%2Fb/1.0/jar/lib/_/lib-1.0.jar" ∧
      key.text ≠ ((Inquiry.artifact empty).key "../central").text ∧
      "%2E.".toList ∈ key.parts ∧ "%2E.".toList.head? ≠ some '.' ∧
      LeadsBelow "/cache" (Directory.entryPath ⟨"/cache", 1, 0⟩ key) := by
  intro plain empty key
  obtain ⟨htext, _, hparts, hpaths⟩ :=
    key_identifies_inquiry "../central" "../central" (.artifact plain) (.artifact empty)
  have hsegments : key.parts = key.segments := Key.parts_ofRequest "../central" (.artifact plain)
  have hmem : "%2E.".toList ∈ key.parts := by
    rw [hsegments]
    decide
  refine ⟨by decide +kernel, fun h => ?_, hmem, (hparts _ hmem).2.1, (hpaths ⟨"/cache", 1, 0⟩).1⟩
  have hsame : plain = empty := (htext.1 h).2
  exact absurd hsame (by decide)

end ArtifactResolver.Cache
