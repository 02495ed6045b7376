import ArtifactResolver.Format.Registry
import ArtifactResolver.Proofs.Inheritance

/-!
# What an accepted descriptor says

A descriptor that is accepted for a module version describes that version and no other, and every
artifact that it declares, of its own or by inheritance, is one of that version.
-/

namespace ArtifactResolver

namespace Metadata

/-- Every artifact of the module's configurations is one of the module version itself. -/
def OwnsArtifacts (m : Metadata) : Prop :=
  ∀ entry ∈ m.configurations, ∀ a ∈ entry.2.artifacts, a.module = m.coordinate

/-- What configurations inherit is the module's own as well. -/
theorem OwnsArtifacts.of_artifactsOf {m : Metadata} (h : m.OwnsArtifacts) {name : String}
    {artifacts : List Artifact} (ha : m.artifactsOf? name = some artifacts) :
    ∀ a ∈ artifacts, a.module = m.coordinate := by
  intro a hmem
  obtain ⟨ancestor, c, _, hc, howned⟩ := ((ascending_inherited ha).2 a).1 hmem
  exact h _ (Ascending.mem_of_find?_eq_some hc) a howned

end Metadata

namespace Descriptor

/-- What a document stands for owns its artifacts. -/
theorem Document.ownsArtifacts_complete (d : Document) : d.complete.OwnsArtifacts := by
  intro entry hentry a ha
  obtain ⟨given, _, rfl⟩ := List.mem_map.1 (Ascending.mem_of_mem_ofEntries hentry)
  obtain ⟨artifact, _, rfl⟩ := List.mem_map.1 (Ascending.mem_ofList.1 ha)
  rfl

/-- Metadata that is read for a module version is what some document stands for, and describes that
version. -/
theorem complete_of_read {c : Coordinate} {bytes : Bytes} {m : Metadata}
    (h : read c bytes = .ok m) : (∃ d : Document, d.complete = m) ∧ m.coordinate = c := by
  rw [read] at h
  cases hd : readDocument Document.ofEntries bytes with
  | error e =>
    rw [hd] at h
    cases h
  | ok d =>
    rw [hd] at h
    change d.metadataFor c = .ok m at h
    unfold Document.metadataFor at h
    dsimp only at h
    split at h
    · cases h
    · split at h
      · next hc =>
        obtain rfl := Except.ok.inj h
        exact ⟨⟨d, rfl⟩, hc⟩
      · cases h

theorem coordinate_of_read {c : Coordinate} {bytes : Bytes} {m : Metadata}
    (h : read c bytes = .ok m) : m.coordinate = c :=
  (complete_of_read h).2

theorem ownsArtifacts_of_read {c : Coordinate} {bytes : Bytes} {m : Metadata}
    (h : read c bytes = .ok m) : m.OwnsArtifacts := by
  obtain ⟨⟨d, rfl⟩, _⟩ := complete_of_read h
  exact d.ownsArtifacts_complete

end Descriptor
end ArtifactResolver
