import ArtifactResolver.Proofs.Chain.Order
import ArtifactResolver.Proofs.Format.Descriptor
import ArtifactResolver.Proofs.Offline
import ArtifactResolver.Proofs.Repository.Remote
import ArtifactResolver.Proofs.Version.Order

/-!
# What a selector resolves to

A constraint selects the greatest of the versions that it accepts. Whatever the caches and the sites
hold, metadata that a selector resolves to is that of an accepted version of the module, because no
half of any repository has a value that it has not read from a descriptor for just that version.
-/

namespace ArtifactResolver

variable {σ α : Type}

/-! ## Constraints -/

namespace Constraint

variable {c : Constraint} {versions : List Version} {v : Version}

theorem select_eq_none_iff :
    c.select versions = none ↔ ∀ u ∈ versions, c.accepts u = false := by
  rw [select, Ascending.max?_eq_none_iff, List.filter_eq_nil_iff]
  simp only [Bool.not_eq_true]

/-- A constraint selects the accepted version that no other accepted one is greater than. -/
theorem select_eq_some_iff : c.select versions = some v ↔
    (v ∈ versions ∧ c.accepts v = true) ∧
      ∀ u ∈ versions, c.accepts u = true → compare u v ≠ .gt := by
  constructor
  · intro h
    refine ⟨List.mem_filter.1 (Ascending.mem_of_max? h), fun u hu ha => ?_⟩
    exact Ordering.isLE_iff_ne_gt.1 (Ascending.isLE_of_max? h u (List.mem_filter.2 ⟨hu, ha⟩))
  · rintro ⟨⟨hv, ha⟩, hmax⟩
    cases hselect : c.select versions with
    | none =>
      rw [select_eq_none_iff.1 hselect v hv] at ha
      cases ha
    | some u =>
      obtain ⟨hu, hau⟩ := List.mem_filter.1 (Ascending.mem_of_max? hselect)
      have hle : (compare v u).isLE :=
        Ascending.isLE_of_max? hselect v (List.mem_filter.2 ⟨hv, ha⟩)
      have hge : (compare u v).isLE := Ordering.isLE_iff_ne_gt.2 (hmax u hu hau)
      -- versions that are not greater than each other are the same
      exact congrArg some (Std.LawfulEqOrd.eq_of_compare (Std.OrientedCmp.isLE_antisymm hge hle))

end Constraint

/-! ## What halves have values from -/

namespace Repository

variable {r : Repository σ} {q : Query α} {w w' : World σ} {value : α}

theorem read_of_localHalf (hd : q.declared? = none)
    (h : r.localHalf.answer q w = .ok (.resolved value) w') :
    ∃ bytes, r.readBack q bytes = .ok value := by
  rw [r.localHalf_answer, localAnswer_of_undeclared hd] at h
  obtain ⟨bytes, _, hread⟩ := answerOf_eq_resolved_iff.1 (EStateM.Result.ok.inj h).1
  exact ⟨bytes, hread⟩

theorem read_of_remoteHalf (h : r.remoteHalf.answer q w = .ok (.resolved value) w') :
    ∃ bytes, r.readBack q bytes = .ok value := by
  have hcourse := r.remoteHalf_course q w
  generalize hseen : (r.remoteHalf.answer q).seen w = seen at hcourse
  rw [Action.seen, h] at hseen
  cases hcourse with
  | idle => simp [Outcome.resolved, Outcome.unset] at hseen
  | reused _ hv =>
    obtain rfl := Outcome.resolved_injective (Except.ok.inj (congrArg Prod.fst hseen))
    rw [usable?] at hv
    split at hv
    · exact ⟨_, toOption_eq_some_iff.1 hv⟩
    · cases hv
  | answered _ _ hu => exact absurd (congrArg Prod.fst hseen).symm (hu value)
  | kept _ _ _ hv =>
    obtain rfl := resolved_of_kept (Except.ok.inj (congrArg Prod.fst hseen)).symm
    exact ⟨_, hv⟩

end Repository

/-- The member is a repository with the format that is built in, which may have been cut off from
its site. -/
def Member.IsToml (member : Member σ) : Prop :=
  ∃ (r : Repository σ) (l : Layout), r.format = Format.toml l ∧
    (member = r.member ∨ member = r.member.offline)

/-- The members of a session are such repositories if its repositories are. -/
theorem Member.isToml_of_chain {repositories : List (Repository σ)}
    (h : ∀ r ∈ repositories, ∃ l, r.format = Format.toml l) (p : Policy) :
    ∀ member ∈ (p.chain repositories).members, member.IsToml := by
  intro member hmember
  simp only [Policy.chain, Policy.decorate, List.map_map, List.mem_map] at hmember
  obtain ⟨r, hr, rfl⟩ := hmember
  obtain ⟨l, hl⟩ := h r hr
  refine ⟨r.under p, l, hl, ?_⟩
  simp only [Function.comp_apply, Policy.apply]
  split
  · exact Or.inr rfl
  · exact Or.inl rfl

namespace Chain

variable {c : Chain σ} {s : Selector} {w w' : World σ}

/-- The value of a chain is that of one of its halves. -/
theorem half_of_resolved {q : Query α} {value : α}
    (h : c.lookup q w = .ok (.resolved value) w') :
    ∃ half ∈ c.halves, ∃ w₁ w₂, half.2.answer q w₁ = .ok (.resolved value) w₂ := by
  obtain ⟨asked, hverdict⟩ := verdict_of_lookup h
  generalize ho : Outcome.resolved value = o at hverdict
  cases hverdict with
  | resolved hc _ _ hv =>
    obtain rfl := Outcome.resolved_injective ho
    exact ⟨_, by simp [hc], _, _, hv⟩
  | exhausted => simp [Outcome.resolved, Outcome.failed] at ho
  | missing => simp [Outcome.resolved, Outcome.missing] at ho

/-- A lookup of a chain is never left open. -/
theorem lookup_ne_unset (c : Chain σ) (q : Query α) (w w' : World σ) :
    c.lookup q w ≠ .ok .unset w' := by
  intro h
  obtain ⟨asked, hverdict⟩ := verdict_of_lookup h
  generalize ho : Outcome.unset = o at hverdict
  cases hverdict <;> simp [Outcome.resolved, Outcome.failed, Outcome.missing, Outcome.unset] at ho

/-- Metadata that a chain resolves was read from a descriptor for the module version. -/
theorem read_of_metadata (hc : ∀ member ∈ c.members, member.IsToml) {coordinate : Coordinate}
    {m : Metadata} (h : c.metadata coordinate w = .ok (.resolved m) w') :
    ∃ bytes, Descriptor.read coordinate bytes = .ok m := by
  obtain ⟨⟨name, half⟩, hmem, w₁, w₂, hv⟩ := half_of_resolved (q := .metadata coordinate) h
  have hread : ∀ {r : Repository σ} {l : Layout}, r.format = Format.toml l →
      (∃ bytes, r.readBack (.metadata coordinate) bytes = .ok m) →
      ∃ bytes, Descriptor.read coordinate bytes = .ok m := by
    rintro r l hformat ⟨bytes, hbytes⟩
    rw [Repository.readBack, hformat] at hbytes
    exact ⟨bytes, hbytes⟩
  rw [halves, List.mem_append, List.mem_map, List.mem_map] at hmem
  rcases hmem with ⟨member, hmember, heq⟩ | ⟨member, hmember, heq⟩ <;>
    obtain ⟨r, l, hformat, rfl | rfl⟩ := hc member hmember <;> cases heq
  · exact hread hformat (Repository.read_of_localHalf rfl hv)
  · exact hread hformat (Repository.read_of_localHalf rfl hv)
  · exact hread hformat (Repository.read_of_remoteHalf hv)
  · rw [show r.member.offline.remoteHalf = offlineHalf from rfl, offlineHalf_answer] at hv
    simp [Outcome.resolved, Outcome.failed] at hv

/-! ## The selected version -/

/-- The chain, the halves of which list versions in some other way. -/
def listing (c : Chain σ) (versions : Half σ → Selector → Action σ (Outcome (List Version))) :
    Chain σ where
  members := c.members.map fun member =>
    { member with
      localHalf := { member.localHalf with versions := versions member.localHalf }
      remoteHalf := { member.remoteHalf with versions := versions member.remoteHalf } }

theorem ask_map {operation : Operation} {subject : String}
    {lookup : Half σ → Action σ (Outcome α)} {f : Half σ → Half σ}
    (hf : ∀ half, lookup (f half) = lookup half) (halves : List (String × Half σ))
    (failures : List (String × Failure)) :
    ask operation subject lookup failures (halves.map fun half => (half.1, f half.2)) =
      ask operation subject lookup failures halves := by
  induction halves generalizing failures with
  | nil => rfl
  | cons half rest ih =>
    funext w
    rw [List.map_cons, ask_cons, ask_cons, hf]
    simp only [ih]

theorem metadata_listing (c : Chain σ)
    (versions : Half σ → Selector → Action σ (Outcome (List Version))) (coordinate : Coordinate) :
    (c.listing versions).metadata coordinate = c.metadata coordinate := by
  have hhalves : (c.listing versions).halves = c.halves.map fun half =>
      (half.1, { half.2 with versions := versions half.2 }) := by
    simp [halves, listing, Function.comp_def]
  rw [metadata, resolve, hhalves]
  exact ask_map (f := fun half => { half with versions := versions half }) (fun _ => rfl) c.halves
    []

/-- A version that is named is not looked for in any listing. -/
theorem select_of_exact {version : String} (h : s.constraint = .exact version) (c : Chain σ) :
    c.select s = c.metadata ⟨s.group, s.name, version⟩ := by
  rw [select, Selector.toCoordinate?, h]

/-- How a dynamic selector is resolved, by how its listing ends. -/
structure SelectsGreatest (c : Chain σ) (s : Selector) (w : World σ) : Prop where
  /-- The version that it resolves to is listed, and no accepted one that is listed is greater. -/
  of_resolved : ∀ {m w'}, c.select s w = .ok (.resolved m) w' →
    ∃ versions w₁, c.versions s w = .ok (.resolved versions) w₁ ∧
      m.coordinate.toVersion ∈ versions ∧
      ∀ v ∈ versions, s.constraint.accepts v = true → compare v m.coordinate.toVersion ≠ .gt
  /-- The listing ends in one of the ways that follow. -/
  settled : ∀ w₁, c.versions s w ≠ .ok .unset w₁
  of_panic : ∀ {p w₁}, c.versions s w = .error p w₁ → c.select s w = .error p w₁
  of_missing : ∀ {w₁}, c.versions s w = .ok .missing w₁ → c.select s w = .ok .missing w₁
  of_failed : ∀ {f w₁}, c.versions s w = .ok (.failed f) w₁ → c.select s w = .ok (.failed f) w₁
  of_unaccepted : ∀ {versions w₁}, c.versions s w = .ok (.resolved versions) w₁ →
    (∀ v ∈ versions, s.constraint.accepts v = false) → c.select s w = .ok .missing w₁
  /-- The metadata is that of the greatest accepted version, as it is found after the listing. -/
  of_greatest : ∀ {versions w₁ v}, c.versions s w = .ok (.resolved versions) w₁ → v ∈ versions →
    s.constraint.accepts v = true →
    (∀ u ∈ versions, s.constraint.accepts u = true → compare u v ≠ .gt) →
    c.select s w = c.metadata ⟨s.group, s.name, v.text⟩ w₁

/-- What becomes of a dynamic selector once its listing has ended. -/
theorem select_apply_of_dynamic (h : s.constraint.isDynamic = true) (c : Chain σ) (w : World σ) :
    c.select s w = match c.versions s w with
      | .ok o w₁ => c.selected s o w₁
      | .error p w₁ => .error p w₁ := by
  have hcoordinate : s.toCoordinate? = none := by
    rw [Selector.toCoordinate?]
    cases hs : s.constraint with
    | exact version =>
      rw [hs] at h
      cases h
    | startingWith start => rfl
    | latest => rfl
  rw [select_of_dynamic hcoordinate, Action.bind_apply, lookup]
  cases c.versions s w <;> rfl

/-- A dynamic selector that resolves has a listing, and resolves to the version selected of it. -/
theorem listing_of_resolved (h : s.constraint.isDynamic = true) {m : Metadata}
    (hm : c.select s w = .ok (.resolved m) w') :
    ∃ versions v w₁, c.versions s w = .ok (.resolved versions) w₁ ∧
      s.constraint.select versions = some v ∧
      c.metadata ⟨s.group, s.name, v.text⟩ w₁ = .ok (.resolved m) w' := by
  rw [select_apply_of_dynamic h] at hm
  cases hlist : c.versions s w with
  | error p w₁ => rw [hlist] at hm; cases hm
  | ok o w₁ =>
    rw [hlist] at hm
    rcases o with ⟨_ | versions | failure | _⟩
    · cases hm
    · simp only [selected] at hm
      cases hselect : s.constraint.select versions with
      | none => rw [hselect] at hm; cases hm
      | some v =>
        rw [hselect] at hm
        exact ⟨versions, v, w₁, rfl, hselect, hm⟩
    · cases hm
    · cases hm

end Chain

/-- The metadata is that of an accepted version of the requested module, and the artifacts of its
configurations, inherited ones too, are its own. -/
structure Selector.Describes (s : Selector) (m : Metadata) : Prop where
  group_eq : m.coordinate.group = s.group
  name_eq : m.coordinate.name = s.name
  accepts : s.constraint.accepts m.coordinate.toVersion = true
  ownsArtifacts : m.OwnsArtifacts
  ownsInherited : ∀ {name artifacts}, m.artifactsOf? name = some artifacts →
    ∀ a ∈ artifacts, a.module = m.coordinate

namespace Chain

variable {c : Chain σ} {s : Selector} {w w' : World σ}

theorem describes_of_metadata (hc : ∀ member ∈ c.members, member.IsToml) {v : Version}
    (ha : s.constraint.accepts v = true) {m : Metadata}
    (h : c.metadata ⟨s.group, s.name, v.text⟩ w = .ok (.resolved m) w') :
    s.Describes m ∧ m.coordinate.toVersion = v := by
  obtain ⟨bytes, hread⟩ := read_of_metadata hc h
  have hcoordinate := Descriptor.coordinate_of_read hread
  have howns := Descriptor.ownsArtifacts_of_read hread
  have hversion : m.coordinate.toVersion = v := by rw [hcoordinate]; rfl
  refine ⟨⟨?_, ?_, hversion ▸ ha, howns, howns.of_artifactsOf⟩, hversion⟩
  · rw [hcoordinate]
  · rw [hcoordinate]

theorem describes_of_select (hc : ∀ member ∈ c.members, member.IsToml) {m : Metadata}
    (h : c.select s w = .ok (.resolved m) w') : s.Describes m := by
  cases hd : s.constraint.isDynamic with
  | true =>
    obtain ⟨versions, v, w₁, _, hselect, hm⟩ := listing_of_resolved hd h
    exact (describes_of_metadata hc (Constraint.select_eq_some_iff.1 hselect).1.2 hm).1
  | false =>
    cases hs : s.constraint with
    | exact version =>
      rw [select_of_exact hs] at h
      refine (describes_of_metadata (v := ⟨version⟩) hc ?_ h).1
      rw [hs]
      exact beq_self_eq_true version
    | startingWith start => rw [hs] at hd; cases hd
    | latest => rw [hs] at hd; cases hd

theorem selectsGreatest (hc : ∀ member ∈ c.members, member.IsToml)
    (hd : s.constraint.isDynamic = true) (w : World σ) : c.SelectsGreatest s w where
  of_resolved {m w'} h := by
    obtain ⟨versions, v, w₁, hlist, hselect, hm⟩ := listing_of_resolved hd h
    obtain ⟨⟨hv, ha⟩, hmax⟩ := Constraint.select_eq_some_iff.1 hselect
    obtain ⟨_, rfl⟩ := describes_of_metadata hc ha hm
    exact ⟨versions, w₁, hlist, hv, hmax⟩
  settled w₁ := lookup_ne_unset c (.versions s) w w₁
  of_panic h := by rw [select_apply_of_dynamic hd, h]
  of_missing h := by rw [select_apply_of_dynamic hd, h]; rfl
  of_failed h := by rw [select_apply_of_dynamic hd, h]; rfl
  of_unaccepted h hnone := by
    rw [select_apply_of_dynamic hd, h]
    simp only [selected, Outcome.resolved, Constraint.select_eq_none_iff.2 hnone]
    rfl
  of_greatest h hv ha hmax := by
    rw [select_apply_of_dynamic hd, h]
    simp only [selected, Outcome.resolved, Constraint.select_eq_some_iff.2 ⟨⟨hv, ha⟩, hmax⟩]
    rfl

/-- Whatever the caches and the sites hold, a selector resolves to metadata of an accepted version
of its module only, a dynamic one to that of the greatest version that is listed and accepted. A
selector of one version is not looked up in any listing. -/
theorem select_sound_and_greatest (hc : ∀ member ∈ c.members, member.IsToml) (s : Selector)
    (w : World σ) :
    (∀ m w', c.select s w = .ok (.resolved m) w' → s.Describes m) ∧
    (s.constraint.isDynamic = true → c.SelectsGreatest s w) ∧
    ∀ version, s.constraint = .exact version →
      c.select s = c.metadata ⟨s.group, s.name, version⟩ ∧
      ∀ versions, (c.listing versions).select s = c.select s := by
  refine ⟨fun _ _ => describes_of_select hc, fun hd => selectsGreatest hc hd w, ?_⟩
  intro version hs
  refine ⟨select_of_exact hs c, fun versions => ?_⟩
  rw [select_of_exact hs, select_of_exact hs, metadata_listing]

end Chain

/-! ## Three listed versions -/

namespace Environment

/-- Two repositories, of which the first one lists versions that only the second one has. -/
def listedSample : List (Repository Environment) :=
  [⟨"central", Format.toml {}, memoryStore, siteTransport 0 none, {}⟩,
    ⟨"mirror", Format.toml {}, memoryStore, siteTransport 1 none, {}⟩]

theorem format_of_mem_listedSample : ∀ r ∈ listedSample, r.format = Format.toml {} := by
  simp [listedSample]

/-- A world in which no version was looked up yet. -/
def listedStart : World Environment where
  env :=
    { sites := [{ resources := [("g/m/versions.toml",
        Text.encode "versions = [\"1.9\", \"1.10\", \"2.0\"]\n")] },
        { resources := [("g/m/1.10/module-1.10.toml",
          Text.encode "[module]\ngroup = \"g\"\nname = \"m\"\nversion = \"1.10\"\n")] }] }

/-- The selector of the versions that start with `1.`. -/
def listedSelector : Selector := ⟨"g", "m", .startingWith "1."⟩

theorem listedSample_selected :
    (((({} : Policy).chain listedSample).select listedSelector).finish listedStart).1.toOption.bind
      (fun o => o.value?.map (·.coordinate)) = some ⟨"g", "m", "1.10"⟩ := by
  decide +kernel

/-- The greatest of the accepted versions is not the last one as text. -/
theorem listedSample_greatest :
    let c := ({} : Policy).chain listedSample
    ∃ m w', c.select listedSelector listedStart = .ok (.resolved m) w' ∧
      m.coordinate = ⟨"g", "m", "1.10"⟩ ∧ listedSelector.Describes m ∧
      c.SelectsGreatest listedSelector listedStart := by
  intro c
  have htoml : ∀ member ∈ c.members, member.IsToml :=
    Member.isToml_of_chain (fun r hr => ⟨{}, format_of_mem_listedSample r hr⟩) {}
  obtain ⟨hdescribes, hgreatest, _⟩ :=
    Chain.select_sound_and_greatest htoml listedSelector listedStart
  have hselected := listedSample_selected
  rw [Action.finish] at hselected
  cases hselect : c.select listedSelector listedStart with
  | error p w' => rw [hselect] at hselected; cases hselected
  | ok o w' =>
    rw [hselect] at hselected
    rcases o with ⟨_ | m | failure | _⟩
    · cases hselected
    · have hcoordinate := Option.some.inj hselected
      exact ⟨m, w', rfl, hcoordinate, hdescribes m w' hselect, hgreatest rfl⟩
    · cases hselected
    · cases hselected

end Environment
end ArtifactResolver
