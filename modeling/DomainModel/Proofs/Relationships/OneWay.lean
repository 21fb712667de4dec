import DomainModel.Proofs.Relationships.RoundTrip
/-!
# One-way relationships

An end names the field of the other end in lower case, even if there is no such end and the name is
only the one it would have. Two source ends that name each other in this way cross, and are read as
one relationship. One-way relationships that none crosses are read back as they are.
-/
namespace DomainModel

namespace Relationship

/-- Each of two relationships leads back along the other, and the field in its source bears the name
that the source end of the other looks for. -/
structure Crosses (r s : Relationship) : Prop where
  other : r ≠ s
  source : s.source = r.destination
  destination : s.destination = r.source
  cardinality : s.cardinality = r.cardinality.reversed
  named : s.sourceField.name = lowerFirst r.destinationField.name
  namedBack : r.sourceField.name = lowerFirst s.destinationField.name

theorem sourceEnd_mem (r : Relationship) : r.sourceEnd ∈ r.statedEnds := List.mem_cons_self

variable {r : Relationship} {f : String}

theorem sourceField_of_uncapitalized (hf : r.injectedInSource = some f)
    (h : isUncapitalized f = true) : r.sourceField = ⟨f, none⟩ := by
  have hregular : InjectedField.Regular ⟨f, none⟩ := ⟨h, by simp⟩
  have hread := InjectedField.ofText_text hregular
  simpa [sourceField, hf, InjectedField.text] using hread

theorem sourceEnd_text_of_uncapitalized (hf : r.injectedInSource = some f)
    (h : isUncapitalized f = true) : r.sourceEnd.injectedText = f := by
  have hfield := sourceField_of_uncapitalized hf h
  have hplain : r.sourceEnd.descriptor.injectedField = ⟨f, none⟩ := by
    by_cases hcard : r.cardinality = .oneToMany <;>
      simp [sourceEnd, sourceEntry, RelationshipDescriptor.injectedField, hfield, hcard]
  simp [RelationshipEnd.injectedText, hplain, InjectedField.text]

end Relationship

/-- The models whose ends conversion can state apart: relationships join declared, capitalized
entities other than the user entity, have a plain field in the source, and no entity gets two ends
of one name. -/
structure Model.Separable (m : Model) : Prop where
  names : ∀ name ∈ m.entities.keys, isCapitalized name = true ∧ name ≠ userEntityName
  declared : ∀ r ∈ m.relationships.toList,
    r.source ∈ m.entities.keys ∧ r.destination ∈ m.entities.keys
  plain : ∀ r ∈ m.relationships.toList,
    ∃ f, r.injectedInSource = some f ∧ isUncapitalized f = true
  distinct : (m.relationships.toList.flatMap fun r => r.statedEnds.map RelationshipEnd.key).Nodup

namespace Model.Separable
variable {m : Model} {start : Int} {r s : Relationship} {e f : RelationshipEnd}

theorem capitalized (hm : m.Separable) (hr : r ∈ m.relationships.toList) :
    isCapitalized r.source = true ∧ isCapitalized r.destination = true :=
  ⟨(hm.names _ (hm.declared r hr).1).1, (hm.names _ (hm.declared r hr).2).1⟩

theorem tidy (hw : m.WellFormed) (hm : m.Separable) (start : Int) :
    (m.toDescriptors start).Tidy :=
  tidy_toDescriptors hw (fun name hname => (hm.names name hname).1) (fun _ hr => hm.capitalized hr)
    hm.distinct start

theorem mem_allEnds (hw : m.WellFormed) (hm : m.Separable) :
    e ∈ allEnds (m.toDescriptors start) ↔ ∃ r ∈ m.relationships.toList, e ∈ r.statedEnds := by
  rw [mem_ends hw]
  refine exists_congr fun r => and_congr_right fun hr => ?_
  obtain ⟨hsource, hdestination⟩ := hm.declared r hr
  simp [Relationship.mem_statedEnds, hsource, hdestination]

theorem closed (hw : m.WellFormed) (hm : m.Separable) :
    ∀ x ∈ allEnds (m.toDescriptors start), '(' ∉ x.descriptor.name.toList := by
  intro x hx
  obtain ⟨r, hr, hends⟩ := (mem_ends hw).mp hx
  rcases hends with ⟨-, rfl⟩ | ⟨-, -, rfl⟩
  · exact InjectedField.name_closed _
  · change '(' ∉ r.destinationField.name.toList
    cases hfield : r.injectedInDestination with
    | none =>
      have hlower := isUncapitalized_lowerFirst (hm.capitalized hr).1
      simpa [Relationship.destinationField, hfield] using
        (plain_of_isWord (isWord_of_isIdentifierFrom hlower)).1
    | some field => simpa [Relationship.destinationField, hfield] using
        InjectedField.name_closed field

theorem relationship_unique (hm : m.Separable) (hr : r ∈ m.relationships.toList)
    (hs : s ∈ m.relationships.toList) (he : e ∈ r.statedEnds) (he' : e ∈ s.statedEnds) : r = s :=
  eq_of_nodup_flatMap hm.distinct hr hs (List.mem_map_of_mem he) (List.mem_map_of_mem he')

theorem sourceEnd_names (hw : m.WellFormed) (hm : m.Separable) (hr : r ∈ m.relationships.toList) :
    r.sourceEnd.Names (m.toDescriptors start) f ↔
      f.entity = r.destination ∧ f.descriptor.name = lowerFirst r.destinationField.name := by
  have htarget : resolveTarget (m.toDescriptors start) r.sourceEnd.descriptor.otherEntity =
      some r.destination :=
    resolveTarget_toDescriptors hw (hm.declared r hr).2 (hm.capitalized hr).2
  have hname : r.sourceEnd.descriptor.otherName = some (lowerFirst r.destinationField.name) := rfl
  simp only [RelationshipEnd.Names, htarget, hname, Option.some.injEq, eq_comm]

/-- Crossing relationships are those whose source ends claim each other. -/
theorem crosses_iff (hw : m.WellFormed) (hm : m.Separable) (hr : r ∈ m.relationships.toList)
    (hs : s ∈ m.relationships.toList) (hne : r ≠ s) :
    r.Crosses s ↔ r.sourceEnd.Claims (m.toDescriptors start) s.sourceEnd := by
  have he : r.sourceEnd ∈ allEnds (m.toDescriptors start) :=
    (hm.mem_allEnds hw).mpr ⟨r, hr, r.sourceEnd_mem⟩
  have hf : s.sourceEnd ∈ allEnds (m.toDescriptors start) :=
    (hm.mem_allEnds hw).mpr ⟨s, hs, s.sourceEnd_mem⟩
  rw [(hm.tidy hw start).claims_iff he hf, hm.sourceEnd_names hw hr, hm.sourceEnd_names hw hs]
  constructor
  · rintro ⟨-, hsource, hdestination, hcard, hnamed, hback⟩
    exact ⟨⟨hsource, hnamed⟩, ⟨hdestination.symm, hback⟩, hcard⟩
  · rintro ⟨⟨hsource, hnamed⟩, ⟨hdestination, hback⟩, hcard⟩
    exact ⟨hne, hsource, hdestination.symm, hcard, hnamed, hback⟩

theorem eq_sourceEnd_of_claims (hw : m.WellFormed) (hm : m.Separable)
    (hr : r ∈ m.relationships.toList)
    (he : r.destinationEnd ∈ allEnds (m.toDescriptors start))
    (hf : f ∈ allEnds (m.toDescriptors start))
    (h : r.destinationEnd.Claims (m.toDescriptors start) f) : f = r.sourceEnd := by
  have htidy := hm.tidy hw start
  obtain ⟨⟨htarget, hname⟩, -⟩ := (htidy.claims_iff he hf).mp h
  have htarget' : resolveTarget (m.toDescriptors start) r.destinationEnd.descriptor.otherEntity =
      some r.source := resolveTarget_toDescriptors hw (hm.declared r hr).1 (hm.capitalized hr).1
  refine htidy.keyed.end_unique hf ((hm.mem_allEnds hw).mpr ⟨r, hr, r.sourceEnd_mem⟩)
    (Prod.ext ?_ ?_)
  · exact Option.some.inj (htarget.symm.trans htarget')
  · exact (Option.some.inj hname).symm

/-- Ends of different relationships that claim each other are source ends, and these cross. -/
theorem crosses_of_claims (hw : m.WellFormed) (hm : m.Separable)
    (hr : r ∈ m.relationships.toList) (hs : s ∈ m.relationships.toList) (hne : r ≠ s)
    (he : e ∈ r.statedEnds) (hf : f ∈ s.statedEnds) (h : e.Claims (m.toDescriptors start) f) :
    e = r.sourceEnd ∧ f = s.sourceEnd ∧ r.Crosses s := by
  have hemem : e ∈ allEnds (m.toDescriptors start) := (hm.mem_allEnds hw).mpr ⟨r, hr, he⟩
  have hfmem : f ∈ allEnds (m.toDescriptors start) := (hm.mem_allEnds hw).mpr ⟨s, hs, hf⟩
  rcases Relationship.mem_statedEnds.mp he with rfl | ⟨-, rfl⟩
  · rcases Relationship.mem_statedEnds.mp hf with rfl | ⟨-, rfl⟩
    · exact ⟨rfl, rfl, (hm.crosses_iff hw hr hs hne).mpr h⟩
    · have hsame := hm.eq_sourceEnd_of_claims hw hs hfmem hemem
        ((hm.tidy hw start).claims_symm hemem hfmem h)
      exact absurd (hm.relationship_unique hr hs he (hsame ▸ s.sourceEnd_mem)) hne
  · have hsame := hm.eq_sourceEnd_of_claims hw hr hemem hfmem h
    exact absurd (hm.relationship_unique hr hs (hsame ▸ r.sourceEnd_mem) hf) hne

theorem free_iff (hw : m.WellFormed) (hm : m.Separable) (hr : r ∈ m.relationships.toList)
    (hentry : r.hasDestinationEntry = false) :
    r.sourceEnd.Free (m.toDescriptors start) ↔ ∀ s ∈ m.relationships.toList, ¬ r.Crosses s := by
  constructor
  · intro hfree s hs hcrosses
    have hsame := hfree s.sourceEnd ((hm.mem_allEnds hw).mpr ⟨s, hs, s.sourceEnd_mem⟩)
      ((hm.crosses_iff hw hr hs hcrosses.other).mp hcrosses)
    exact hcrosses.other (hm.relationship_unique hr hs (hsame ▸ r.sourceEnd_mem) s.sourceEnd_mem)
  · intro hnone f hf hclaims
    obtain ⟨s, hs, hmem⟩ := (hm.mem_allEnds hw).mp hf
    by_cases hne : r = s
    · subst hne
      simpa [Relationship.mem_statedEnds, hentry] using hmem
    · exact absurd (hm.crosses_of_claims hw hr hs hne r.sourceEnd_mem hmem hclaims).2.2 (hnone s hs)

section Read
variable {m' : Model} {p : PairedEnds}

theorem mem_read (hread : (m.toDescriptors start).toModel = .ok m') {t : Relationship}
    (ht : t ∈ m'.relationships.toList) :
    ∃ p ∈ pairEnds (m.toDescriptors start), p.relationship = t := by
  rw [Descriptors.toModel_relationships hread] at ht
  rcases RelationshipTable.mem_toList_addAll ht with ht | ht
  · simp [RelationshipTable.toList_empty] at ht
  · exact mem_pairRelationships.mp ht

theorem unbraced_name (hw : m.WellFormed) (hm : m.Separable) {name : String}
    (hname : name ∈ (m.toDescriptors start).keys ∨ name = userEntityName) : Unbraced name := by
  rcases hname with hkey | rfl
  · rw [keys_toDescriptors hw] at hkey
    exact unbraced_of_isIdentifierFrom (hm.names _ hkey).1
  · decide

theorem exists_sameEnds (hw : m.WellFormed) (hm : m.Separable)
    (hread : (m.toDescriptors start).toModel = .ok m')
    (hp : p ∈ pairEnds (m.toDescriptors start)) {f : String}
    (hf : p.relationship.injectedInSource = some f) (hsource : Unbraced f)
    (hdestination : ∀ d ∈ p.relationship.injectedInDestination, Unbraced d) :
    ∃ t ∈ m'.relationships.toList, t.SameEnds p.relationship := by
  have hnames : ∀ q ∈ pairEnds (m.toDescriptors start),
      Unbraced q.relationship.source ∧ Unbraced q.relationship.destination := fun q hq =>
    ⟨hm.unbraced_name hw (.inl (pair_directed hq).1), hm.unbraced_name hw (pair_directed hq).2.1⟩
  have hheld := RelationshipTable.id_held_addAll RelationshipTable.keyed_empty
    (mem_pairRelationships.mpr ⟨p, hp, rfl⟩)
  rw [← Descriptors.toModel_relationships hread] at hheld
  obtain ⟨t, ht, hid⟩ := hheld
  obtain ⟨q, hq, rfl⟩ := mem_read hread ht
  obtain ⟨x, -, -, -, hg⟩ := q.relationship_source
  obtain ⟨hcard, hends, hfg, hends', hinjected⟩ := Relationship.eq_ends_of_id_eq_unbraced hf hg
    ⟨(hnames p hp).1, hsource, (hnames p hp).2, hdestination⟩ (hnames q hq) hid.symm
  exact ⟨_, ht, hcard.symm, hends.symm, by rw [hf, hg, hfg], hends'.symm, hinjected.symm⟩

theorem exists_represents (hw : m.WellFormed) (hm : m.Separable)
    (hread : (m.toDescriptors start).toModel = .ok m') {n k : Nat}
    (hp : .joined n e k f ∈ pairEnds (m.toDescriptors start)) (he : Unbraced e.injectedText)
    (hf : Unbraced f.injectedText) :
    ∃ t ∈ m'.relationships.toList, t.Represents e ∧ t.Represents f := by
  obtain ⟨t, ht, hsame⟩ := hm.exists_sameEnds hw hread hp rfl he (by rintro _ ⟨⟩; exact hf)
  exact ⟨t, ht, .inl ⟨hsame.source, hsame.injectedInSource⟩,
    .inr ⟨hsame.destination, hsame.injectedInDestination⟩⟩

/-- A one-way relationship without a one-to-many side is read back unless another one crosses. -/
theorem comes_back_iff (hw : m.WellFormed) (hm : m.Separable)
    (hread : (m.toDescriptors start).toModel = .ok m') (hr : r ∈ m.relationships.toList)
    (howner : r.cardinality.hasOwnerSide = true) (hone : r.injectedInDestination = none) :
    (∃ t ∈ m'.relationships.toList, t.SameEnds r) ↔
      ∀ s ∈ m.relationships.toList, ¬ r.Crosses s := by
  have htidy := hm.tidy hw start
  obtain ⟨f, hf, hplain⟩ := hm.plain r hr
  have htext := Relationship.sourceEnd_text_of_uncapitalized hf hplain
  have hsource : r.sourceEnd ∈ allEnds (m.toDescriptors start) :=
    (hm.mem_allEnds hw).mpr ⟨r, hr, r.sourceEnd_mem⟩
  have hentry : r.hasDestinationEntry = false := by
    cases hcard : r.cardinality <;>
      simp [Relationship.hasDestinationEntry, hone, hcard, Cardinality.hasOwnerSide] at howner ⊢
  rw [show (∀ s ∈ m.relationships.toList, ¬ r.Crosses s) ↔
    r.sourceEnd.Free (m.toDescriptors start) from (hm.free_iff hw hr hentry).symm]
  constructor
  · rintro ⟨t, ht, hsame⟩
    obtain ⟨p, hp, rfl⟩ := mem_read hread ht
    cases p with
    | alone n e target =>
      obtain ⟨he, -, hfree⟩ := pair_alone htidy hp
      have hfield : some e.injectedText = some f := hsame.injectedInSource.trans hf
      have hend : e = r.sourceEnd := htidy.keyed.end_of_text (hm.closed hw) he hsource hsame.source
        ((Option.some.inj hfield).trans htext.symm)
      exact hend ▸ hfree
    | joined n e k g =>
      have hfield : some g.injectedText = none := hsame.injectedInDestination.trans hone
      simp at hfield
  · intro hfree
    have htarget : resolveTarget (m.toDescriptors start) r.sourceEnd.descriptor.otherEntity =
        some r.destination :=
      resolveTarget_toDescriptors hw (hm.declared r hr).2 (hm.capitalized hr).2
    obtain ⟨n, hp⟩ := alone_of_free htidy hsource htarget hfree
    obtain ⟨t, ht, hsame⟩ := hm.exists_sameEnds hw hread hp (congrArg some htext)
      (unbraced_of_isIdentifierFrom hplain) (by rintro _ ⟨⟩)
    exact ⟨t, ht, hsame.cardinality, hsame.source,
      hsame.injectedInSource.trans ((congrArg some htext).trans hf.symm), hsame.destination,
      hsame.injectedInDestination.trans hone.symm⟩

/-- Two relationships are read as one exactly if they cross. -/
theorem merged_iff (hw : m.WellFormed) (hm : m.Separable)
    (hread : (m.toDescriptors start).toModel = .ok m') (hr : r ∈ m.relationships.toList)
    (hs : s ∈ m.relationships.toList) (hne : r ≠ s) :
    (∃ t ∈ m'.relationships.toList, (∃ e ∈ r.statedEnds, t.Represents e) ∧
      ∃ f ∈ s.statedEnds, t.Represents f) ↔ r.Crosses s := by
  have htidy := hm.tidy hw start
  have hstated : ∀ {t x}, t ∈ m.relationships.toList → x ∈ t.statedEnds →
      x ∈ allEnds (m.toDescriptors start) := fun ht hx => (hm.mem_allEnds hw).mpr ⟨_, ht, hx⟩
  constructor
  · rintro ⟨t, ht, ⟨e, he, hte⟩, ⟨f, hf, htf⟩⟩
    obtain ⟨p, hp, rfl⟩ := mem_read hread ht
    have hmember := member_of_represents htidy.keyed (hm.closed hw) hp (hstated hr he) hte
    have hmember' := member_of_represents htidy.keyed (hm.closed hw) hp (hstated hs hf) htf
    have hends : e ≠ f := fun heq => hne (hm.relationship_unique hr hs he (heq ▸ hf))
    have hclaims : e.Claims (m.toDescriptors start) f := by
      cases p with
      | alone n x target =>
        have hx : e = x := by simpa [PairedEnds.members] using hmember
        have hx' : f = x := by simpa [PairedEnds.members] using hmember'
        exact absurd (hx.trans hx'.symm) hends
      | joined n x k y =>
        obtain ⟨⟨hx, hy, -⟩, hxy, -⟩ := pair_joined htidy hp
        have hside : e = x ∨ e = y := by simpa [PairedEnds.members] using hmember
        have hside' : f = x ∨ f = y := by simpa [PairedEnds.members] using hmember'
        rcases hside with rfl | rfl <;> rcases hside' with rfl | rfl
        · exact absurd rfl hends
        · exact hxy
        · exact htidy.claims_symm hx hy hxy
        · exact absurd rfl hends
    exact (hm.crosses_of_claims hw hr hs hne he hf hclaims).2.2
  · intro hcrosses
    obtain ⟨f, hf, hplain⟩ := hm.plain r hr
    obtain ⟨g, hg, hplain'⟩ := hm.plain s hs
    have htext := Relationship.sourceEnd_text_of_uncapitalized hf hplain
    have htext' := Relationship.sourceEnd_text_of_uncapitalized hg hplain'
    have hunbraced : Unbraced r.sourceEnd.injectedText ∧ Unbraced s.sourceEnd.injectedText := by
      rw [htext, htext']
      exact ⟨unbraced_of_isIdentifierFrom hplain, unbraced_of_isIdentifierFrom hplain'⟩
    have hends : r.sourceEnd ≠ s.sourceEnd := fun heq =>
      hne (hm.relationship_unique hr hs (heq ▸ r.sourceEnd_mem) s.sourceEnd_mem)
    obtain ⟨n, k, hp | hp⟩ := joined_of_claims htidy (hstated hr r.sourceEnd_mem)
      (hstated hs s.sourceEnd_mem) ((hm.crosses_iff hw hr hs hne).mp hcrosses) hends
    · obtain ⟨t, ht, htr, hts⟩ := hm.exists_represents hw hread hp hunbraced.1 hunbraced.2
      exact ⟨t, ht, ⟨_, r.sourceEnd_mem, htr⟩, ⟨_, s.sourceEnd_mem, hts⟩⟩
    · obtain ⟨t, ht, hts, htr⟩ := hm.exists_represents hw hread hp hunbraced.2 hunbraced.1
      exact ⟨t, ht, ⟨_, r.sourceEnd_mem, htr⟩, ⟨_, s.sourceEnd_mem, hts⟩⟩

end Read

end Model.Separable

namespace Model

/-- What reading the descriptors of `m` makes of its relationships. -/
structure ReadApart (m m' : Model) : Prop where
  /-- A one-way relationship without a one-to-many side comes back exactly if no other crosses. -/
  comesBack : ∀ r ∈ m.relationships.toList, r.cardinality.hasOwnerSide = true →
    r.injectedInDestination = none → ((∃ t ∈ m'.relationships.toList, t.SameEnds r) ↔
      ∀ s ∈ m.relationships.toList, ¬ r.Crosses s)
  /-- Two relationships are merged into one exactly if they cross. -/
  merged : ∀ r ∈ m.relationships.toList, ∀ s ∈ m.relationships.toList, r ≠ s →
    ((∃ t ∈ m'.relationships.toList, (∃ e ∈ r.statedEnds, t.Represents e) ∧
      ∃ f ∈ s.statedEnds, t.Represents f) ↔ r.Crosses s)

/-- The descriptors of a separable model are read, and only crossing relationships are merged. -/
theorem oneWay_roundTrip {m : Model} (h : m.Reachable) (hm : m.Separable) (start : Int) :
    ∃ m', (m.toDescriptors start).toModel = .ok m' ∧ m.ReadApart m' := by
  have hw := h.wellFormed
  have huser : userEntityName ∉ m.entities.keys := fun hmem => (hm.names _ hmem).2 rfl
  obtain ⟨m', hread⟩ := toModel_toDescriptors_succeeds hw huser start
  exact ⟨m', hread, fun r hr howner hone => hm.comes_back_iff hw hread hr howner hone,
    fun r hr s hs hne => hm.merged_iff hw hread hr hs hne⟩

/-- The pets that an owner walks. -/
def walks : Relationship :=
  { Relationship.between .manyToMany "Owner" "Pet" with injectedInSource := some "dog" }

/-- The pet that an owner likes best. -/
def favourite : Relationship :=
  { Relationship.between .oneToOne "Owner" "Pet" with injectedInSource := some "pet" }

/-- The owner that a pet obeys. -/
def master : Relationship :=
  { Relationship.between .oneToOne "Pet" "Owner" with injectedInSource := some "owner" }

private theorem shelter_separable {l : List Relationship}
    (hends : ∀ r ∈ l, r.source ∈ ["Owner", "Pet"] ∧ r.destination ∈ ["Owner", "Pet"])
    (hplain : ∀ r ∈ l, r.injectedInSource.any isUncapitalized = true)
    (hdistinct : ((shelter l).relationships.toList.flatMap fun r =>
      r.statedEnds.map RelationshipEnd.key).Nodup) : (shelter l).Separable := by
  have hnames : ∀ name ∈ ["Owner", "Pet"],
      isCapitalized name = true ∧ name ≠ userEntityName := by decide
  have hmem : ∀ r ∈ (shelter l).relationships.toList, r ∈ l := by
    intro r hr
    rcases RelationshipTable.mem_toList_addAll hr with hr | hr
    · simp [RelationshipTable.toList_empty] at hr
    · exact hr
  refine ⟨hnames, fun r hr => hends r (hmem r hr), fun r hr => ?_, hdistinct⟩
  obtain ⟨f, hf, hplain⟩ := (Option.any_eq_true _ _).mp (hplain r (hmem r hr))
  exact ⟨f, hf, hplain⟩

theorem shelter_oneWay : (shelter [friends, walks, favourite, master]).Reachable ∧
    (shelter [friends, walks, favourite, master]).Separable ∧ favourite.Crosses master ∧
    ∃ m', ((shelter [friends, walks, favourite, master]).toDescriptors 0).toModel = .ok m' ∧
      (shelter [friends, walks, favourite, master]).ReadApart m' := by
  have hreach := shelter_reachable (l := [friends, walks, favourite, master]) (by decide)
  have hseparable : (shelter [friends, walks, favourite, master]).Separable :=
    shelter_separable (by decide) (by decide) (by decide +kernel)
  exact ⟨hreach, hseparable, ⟨by decide, rfl, rfl, rfl, by decide +kernel, by decide +kernel⟩,
    oneWay_roundTrip hreach hseparable 0⟩

/-- Two one-way relationships that each bear the name of the other's source are not kept apart. -/
theorem crossing_merged : ¬ ∀ m : Model, m.Reachable → m.Separable → ∀ start, ∃ m',
    (m.toDescriptors start).toModel = .ok m' ∧
      (∀ r ∈ m.relationships.toList, r.cardinality.hasOwnerSide = true →
        r.injectedInDestination = none → ∃ t ∈ m'.relationships.toList, t.SameEnds r) ∧
      ∀ r ∈ m.relationships.toList, ∀ s ∈ m.relationships.toList, r ≠ s →
        ¬ ∃ t ∈ m'.relationships.toList, (∃ e ∈ r.statedEnds, t.Represents e) ∧
          ∃ f ∈ s.statedEnds, t.Represents f := by
  intro hclaim
  have hreach := shelter_reachable (l := [favourite, master]) (by decide)
  have hseparable : (shelter [favourite, master]).Separable :=
    shelter_separable (by decide) (by decide) (by decide +kernel)
  obtain ⟨m', hread, hback, -⟩ := hclaim _ hreach hseparable 0
  have hmem : favourite ∈ (shelter [favourite, master]).relationships.toList := by decide
  have hnone := (hseparable.comes_back_iff hreach.wellFormed hread hmem rfl rfl).mp
    (hback favourite hmem rfl rfl)
  exact hnone master (by decide)
    ⟨by decide, rfl, rfl, rfl, by decide +kernel, by decide +kernel⟩

end Model
end DomainModel
