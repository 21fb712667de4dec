import DomainModel.Proofs.Pairing.Mates
/-!
# Relationships read back

Converting a model to descriptors and reading these gives its relationships back in normal form:
every relationship again, and no other.
-/
namespace DomainModel

namespace Relationship

/-- The relationship seen from its other end. -/
def flipped (r : Relationship) : Relationship where
  cardinality := r.cardinality.reversed
  source := r.destination
  destination := r.source
  injectedInSource := r.injectedInDestination
  injectedInDestination := r.injectedInSource
  requiredInSource := r.requiredInDestination
  requiredInDestination := r.requiredInSource
  commentInSource := r.commentInDestination
  commentInDestination := r.commentInSource
  ownerSide := r.ownerSide

/-- A many-to-one relationship with fields in both ends is told from its one-to-many side. -/
def oriented (r : Relationship) : Relationship :=
  if r.isMutual = true ∧ r.cardinality = .manyToOne then r.flipped else r

/-- Flags only say that a field is required, and no end is told to own the join. -/
def plain (r : Relationship) : Relationship :=
  { r with
    requiredInSource := if r.requiredInSource = some true then some true else none
    requiredInDestination := if r.requiredInDestination = some true then some true else none
    ownerSide := none }

/-- Nothing is said about the field of a destination that has none. -/
def withoutBareEnd (r : Relationship) : Relationship :=
  if r.injectedInDestination.isSome then r
  else { r with commentInDestination := none, requiredInDestination := none }

/-- What descriptors keep of a relationship. -/
def normalized (r : Relationship) : Relationship := r.oriented.plain.withoutBareEnd

variable {m : Model} {start : Int} {r s : Relationship}

theorem normalized_of_oneWay (hmutual : r.isMutual = false)
    (hsource : r.injectedInSource.isSome = true) :
    r.normalized =
      { r.plain with commentInDestination := none, requiredInDestination := none } := by
  have hnone : r.injectedInDestination.isSome = false := by
    simpa [isMutual, hsource] using hmutual
  simp [normalized, oriented, hmutual, withoutBareEnd, plain, hnone]

theorem normalized_of_ahead (hmutual : r.isMutual = true)
    (hcard : r.cardinality ≠ .manyToOne) : r.normalized = r.plain := by
  have hsome := (Bool.and_eq_true_iff.mp hmutual).2
  simp [normalized, oriented, hcard, withoutBareEnd, plain, hsome]

theorem normalized_of_behind (hmutual : r.isMutual = true)
    (hcard : r.cardinality = .manyToOne) : r.normalized = r.flipped.plain := by
  have hsome := (Bool.and_eq_true_iff.mp hmutual).1
  simp [normalized, oriented, hmutual, hcard, withoutBareEnd, plain, flipped, hsome]

theorem Regular.normalized_source (h : r.Regular m) : ∃ f, r.normalized.injectedInSource = some f ∧
    InjectedField.Written f ∧
    (r.normalized.source, (InjectedField.ofText f).name) ∈ r.endNames := by
  obtain ⟨f, hf, hwritten⟩ := h.sourceWritten
  cases hmutual : r.isMutual with
  | false =>
    rw [normalized_of_oneWay hmutual (by simp [hf])]
    exact ⟨f, hf, hwritten, by simp [endNames, plain, hf]⟩
  | true =>
    by_cases hcard : r.cardinality = .manyToOne
    · obtain ⟨g, hg⟩ := Option.isSome_iff_exists.mp (Bool.and_eq_true_iff.mp hmutual).2
      rw [normalized_of_behind hmutual hcard]
      exact ⟨g, hg, h.destinationWritten g hg, by simp [endNames, plain, flipped, hg]⟩
    · rw [normalized_of_ahead hmutual hcard]
      exact ⟨f, hf, hwritten, by simp [endNames, plain, hf]⟩

private theorem normalized_ends (r : Relationship) :
    (r.normalized.source = r.source ∧ r.normalized.destination = r.destination) ∨
      (r.normalized.source = r.destination ∧ r.normalized.destination = r.source) := by
  have hbare : ∀ s : Relationship, s.withoutBareEnd.source = s.source ∧
      s.withoutBareEnd.destination = s.destination := by
    intro s
    unfold withoutBareEnd
    split <;> exact ⟨rfl, rfl⟩
  rw [normalized, (hbare _).1, (hbare _).2]
  unfold oriented
  split
  · exact .inr ⟨rfl, rfl⟩
  · exact .inl ⟨rfl, rfl⟩

end Relationship

namespace Model
variable {m : Model} {start : Int} {r s : Relationship}

theorem Describable.relationship_unique (hm : m.Describable) (hr : r ∈ m.relationships.toList)
    (hs : s ∈ m.relationships.toList) {key : String × String} (hkey : key ∈ r.endNames)
    (hkey' : key ∈ s.endNames) : r = s :=
  eq_of_nodup_flatMap hm.distinct hr hs hkey hkey'

theorem Describable.eq_of_normalized_id_eq (hm : m.Describable) (hr : r ∈ m.relationships.toList)
    (hs : s ∈ m.relationships.toList) (hid : r.normalized.id = s.normalized.id) : r = s := by
  have hname : ∀ t ∈ m.relationships.toList, Unbraced t.source ∧ Unbraced t.destination := by
    intro t ht
    have hregular := hm.regular t ht
    have hkey : ∀ name ∈ m.entities.keys, Unbraced name := fun name hname =>
      unbraced_of_isIdentifierFrom (hm.names name hname).1
    refine ⟨hkey _ hregular.source, ?_⟩
    rcases hregular.destination with hdeclared | ⟨-, huser⟩
    · exact hkey _ hdeclared
    · rw [huser]
      decide
  have hparts : ∀ t ∈ m.relationships.toList,
      Unbraced t.normalized.source ∧ Unbraced t.normalized.destination := by
    intro t ht
    rcases t.normalized_ends with ⟨hsource, hdestination⟩ | ⟨hsource, hdestination⟩
    · exact ⟨hsource ▸ (hname t ht).1, hdestination ▸ (hname t ht).2⟩
    · exact ⟨hsource ▸ (hname t ht).2, hdestination ▸ (hname t ht).1⟩
  have hfield : ∀ f, InjectedField.Written f → Unbraced f := by
    rintro _ ⟨f, hf, rfl⟩
    exact hf.unbraced_text
  obtain ⟨f, hf, hfwritten, hfkey⟩ := (hm.regular r hr).normalized_source
  obtain ⟨g, hg, hgwritten, hgkey⟩ := (hm.regular s hs).normalized_source
  obtain ⟨-, hsource, hfg, -, -⟩ := Relationship.eq_ends_of_id_eq hf hg
    ⟨(hparts r hr).1, hfield f hfwritten, (hparts r hr).2⟩
    ⟨(hparts s hs).1, hfield g hgwritten, (hparts s hs).2⟩ hid
  rw [← hsource, ← hfg] at hgkey
  exact hm.relationship_unique hr hs hfkey hgkey

theorem Describable.sourceEnd_target (hw : m.WellFormed) (hm : m.Describable)
    (hr : r ∈ m.relationships.toList) :
    resolveTarget (m.toDescriptors start) r.sourceEnd.descriptor.otherEntity =
      some r.destination := by
  change resolveTarget (m.toDescriptors start) (lowerFirst r.destination) = some r.destination
  rcases (hm.regular r hr).destination with hdeclared | ⟨-, huser⟩
  · exact resolveTarget_toDescriptors hw hdeclared (hm.names _ hdeclared).1
  · have hupper : upperFirst (lowerFirst userEntityName) = userEntityName :=
      upperFirst_lowerFirst (by decide)
    simp [resolveTarget, huser, hupper, Entity.isUser]

open PairingState in
private theorem joined_sides (hm : m.Describable) {n k : Nat} {e f : RelationshipEnd}
    (hmates : Mates m e f)
    (hside : otherIsSource e f = false ∨ otherIsSource f e = true) :
    ∃ r ∈ m.relationships.toList, r.isMutual = true ∧
      (PairedEnds.joined n e k f).relationship = r.normalized ∧
      ((e = r.sourceEnd ∧ f = r.destinationEnd) ∨ (e = r.destinationEnd ∧ f = r.sourceEnd)) := by
  obtain ⟨r, hr, hmutual, hends⟩ := hmates
  have hregular := hm.regular r hr
  have hsource := hregular.sourceEnd_injectedText
  have hdestination := hregular.destinationEnd_injectedText hmutual
  refine ⟨r, hr, hmutual, ?_, hends⟩
  rcases hends with ⟨rfl, rfl⟩ | ⟨rfl, rfl⟩
  · have hcard : r.cardinality ≠ .manyToOne := by
      intro hcard
      simp [otherIsSource, Relationship.sourceEnd, Relationship.destinationEnd, hcard,
        Cardinality.reversed, Cardinality.hasOwnerSide] at hside
    rw [Relationship.normalized_of_ahead hmutual hcard]
    simp only [PairedEnds.relationship, hsource, hdestination,
      Relationship.sourceEnd_requiredFlag, Relationship.destinationEnd_requiredFlag]
    rfl
  · have hcard : r.cardinality = .manyToOne := by
      cases hcard : r.cardinality <;>
        simp [otherIsSource, Relationship.sourceEnd, Relationship.destinationEnd, hcard,
          Cardinality.reversed, Cardinality.hasOwnerSide, RelationshipEnd.isOwner,
          Relationship.sourceEntry, Relationship.destinationEntry] at hside ⊢
    rw [Relationship.normalized_of_behind hmutual hcard]
    simp only [PairedEnds.relationship, hsource, hdestination,
      Relationship.sourceEnd_requiredFlag, Relationship.destinationEnd_requiredFlag]
    rfl

/-- Every pair found among the stated ends is a relationship of the model in normal form, and
consists of the ends that are stated for it. -/
theorem relationship_of_pair (hw : m.WellFormed) (hm : m.Describable) {p : PairedEnds}
    (hp : p ∈ pairEnds (m.toDescriptors start)) :
    ∃ r ∈ m.relationships.toList, p.relationship = r.normalized ∧
      ∀ e, e ∈ p.members.map Prod.fst ↔ e ∈ r.statedEnds := by
  cases p with
  | alone n e target =>
    obtain ⟨he, hsound, -⟩ := pair_alone (hm.tidy hw start) hp
    have hfree := unmated_of_alone hw hm hp
    obtain ⟨r, hr, hmutual, rfl⟩ := oneWay_of_unmated hw hm he hfree
    have hregular := hm.regular r hr
    obtain ⟨f, hf, -⟩ := hregular.sourceWritten
    have htarget : target = r.destination :=
      Option.some.inj (hsound.symm.trans (hm.sourceEnd_target hw hr))
    have hnone : r.injectedInDestination = none := by
      simpa [Relationship.isMutual, hf] using hmutual
    refine ⟨r, hr, ?_, ?_⟩
    · rw [Relationship.normalized_of_oneWay hmutual (by simp [hf])]
      simp only [PairedEnds.relationship, hregular.sourceEnd_injectedText, htarget,
        Relationship.sourceEnd_requiredFlag, Relationship.between, Relationship.plain, hnone]
      rfl
    · simp [PairedEnds.members, hregular.statedEnds_eq, hmutual]
  | joined n e k f =>
    obtain ⟨⟨he, hf, -⟩, hclaims, hside⟩ := pair_joined (hm.tidy hw start) hp
    obtain ⟨r, hr, hmutual, hrelationship, hends⟩ :=
      joined_sides hm (mates_of_claims hw hm he hf hclaims) hside
    refine ⟨r, hr, hrelationship, fun x => ?_⟩
    rw [(hm.regular r hr).statedEnds_eq, if_pos hmutual]
    rcases hends with ⟨rfl, rfl⟩ | ⟨rfl, rfl⟩
    · simp [PairedEnds.members]
    · simp [PairedEnds.members, or_comm]

theorem Describable.relationship_of_end (hm : m.Describable) (hr : r ∈ m.relationships.toList)
    (hs : s ∈ m.relationships.toList) {e : RelationshipEnd} (he : e ∈ r.statedEnds)
    (he' : e ∈ s.statedEnds) : r = s := by
  have hkey : e.key ∈ r.endNames :=
    (hm.regular r hr).keys_statedEnds ▸ List.mem_map_of_mem he
  have hkey' : e.key ∈ s.endNames :=
    (hm.regular s hs).keys_statedEnds ▸ List.mem_map_of_mem he'
  exact hm.relationship_unique hr hs hkey hkey'

theorem exists_pair (hw : m.WellFormed) (hm : m.Describable) (hr : r ∈ m.relationships.toList) :
    ∃ p ∈ pairEnds (m.toDescriptors start), p.relationship = r.normalized ∧
      ∀ e, e ∈ p.members.map Prod.fst ↔ e ∈ r.statedEnds := by
  have he : r.sourceEnd ∈ allEnds (m.toDescriptors start) :=
    (mem_ends hw).mpr ⟨r, hr, .inl ⟨(hm.regular r hr).source, rfl⟩⟩
  obtain ⟨p, hp, n, hmember⟩ := member_of_pair he (by rw [hm.sourceEnd_target hw hr]; rfl)
  obtain ⟨r', hr', hrelationship, hends⟩ := relationship_of_pair hw hm hp
  obtain rfl := hm.relationship_of_end hr hr' List.mem_cons_self
    ((hends _).mp (List.mem_map_of_mem hmember))
  exact ⟨p, hp, hrelationship, hends⟩

/-- The paired ends of the descriptors of a model are its relationships in normal form. -/
theorem mem_pairRelationships_toDescriptors (hw : m.WellFormed) (hm : m.Describable) :
    s ∈ pairRelationships (m.toDescriptors start) ↔
      ∃ r ∈ m.relationships.toList, s = r.normalized := by
  constructor
  · intro hs
    obtain ⟨p, hp, rfl⟩ := List.mem_map.mp hs
    obtain ⟨r, hr, hrelationship, -⟩ := relationship_of_pair hw hm hp
    exact ⟨r, hr, hrelationship⟩
  · rintro ⟨r, hr, rfl⟩
    obtain ⟨p, hp, hrelationship, -⟩ := exists_pair hw hm hr
    exact List.mem_map.mpr ⟨p, hp, hrelationship⟩

/-- The descriptors of a describable model are read back to its relationships in normal form. -/
theorem relationships_roundTrip (h : m.Reachable) (hm : m.Describable) (start : Int) :
    ∃ m', (m.toDescriptors start).toModel = .ok m' ∧
      ∀ s, s ∈ m'.relationships.toList ↔ ∃ r ∈ m.relationships.toList, s = r.normalized := by
  have hw := h.wellFormed
  have huser : userEntityName ∉ m.entities.keys := fun hmem => (hm.names _ hmem).2 rfl
  obtain ⟨m', hread⟩ := toModel_toDescriptors_succeeds hw huser start
  refine ⟨m', hread, fun s => ?_⟩
  have hread_mem : ∀ t ∈ m'.relationships.toList,
      ∃ r ∈ m.relationships.toList, t = r.normalized := by
    intro t ht
    rw [Descriptors.toModel_relationships hread] at ht
    rcases RelationshipTable.mem_toList_addAll ht with ht | ht
    · simp [RelationshipTable.toList_empty] at ht
    · exact (mem_pairRelationships_toDescriptors hw hm).mp ht
  constructor
  · exact hread_mem s
  · rintro ⟨r, hr, rfl⟩
    -- the identity of a normal form is held, and only by that normal form
    have hpaired : r.normalized ∈ pairRelationships (m.toDescriptors start) :=
      (mem_pairRelationships_toDescriptors hw hm).mpr ⟨r, hr, rfl⟩
    have hheld := RelationshipTable.id_held_addAll RelationshipTable.keyed_empty hpaired
    rw [← Descriptors.toModel_relationships hread] at hheld
    obtain ⟨t, ht, hid⟩ := hheld
    obtain ⟨r', hr', rfl⟩ := hread_mem t ht
    rwa [hm.eq_of_normalized_id_eq hr hr' hid.symm]

/-- Two entities with the given relationships. -/
def shelter (relationships : List Relationship) : Model :=
  { (∅ : Model) with
    entities := ((∅ : Table String Entity).insert "Owner" (.named "Owner")).insert "Pet"
      (.named "Pet")
    relationships := (∅ : RelationshipTable).addAll relationships }

theorem shelter_reachable {l : List Relationship} (h : ∀ r ∈ l, r.problems = []) :
    (shelter l).Reachable := by
  have howner : Reachable _ := .entity .empty
    (addEntity_eq_ok.mpr ⟨(by decide : (Entity.named "Owner").problems = []), rfl⟩)
  have hpet : Reachable _ := .entity howner
    (addEntity_eq_ok.mpr ⟨(by decide : (Entity.named "Pet").problems = []), rfl⟩)
  exact hpet.relationships h

/-- The pets of an owner, told from their side. -/
def pets : Relationship :=
  { Relationship.between .manyToOne "Pet" "Owner" with
    injectedInSource := some "owner(name)", injectedInDestination := some "pet" }

def friends : Relationship :=
  { Relationship.between .manyToMany "Pet" "Pet" with
    injectedInSource := some "friend", injectedInDestination := some "admirer" }

def keeper : Relationship :=
  { Relationship.between .manyToOne "Pet" userEntityName with
    injectedInSource := some "keeper", requiredInSource := some true }

theorem shelter_roundTrip : (shelter [pets, friends, keeper]).Reachable ∧
    (shelter [pets, friends, keeper]).Describable ∧
    ∃ m', ((shelter [pets, friends, keeper]).toDescriptors 0).toModel = .ok m' ∧
      ∀ s, s ∈ m'.relationships.toList ↔
        ∃ r ∈ (shelter [pets, friends, keeper]).relationships.toList, s = r.normalized := by
  have hreach := shelter_reachable (l := [pets, friends, keeper]) (by decide)
  have hdescribable : (shelter [pets, friends, keeper]).Describable := by
    refine ⟨by decide, ?_, by decide⟩
    intro r hr
    have hr : r = pets ∨ r = friends ∨ r = keeper := by
      rcases RelationshipTable.mem_toList_addAll hr with hr | hr
      · simp [RelationshipTable.toList_empty] at hr
      · simpa using hr
    rcases hr with rfl | rfl | rfl
    · exact ⟨by decide, .inl (by decide), ⟨_, rfl, ⟨"owner", some "name"⟩, by decide, by decide⟩,
        by rintro _ ⟨⟩; exact ⟨⟨"pet", none⟩, by decide, rfl⟩, by decide⟩
    · exact ⟨by decide, .inl (by decide), ⟨_, rfl, ⟨"friend", none⟩, by decide, rfl⟩,
        by rintro _ ⟨⟩; exact ⟨⟨"admirer", none⟩, by decide, rfl⟩, by decide⟩
    · exact ⟨by decide, .inr (by decide), ⟨_, rfl, ⟨"keeper", none⟩, by decide, rfl⟩,
        by rintro _ ⟨⟩, by decide⟩
  exact ⟨hreach, hdescribable, relationships_roundTrip hreach hdescribable 0⟩

/-- The owner of a pet, with a remark on the other end, which has no field. -/
def remarked : Relationship :=
  { Relationship.between .manyToOne "Pet" "Owner" with
    injectedInSource := some "owner", commentInDestination := some "the pets of an owner" }

/-- What is said about a destination without a field is not read back. -/
theorem bareEnd_lost : ¬ ∀ m : Model, m.Reachable → m.Describable → ∀ start, ∃ m',
    (m.toDescriptors start).toModel = .ok m' ∧ ∀ s, s ∈ m'.relationships.toList ↔
      ∃ r ∈ m.relationships.toList, s = r.oriented.plain := by
  intro hclaim
  have hreach := shelter_reachable (l := [remarked]) (by decide)
  have hdescribable : (shelter [remarked]).Describable := by
    refine ⟨by decide, ?_, by decide⟩
    intro r hr
    have hr : r = remarked := by
      rcases RelationshipTable.mem_toList_addAll hr with hr | hr
      · simp [RelationshipTable.toList_empty] at hr
      · simpa using hr
    subst hr
    exact ⟨by decide, .inl (by decide), ⟨_, rfl, ⟨"owner", none⟩, by decide, rfl⟩,
      by rintro _ ⟨⟩, by decide⟩
  obtain ⟨m', hread, hmem⟩ := hclaim _ hreach hdescribable 0
  have hlist :
      ((shelter [remarked]).toDescriptors 0).toModel.map (fun m => m.relationships.toList) =
        .ok [remarked.normalized] := by decide +kernel
  have hread' : m'.relationships.toList = [remarked.normalized] := by
    simpa [hread, Except.map] using hlist
  have hstated : remarked ∈ m'.relationships.toList :=
    (hmem remarked).mpr ⟨remarked, by decide, by decide⟩
  rw [hread'] at hstated
  exact absurd hstated (by decide)

end Model
end DomainModel
