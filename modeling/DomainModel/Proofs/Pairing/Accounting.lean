import DomainModel.Proofs.Descriptors.Reading
import DomainModel.Proofs.Pairing.Run
import DomainModel.Proofs.Relationships.Identity
/-!
# Accounting for relationship ends

Reading descriptors neither loses, duplicates nor invents ends of relationships, whatever the ends
say about each other: they may dangle, repeat, contradict each other or lead back to themselves.
-/
namespace DomainModel

namespace Relationship

/-- The end stands in the relationship, at its source or at its destination, with its field. -/
def Represents (r : Relationship) (e : RelationshipEnd) : Prop :=
  (r.source = e.entity ∧ r.injectedInSource = some e.injectedText) ∨
    (r.destination = e.entity ∧ r.injectedInDestination = some e.injectedText)

end Relationship

/-- An end that is stated, and that leads to an entity or is claimed by an end that does. -/
def RelationshipEnd.Counted (entities : Descriptors) (e : RelationshipEnd) : Prop :=
  e ∈ allEnds entities ∧ ((resolveTarget entities e.descriptor.otherEntity).isSome = true ∨
    ∃ f ∈ allEnds entities, f.Claims entities e)

/-- No name of an entity or end, and no displayed field, has braces. -/
def Descriptors.Unbraced (entities : Descriptors) : Prop :=
  ∀ e ∈ entities.entries, DomainModel.Unbraced e.1 ∧ ∀ r ∈ e.2.relationships,
    DomainModel.Unbraced r.name ∧ ∀ f ∈ r.otherField, DomainModel.Unbraced f

instance (entities : Descriptors) : Decidable entities.Unbraced :=
  inferInstanceAs (Decidable (∀ e ∈ entities.entries, _))

/-- The account of the ends that descriptors state and of the relationships read from them. -/
structure EndsAccounted (entities : Descriptors) (relationships : List Relationship) : Prop where
  /-- An end of known type that leads to an entity stands in a relationship. -/
  kept : ∀ name d, (name, d) ∈ entities.entries → ∀ r ∈ d.relationships, ∀ c,
    Cardinality.ofDescriptorWord? r.type = some c →
      (resolveTarget entities r.otherEntity).isSome = true →
        ∃ s ∈ relationships, s.Represents ⟨name, c, r⟩
  /-- A field injected in a source is that of a counted end of the source. -/
  sourceStated : ∀ s ∈ relationships, ∀ f, s.injectedInSource = some f →
    ∃ e : RelationshipEnd, e.Counted entities ∧ e.entity = s.source ∧ e.injectedText = f
  /-- A field injected in a destination is that of a counted end of the destination. -/
  destinationStated : ∀ s ∈ relationships, ∀ f, s.injectedInDestination = some f →
    ∃ e : RelationshipEnd, e.Counted entities ∧ e.entity = s.destination ∧ e.injectedText = f
  /-- The relationships are made of pairs, a pair represents its members, and no stated end, told
  apart by its number, is a member twice. -/
  once : (∀ s ∈ relationships, ∃ p ∈ pairEnds entities, p.relationship = s) ∧
    (∀ p ∈ pairEnds entities, ∀ x ∈ p.members,
      (allEnds entities)[x.2]? = some x.1 ∧ p.relationship.Represents x.1) ∧
    (((pairEnds entities).flatMap PairedEnds.members).map Prod.snd).Nodup
  /-- Relationships lead from entities of the map to such entities or the user entity, and a
  relationship with fields in both ends is taken from its one-to-many side. -/
  directed : ∀ s ∈ relationships, s.source ∈ entities.keys ∧
    (s.destination ∈ entities.keys ∨ s.destination = userEntityName) ∧
    ¬ (s.injectedInSource.isSome = true ∧ s.injectedInDestination.isSome = true ∧
      s.cardinality = .manyToOne)

namespace PairedEnds

theorem represents_members {p : PairedEnds} {x : RelationshipEnd × Nat} (hx : x ∈ p.members) :
    p.relationship.Represents x.1 := by
  cases p with
  | alone n e target =>
    rw [show x = (e, n) by simpa [members] using hx]
    exact .inl ⟨rfl, rfl⟩
  | joined n source k destination =>
    rcases List.mem_cons.mp hx with rfl | hx
    · exact .inl ⟨rfl, rfl⟩
    · rw [show x = (destination, k) by simpa using hx]
      exact .inr ⟨rfl, rfl⟩

private theorem source_of_members {p : PairedEnds} {f : String}
    (hf : p.relationship.injectedInSource = some f) :
    ∃ x ∈ p.members, x.1.entity = p.relationship.source ∧ x.1.injectedText = f := by
  cases p with
  | alone n e target => exact ⟨(e, n), by simp [members], rfl, Option.some.inj hf⟩
  | joined n source k destination =>
    exact ⟨(source, n), by simp [members], rfl, Option.some.inj hf⟩

private theorem destination_of_members {p : PairedEnds} {f : String}
    (hf : p.relationship.injectedInDestination = some f) :
    ∃ x ∈ p.members, x.1.entity = p.relationship.destination ∧ x.1.injectedText = f := by
  cases p with
  | alone n e target => simp [relationship, Relationship.between] at hf
  | joined n source k destination =>
    exact ⟨(destination, k), by simp [members], rfl, Option.some.inj hf⟩

theorem relationship_source (p : PairedEnds) : ∃ x ∈ p.members,
    p.relationship.source = x.1.entity ∧ p.relationship.cardinality = x.1.cardinality ∧
      p.relationship.injectedInSource = some x.1.injectedText := by
  cases p with
  | alone n e target => exact ⟨(e, n), by simp [members], rfl, rfl, rfl⟩
  | joined n source k destination => exact ⟨(source, n), by simp [members], rfl, rfl, rfl⟩

private theorem counted_of_sound {entities : Descriptors} {p : PairedEnds}
    (hp : p.Sound entities) (hall : ∀ x ∈ p.members, x.1 ∈ allEnds entities)
    {x : RelationshipEnd × Nat} (hx : x ∈ p.members) : x.1.Counted entities := by
  refine ⟨hall x hx, ?_⟩
  cases p with
  | alone n e target =>
    rw [show x = (e, n) by simpa [members] using hx]
    exact .inl (Option.isSome_of_eq_some hp)
  | joined n source k destination =>
    have hsource := hall (source, n) (by simp [members])
    have hdestination := hall (destination, k) (by simp [members])
    rcases List.mem_cons.mp hx with rfl | hx
    · rcases hp with ⟨⟨target, htarget, -⟩, -⟩ | ⟨hclaims, -⟩
      · exact .inl (Option.isSome_of_eq_some htarget)
      · exact .inr ⟨destination, hdestination, hclaims⟩
    · rw [show x = (destination, k) by simpa using hx]
      rcases hp with ⟨hclaims, -⟩ | ⟨⟨target, htarget, -⟩, -⟩
      · exact .inr ⟨source, hsource, hclaims⟩
      · exact .inl (Option.isSome_of_eq_some htarget)

private theorem source_cardinality_of_sound {entities : Descriptors}
    {n k : Nat} {source destination : RelationshipEnd}
    (hp : (joined n source k destination).Sound entities) : source.cardinality ≠ .manyToOne := by
  intro hcard
  rcases hp with ⟨⟨_, _, _, _, hpartner⟩, hside⟩ | ⟨⟨_, _, _, _, hpartner⟩, hside⟩
  · have hrev : destination.cardinality = .oneToMany := by
      simp only [RelationshipEnd.isPartner, Bool.and_eq_true, beq_iff_eq] at hpartner
      rw [hpartner.1.1, hcard]
      rfl
    simp [PairingState.otherIsSource, hrev] at hside
  · simp [PairingState.otherIsSource, hcard, Cardinality.hasOwnerSide] at hside

end PairedEnds

theorem mem_found {entities : Descriptors} {p : PairedEnds} (hp : p ∈ pairEnds entities) :
    p.Sound entities ∧ ∀ x ∈ p.members, (allEnds entities)[x.2]? = some x.1 := by
  have hrun := PairingState.accounted_final entities
  exact ⟨hrun.sound p hp, fun x hx => (hrun.numbered x (List.mem_flatMap.mpr ⟨p, hp, hx⟩)).1⟩

theorem pair_directed {entities : Descriptors} {p : PairedEnds}
    (hp : p ∈ pairEnds entities) : p.relationship.source ∈ entities.keys ∧
      (p.relationship.destination ∈ entities.keys ∨
        p.relationship.destination = userEntityName) ∧
      ¬ (p.relationship.injectedInSource.isSome = true ∧
        p.relationship.injectedInDestination.isSome = true ∧
        p.relationship.cardinality = .manyToOne) := by
  obtain ⟨hsound, hall⟩ := mem_found hp
  cases p with
  | alone n e target =>
    have he := entity_mem_keys (List.mem_of_getElem? (hall (e, n) (by simp [PairedEnds.members])))
    exact ⟨he, (resolveTarget_eq_some hsound).2, by
      simp [PairedEnds.relationship, Relationship.between]⟩
  | joined n source k destination =>
    have hs := entity_mem_keys
      (List.mem_of_getElem? (hall (source, n) (by simp [PairedEnds.members])))
    have hd := entity_mem_keys
      (List.mem_of_getElem? (hall (destination, k) (by simp [PairedEnds.members])))
    exact ⟨hs, .inl hd, fun h => PairedEnds.source_cardinality_of_sound hsound h.2.2⟩

theorem member_of_pair {entities : Descriptors} {e : RelationshipEnd}
    (he : e ∈ allEnds entities)
    (htarget : (resolveTarget entities e.descriptor.otherEntity).isSome = true) :
    ∃ p ∈ pairEnds entities, ∃ number, (e, number) ∈ p.members := by
  obtain ⟨number, hnumber⟩ := List.mem_iff_getElem?.mp he
  have hrun := PairingState.accounted_final entities
  have hkept := hrun.kept number (PairingState.used_final hnumber) e hnumber htarget
  obtain ⟨p, hp, hmember⟩ := List.mem_flatMap.mp hkept
  exact ⟨p, hp, number, hmember⟩

section Braces

theorem unbraced_injectedText {entities : Descriptors} (h : entities.Unbraced)
    {e : RelationshipEnd} (he : e ∈ allEnds entities) : Unbraced e.injectedText := by
  obtain ⟨d, hd, hr, -⟩ := mem_allEnds.mp he
  have hend := (h _ hd).2 e.descriptor hr
  simp only [RelationshipEnd.injectedText, RelationshipDescriptor.injectedField,
    InjectedField.text]
  cases hfilter : e.descriptor.otherField.filter fun f => f != "id" && f != "" with
  | none => exact hend.1
  | some f =>
    have hfield : e.descriptor.otherField = some f := (Option.filter_eq_some_iff.mp hfilter).1
    exact ((hend.1.append (by decide)).append (hend.2 f hfield)).append (by decide)

theorem unbraced_key {entities : Descriptors} (h : entities.Unbraced) {name : String}
    (hname : name ∈ entities.keys ∨ name = userEntityName) : Unbraced name := by
  rcases hname with hkey | rfl
  · obtain ⟨d, hd⟩ := Table.mem_keys.mp hkey
    exact (h _ hd).1
  · decide

theorem represents_of_id_eq {entities : Descriptors} (h : entities.Unbraced)
    {p q : PairedEnds} (hp : p ∈ pairEnds entities) (hq : q ∈ pairEnds entities)
    (hid : p.relationship.id = q.relationship.id) {e : RelationshipEnd}
    (he : q.relationship.Represents e) : p.relationship.Represents e := by
  have hparts : ∀ r : PairedEnds, r ∈ pairEnds entities → ∃ f,
      r.relationship.injectedInSource = some f ∧ Unbraced r.relationship.source ∧ Unbraced f ∧
        Unbraced r.relationship.destination := by
    intro r hr
    obtain ⟨x, hx, -, -, hinjected⟩ := r.relationship_source
    have hx' := List.mem_of_getElem? ((mem_found hr).2 x hx)
    have hdirected := pair_directed hr
    exact ⟨_, hinjected, unbraced_key h (.inl hdirected.1), unbraced_injectedText h hx',
      unbraced_key h hdirected.2.1⟩
  obtain ⟨f, hf, hfparts⟩ := hparts p hp
  obtain ⟨g, hg, hgparts⟩ := hparts q hq
  obtain ⟨-, hsource, hfg, hdestination, hinjected⟩ :=
    Relationship.eq_ends_of_id_eq hf hg hfparts hgparts hid
  rcases he with ⟨hentity, htext⟩ | ⟨hentity, htext⟩
  · exact .inl ⟨hsource.trans hentity, by rw [hf, hfg, ← hg, htext]⟩
  · exact .inr ⟨hdestination.trans hentity, hinjected.trans htext⟩

end Braces

theorem mem_pairRelationships {entities : Descriptors} {s : Relationship} :
    s ∈ pairRelationships entities ↔ ∃ p ∈ pairEnds entities, p.relationship = s := by
  simp [pairRelationships]

/-- Every relationship that is read is that of a pair. -/
theorem pair_of_read {entities : Descriptors} {m : Model} (hmodel : entities.toModel = .ok m)
    {s : Relationship} (hs : s ∈ m.relationships.toList) :
    ∃ p ∈ pairEnds entities, p.relationship = s := by
  rw [Descriptors.toModel_relationships hmodel] at hs
  rcases RelationshipTable.mem_toList_addAll hs with hs | hs
  · simp [RelationshipTable.toList_empty] at hs
  · exact mem_pairRelationships.mp hs

/-- The identity of every pair is held by a relationship that is read, that of a pair itself. -/
theorem read_of_pair {entities : Descriptors} {m : Model} (hmodel : entities.toModel = .ok m)
    {q : PairedEnds} (hq : q ∈ pairEnds entities) : ∃ p ∈ pairEnds entities,
      p.relationship ∈ m.relationships.toList ∧ p.relationship.id = q.relationship.id := by
  have hheld := RelationshipTable.id_held_addAll RelationshipTable.keyed_empty
    (mem_pairRelationships.mpr ⟨q, hq, rfl⟩)
  rw [← Descriptors.toModel_relationships hmodel] at hheld
  obtain ⟨s, hs, hid⟩ := hheld
  obtain ⟨p, hp, rfl⟩ := pair_of_read hmodel hs
  exact ⟨p, hp, hs, hid⟩

/-- Reading accounts for all ends: those that lead to an entity are kept, every injected field is
that of a stated end, and no end is used twice. -/
theorem toModel_endsAccounted {entities : Descriptors} {m : Model}
    (hmodel : entities.toModel = .ok m) (hnames : entities.Unbraced) :
    EndsAccounted entities m.relationships.toList := by
  have hpairs : ∀ s ∈ m.relationships.toList, ∃ p ∈ pairEnds entities, p.relationship = s :=
    fun s hs => pair_of_read hmodel hs
  constructor
  case kept =>
    intro name d hd r hr c hc htarget
    have he : (⟨name, c, r⟩ : RelationshipEnd) ∈ allEnds entities :=
      mem_allEnds.mpr ⟨d, hd, hr, hc⟩
    obtain ⟨q, hq, number, hmember⟩ := member_of_pair he htarget
    have hrepresents := PairedEnds.represents_members hmember
    -- another pair may hold the identity of `q`, but then it represents the same ends
    obtain ⟨p, hp, hs, hid⟩ := read_of_pair hmodel hq
    exact ⟨_, hs, represents_of_id_eq hnames hp hq hid hrepresents⟩
  case sourceStated =>
    intro s hs f hf
    obtain ⟨p, hp, rfl⟩ := hpairs s hs
    obtain ⟨x, hx, hentity, htext⟩ := PairedEnds.source_of_members hf
    obtain ⟨hsound, hall⟩ := mem_found hp
    exact ⟨x.1, PairedEnds.counted_of_sound hsound
      (fun y hy => List.mem_of_getElem? (hall y hy)) hx, hentity, htext⟩
  case destinationStated =>
    intro s hs f hf
    obtain ⟨p, hp, rfl⟩ := hpairs s hs
    obtain ⟨x, hx, hentity, htext⟩ := PairedEnds.destination_of_members hf
    obtain ⟨hsound, hall⟩ := mem_found hp
    exact ⟨x.1, PairedEnds.counted_of_sound hsound
      (fun y hy => List.mem_of_getElem? (hall y hy)) hx, hentity, htext⟩
  case once =>
    refine ⟨hpairs, fun p hp x hx => ?_, (PairingState.accounted_final entities).distinct⟩
    exact ⟨(mem_found hp).2 x hx, PairedEnds.represents_members hx⟩
  case directed =>
    intro s hs
    obtain ⟨p, hp, rfl⟩ := hpairs s hs
    exact pair_directed hp

/-- A one-to-many end with its way back, an end to the user entity, one that leads nowhere, and an
end that names itself. -/
def mixedEnds : Descriptors :=
  Table.ofList
    [("Owner", { EntityDescriptor.empty with relationships :=
        [{ RelationshipDescriptor.named "one-to-many" "pet" "pet" with otherName := some "owner" },
          { RelationshipDescriptor.named "one-to-one" "login" "user" with ownerSide := some true },
          RelationshipDescriptor.named "many-to-one" "nothing" "nowhere"] }),
      ("Pet", { EntityDescriptor.empty with relationships :=
        [{ RelationshipDescriptor.named "many-to-one" "owner" "owner" with
            otherName := some "pet" },
          { RelationshipDescriptor.named "many-to-many" "friend" "pet" with
            otherName := some "friend" }] })]

theorem mixedEnds_accounted :
    ∃ m, mixedEnds.toModel = .ok m ∧ mixedEnds.Unbraced ∧ m.relationships.size = 3 ∧
      EndsAccounted mixedEnds m.relationships.toList := by
  have hnames : mixedEnds.Unbraced := by decide
  have hsize : mixedEnds.toModel.map (fun m => m.relationships.size) = .ok 3 := by decide +kernel
  cases hread : mixedEnds.toModel with
  | error failure => simp [hread, Except.map] at hsize
  | ok m =>
    have hm : m.relationships.size = 3 := by simpa [hread, Except.map] using hsize
    exact ⟨m, rfl, hnames, hm, toModel_endsAccounted hread hnames⟩

end DomainModel
