import DomainModel.Proofs.Relationships.RoundTrip
/-!
# Counterparts

The two entries that conversion writes for one relationship are made apart from each other. That of
the destination always answers that of the source. The other way round this holds as long as the
field in the destination is named in lower case, because the entry of the source puts the name that
it looks for into lower case, while the entry of the destination keeps its own name as written.
-/
namespace DomainModel

namespace RelationshipEnd

/-- `f` leads back to the entity of `e`, with the reversed cardinality. -/
structure Faces (f e : RelationshipEnd) : Prop where
  leads : f.descriptor.otherEntity = lowerFirst e.entity
  type : f.descriptor.type = e.cardinality.reversed.descriptorWord
  cardinality : f.cardinality = e.cardinality.reversed

/-- `f` faces `e` and names it, so that `e` takes it for its partner. -/
structure Answers (f e : RelationshipEnd) : Prop extends Faces f e where
  named : f.descriptor.otherName = some e.descriptor.name
  partner : e.isPartner f = true

theorem Faces.answers_iff {f e : RelationshipEnd} (h : f.Faces e)
    (hentity : startsWithCapital e.entity = true) :
    f.Answers e ↔ f.descriptor.otherName = some e.descriptor.name := by
  refine ⟨fun ha => ha.named, fun hnamed => ⟨h, hnamed, ?_⟩⟩
  simp [isPartner, h.cardinality, h.leads, lowerFirst_lowerFirst hentity, hnamed]

end RelationshipEnd

namespace Relationship
variable {r : Relationship}

theorem destinationEnd_faces (r : Relationship) : r.destinationEnd.Faces r.sourceEnd :=
  ⟨rfl, rfl, rfl⟩

theorem sourceEnd_faces (r : Relationship) : r.sourceEnd.Faces r.destinationEnd := by
  refine ⟨rfl, ?_, ?_⟩
  · simp [sourceEnd, sourceEntry, destinationEnd]
  · simp [sourceEnd, destinationEnd]

theorem destinationField_lowered_iff (hsource : startsWithCapital r.source = true) :
    lowerFirst r.destinationField.name = r.destinationField.name ↔
      ∀ f ∈ r.injectedInDestination,
        lowerFirst (InjectedField.ofText f).name = (InjectedField.ofText f).name := by
  cases hfield : r.injectedInDestination with
  | none => simp [destinationField, hfield, lowerFirst_lowerFirst hsource]
  | some f => simp [destinationField, hfield]

end Relationship

namespace Model
variable {m : Model} {r : Relationship}

/-- Both entries of a relationship between declared entities are written and face each other, and
that of the destination answers that of the source. The source entry names what it looks for in
lower case, and so answers the other exactly if a field in the destination is named that way. -/
theorem ends_answer (h : m.Reachable)
    (hnames : ∀ name ∈ m.entities.keys, startsWithCapital name = true)
    (hr : r ∈ m.relationships.toList) (hsource : r.source ∈ m.entities.keys)
    (hdestination : r.destination ∈ m.entities.keys) (hentry : r.hasDestinationEntry = true)
    (start : Int) :
    (r.sourceEnd ∈ allEnds (m.toDescriptors start) ∧
      r.destinationEnd ∈ allEnds (m.toDescriptors start)) ∧
      r.sourceEnd.Faces r.destinationEnd ∧ r.destinationEnd.Answers r.sourceEnd ∧
      (r.sourceEnd.Answers r.destinationEnd ↔ ∀ f ∈ r.injectedInDestination,
        lowerFirst (InjectedField.ofText f).name = (InjectedField.ofText f).name) := by
  have hw := h.wellFormed
  have hback : r.sourceEnd.Answers r.destinationEnd ↔
      lowerFirst r.destinationField.name = r.destinationField.name :=
    (r.sourceEnd_faces.answers_iff (hnames _ hdestination)).trans Option.some_inj
  refine ⟨⟨(mem_ends hw).mpr ⟨r, hr, .inl ⟨hsource, rfl⟩⟩,
    (mem_ends hw).mpr ⟨r, hr, .inr ⟨hdestination, hentry, rfl⟩⟩⟩, r.sourceEnd_faces,
    (r.destinationEnd_faces.answers_iff (hnames _ hsource)).mpr rfl, ?_⟩
  rw [hback, Relationship.destinationField_lowered_iff (hnames _ hsource)]

theorem shelter_ends_answer : (shelter [pets, friends]).Reachable ∧
    (∀ name ∈ (shelter [pets, friends]).entities.keys, startsWithCapital name = true) ∧
    pets ∈ (shelter [pets, friends]).relationships.toList ∧ pets.hasDestinationEntry = true ∧
    (pets.sourceEnd ∈ allEnds ((shelter [pets, friends]).toDescriptors 0) ∧
      pets.destinationEnd ∈ allEnds ((shelter [pets, friends]).toDescriptors 0)) ∧
      pets.sourceEnd.Faces pets.destinationEnd ∧ pets.destinationEnd.Answers pets.sourceEnd ∧
      (pets.sourceEnd.Answers pets.destinationEnd ↔ ∀ f ∈ pets.injectedInDestination,
        lowerFirst (InjectedField.ofText f).name = (InjectedField.ofText f).name) := by
  have hreach := shelter_reachable (l := [pets, friends]) (by decide)
  have hnames : ∀ name ∈ (shelter [pets, friends]).entities.keys,
      startsWithCapital name = true := by decide
  have hmem : pets ∈ (shelter [pets, friends]).relationships.toList := by decide
  exact ⟨hreach, hnames, hmem, rfl,
    ends_answer hreach hnames hmem (by decide) (by decide) rfl 0⟩

/-- The pet of an owner, whose field for the owner is named with a capital. -/
def adopted : Relationship :=
  { Relationship.between .oneToOne "Owner" "Pet" with
    injectedInSource := some "pet", injectedInDestination := some "Owner" }

/-- The source entry does not always answer that of the destination. -/
theorem capitalizedField_unanswered : ¬ ∀ m : Model, m.Reachable →
    (∀ name ∈ m.entities.keys, startsWithCapital name = true) →
    ∀ r ∈ m.relationships.toList, r.injectedInSource.isSome = true → r.source ∈ m.entities.keys →
      r.destination ∈ m.entities.keys → r.hasDestinationEntry = true →
        r.sourceEnd.Answers r.destinationEnd ∧ r.destinationEnd.Answers r.sourceEnd := by
  intro hclaim
  have hreach := shelter_reachable (l := [adopted]) (by decide)
  obtain ⟨hanswers, -⟩ := hclaim _ hreach (by decide) adopted (by decide) rfl (by decide)
    (by decide) rfl
  exact absurd hanswers.named (by decide +kernel)

end Model
end DomainModel
