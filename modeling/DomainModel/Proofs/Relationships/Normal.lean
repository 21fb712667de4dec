import DomainModel.Proofs.Relationships.Grouping
import DomainModel.Proofs.Relationships.RoundTrip
/-!
# Normal forms of relationships

The normal form of a regular relationship is regular and its own normal form. It has the same ends
with the same names, and gives each entity the same entries, if perhaps in another order.
-/
namespace DomainModel

namespace Relationship
variable {m m' : Model} {r : Relationship}

theorem Regular.normalized_cases (h : r.Regular m) :
    (r.isMutual = false ∧ r.cardinality = .manyToOne ∧ r.normalized =
      { r.plain with commentInDestination := none, requiredInDestination := none }) ∨
    (r.isMutual = true ∧ r.cardinality ≠ .manyToOne ∧ r.normalized = r.plain) ∨
    (r.isMutual = true ∧ r.cardinality = .manyToOne ∧ r.normalized = r.flipped.plain) := by
  obtain ⟨f, hf, -⟩ := h.sourceWritten
  cases hmutual : r.isMutual with
  | false =>
    have hnone : r.injectedInDestination = none := by simpa [isMutual, hf] using hmutual
    exact .inl ⟨rfl, h.oneWay hnone, normalized_of_oneWay hmutual (by simp [hf])⟩
  | true =>
    by_cases hcard : r.cardinality = .manyToOne
    · exact .inr (.inr ⟨rfl, hcard, normalized_of_behind hmutual hcard⟩)
    · exact .inr (.inl ⟨rfl, hcard, normalized_of_ahead hmutual hcard⟩)

theorem Regular.isMutual_normalized (h : r.Regular m) : r.normalized.isMutual = r.isMutual := by
  rcases h.normalized_cases with ⟨-, -, hnormal⟩ | ⟨-, -, hnormal⟩ | ⟨-, -, hnormal⟩
  · rw [hnormal]
    rfl
  · rw [hnormal]
    rfl
  · rw [hnormal, isMutual, isMutual, Bool.and_comm]
    rfl

theorem Regular.normalized_oriented (h : r.Regular m) : r.normalized.Oriented := by
  rw [Oriented, h.isMutual_normalized]
  rcases h.normalized_cases with ⟨hmutual, hcard, hnormal⟩ | ⟨hmutual, hcard, hnormal⟩ |
    ⟨hmutual, hcard, hnormal⟩
  · simp [hmutual, hnormal, plain, hcard]
  · simp [hmutual, hnormal, plain, hcard]
  · simp [hmutual, hnormal, plain, flipped, hcard, Cardinality.reversed]

@[simp] theorem requiredFlag_requiredFlag (required : Option Bool) :
    requiredFlag (requiredFlag required) = requiredFlag required := by
  by_cases h : required = some true <;> simp [requiredFlag, h]

@[simp] theorem plain_plain (r : Relationship) : r.plain.plain = r.plain := by
  simp [plain]

theorem Regular.normalized_normalized (h : r.Regular m) :
    r.normalized.normalized = r.normalized := by
  have hmutual := h.isMutual_normalized
  obtain ⟨f, hf, -⟩ := h.sourceWritten
  rcases h.normalized_cases with ⟨hkind, hcard, hnormal⟩ | ⟨hkind, hcard, hnormal⟩ |
    ⟨hkind, hcard, hnormal⟩
  · rw [normalized_of_oneWay (hmutual.trans hkind) (by rw [hnormal]; simp [plain, hf]), hnormal]
    simp [plain]
  · rw [normalized_of_ahead (hmutual.trans hkind) (by rwa [hnormal]), hnormal, plain_plain]
  · have hcard' : r.normalized.cardinality ≠ .manyToOne := by
      simp [hnormal, plain, flipped, hcard, Cardinality.reversed]
    rw [normalized_of_ahead (hmutual.trans hkind) hcard', hnormal, plain_plain]

theorem Regular.endNames_normalized (h : r.Regular m) : r.normalized.endNames.Perm r.endNames := by
  rcases h.normalized_cases with ⟨-, -, hnormal⟩ | ⟨-, -, hnormal⟩ | ⟨-, -, hnormal⟩
  · rw [hnormal]
    exact .rfl
  · rw [hnormal]
    exact .rfl
  · rw [hnormal]
    exact List.perm_append_comm

theorem Regular.normalized (h : r.Regular m) (hkeys : m'.entities.keys = m.entities.keys) :
    r.normalized.Regular m' := by
  rcases h.normalized_cases with ⟨hmutual, hcard, hnormal⟩ | ⟨hmutual, hcard, hnormal⟩ |
    ⟨hmutual, hcard, hnormal⟩
  · rw [hnormal]
    exact ⟨hkeys ▸ h.source, hkeys ▸ h.destination, h.sourceWritten, h.destinationWritten, h.oneWay⟩
  · rw [hnormal]
    exact ⟨hkeys ▸ h.source, hkeys ▸ h.destination, h.sourceWritten, h.destinationWritten, h.oneWay⟩
  · obtain ⟨f, hf, hwritten⟩ := h.sourceWritten
    obtain ⟨g, hg⟩ := Option.isSome_iff_exists.mp (Bool.and_eq_true_iff.mp hmutual).2
    rw [hnormal]
    refine ⟨hkeys ▸ h.destination_of_isMutual hmutual, .inl (hkeys ▸ h.source),
      ⟨g, hg, h.destinationWritten g hg⟩, ?_, ?_⟩
    · intro f' hf'
      obtain rfl : f = f' := Option.some.inj (hf.symm.trans hf')
      exact hwritten
    · intro hnone
      exact absurd (hf.symm.trans hnone) (by simp)

private theorem entriesFor_plain (r : Relationship) (entity : String) :
    r.plain.entriesFor entity = r.entriesFor entity := by
  have hsource : r.plain.sourceEntry = r.sourceEntry := by
    have hrequired : requiredFlag r.plain.requiredInSource = requiredFlag r.requiredInSource :=
      requiredFlag_requiredFlag r.requiredInSource
    rw [sourceEntry, hrequired]
    rfl
  have hdestination : r.plain.destinationEntry = r.destinationEntry := by
    have hrequired : requiredFlag r.plain.requiredInDestination =
        requiredFlag r.requiredInDestination := requiredFlag_requiredFlag r.requiredInDestination
    rw [destinationEntry, hrequired]
    rfl
  rw [entriesFor, entriesFor, hsource, hdestination]
  rfl

private theorem flipped_entries (h : r.Regular m) (hmutual : r.isMutual = true)
    (hcard : r.cardinality = .manyToOne) :
    r.flipped.sourceEntry = r.destinationEntry ∧ r.flipped.destinationEntry = r.sourceEntry := by
  obtain ⟨f, hf, -⟩ := h.sourceWritten
  obtain ⟨g, hg⟩ := Option.isSome_iff_exists.mp (Bool.and_eq_true_iff.mp hmutual).2
  have hsource : r.flipped.sourceField = r.destinationField := by
    simp [sourceField, destinationField, flipped, hg]
  have hdestination : r.flipped.destinationField = r.sourceField := by
    simp [sourceField, destinationField, flipped, hf]
  constructor
  · rw [sourceEntry, destinationEntry, hsource, hdestination, h.lowerFirst_sourceField]
    simp [flipped, hcard, Cardinality.reversed, Cardinality.hasOwnerSide]
  · rw [destinationEntry, sourceEntry, hsource, hdestination,
      h.lowerFirst_destinationField hmutual]
    simp [flipped, hcard, Cardinality.reversed, Cardinality.hasOwnerSide]

/-- A relationship and its normal form give an entity the same entries. -/
theorem Regular.entriesFor_normalized (h : r.Regular m) (entity : String) :
    (r.normalized.entriesFor entity).Perm (r.entriesFor entity) := by
  rcases h.normalized_cases with ⟨hmutual, hcard, hnormal⟩ | ⟨hmutual, hcard, hnormal⟩ |
    ⟨hmutual, hcard, hnormal⟩
  · have hentry : r.hasDestinationEntry = false := by
      simpa [hmutual] using h.hasDestinationEntry
    have hbare : r.normalized.hasDestinationEntry = false := by rwa [hnormal]
    have hsource : r.normalized.source = r.source ∧
        r.normalized.sourceEntry = r.plain.sourceEntry := by
      rw [hnormal]
      exact ⟨rfl, rfl⟩
    rw [← entriesFor_plain r]
    simp [entriesFor, hbare, hsource, show r.plain.hasDestinationEntry = false from hentry,
      show r.plain.source = r.source from rfl]
  · rw [hnormal, entriesFor_plain]
  · obtain ⟨hsource, hdestination⟩ := flipped_entries h hmutual hcard
    have hentry : r.hasDestinationEntry = true := h.hasDestinationEntry.mpr hmutual
    have hentry' : r.flipped.hasDestinationEntry = true := by
      simp [Relationship.hasDestinationEntry, flipped, hcard, Cardinality.reversed]
    rw [hnormal, entriesFor_plain, entriesFor, entriesFor, hsource, hdestination, hentry, hentry']
    simp only [and_true]
    exact List.perm_append_comm

end Relationship
end DomainModel
