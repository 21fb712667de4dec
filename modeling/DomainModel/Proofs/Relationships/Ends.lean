import DomainModel.Proofs.Descriptors.Conversion
import DomainModel.Proofs.Pairing.Partners
import Mathlib.Data.List.Flatten
/-!
# The ends that conversion states

Conversion states a relationship by the end of its source and, where a field is injected there, by
the end of its destination. If no entity has two ends of one name, the two ends of a relationship
name each other, and no other end is named by them or names them.
-/
namespace DomainModel

namespace InjectedField

/-- The text is a name in lower case, alone or with a displayed field in parentheses. -/
def Written (s : String) : Prop := ∃ f : InjectedField, f.Regular ∧ s = f.text

theorem Written.regular {s : String} (h : Written s) :
    (ofText s).Regular ∧ (ofText s).text = s := by
  obtain ⟨f, hf, rfl⟩ := h
  rw [ofText_text hf]
  exact ⟨hf, rfl⟩

end InjectedField

namespace Relationship

/-- A field is injected in both ends. -/
def isMutual (r : Relationship) : Bool :=
  r.injectedInSource.isSome && r.injectedInDestination.isSome

/-- The ends with an injected field, each by its entity and the name of the field. -/
def endNames (r : Relationship) : List (String × String) :=
  (r.injectedInSource.toList.map fun f => (r.source, (InjectedField.ofText f).name)) ++
    r.injectedInDestination.toList.map fun f => (r.destination, (InjectedField.ofText f).name)

/-- The relationship joins declared entities and has well-written fields in both ends, or it leads
many to one, has a field in its source alone, and may lead to the user entity. -/
structure Regular (m : Model) (r : Relationship) : Prop where
  source : r.source ∈ m.entities.keys
  destination : r.destination ∈ m.entities.keys ∨
    (r.injectedInDestination = none ∧ r.destination = userEntityName)
  sourceWritten : ∃ f, r.injectedInSource = some f ∧ InjectedField.Written f
  destinationWritten : ∀ f, r.injectedInDestination = some f → InjectedField.Written f
  oneWay : r.injectedInDestination = none → r.cardinality = .manyToOne

def sourceEnd (r : Relationship) : RelationshipEnd := ⟨r.source, r.cardinality, r.sourceEntry⟩

def destinationEnd (r : Relationship) : RelationshipEnd :=
  ⟨r.destination, r.cardinality.reversed, r.destinationEntry⟩

/-- The ends that conversion states for the relationship, where its entities are declared. -/
def statedEnds (r : Relationship) : List RelationshipEnd :=
  r.sourceEnd :: if r.hasDestinationEntry = true then [r.destinationEnd] else []

theorem mem_statedEnds {r : Relationship} {e : RelationshipEnd} : e ∈ r.statedEnds ↔
    e = r.sourceEnd ∨ (r.hasDestinationEntry = true ∧ e = r.destinationEnd) := by
  by_cases hentry : r.hasDestinationEntry = true <;> simp [statedEnds, hentry]

/-- The ends that conversion states for the relationship at an entity. -/
def endsAt (r : Relationship) (entity : String) : List RelationshipEnd :=
  (if r.source = entity then [r.sourceEnd] else []) ++
    if r.destination = entity ∧ r.hasDestinationEntry = true then [r.destinationEnd] else []

theorem mem_endsAt {r : Relationship} {entity : String} {e : RelationshipEnd} :
    e ∈ r.endsAt entity ↔ (r.source = entity ∧ e = r.sourceEnd) ∨
      (r.destination = entity ∧ r.hasDestinationEntry = true ∧ e = r.destinationEnd) := by
  simp only [endsAt, List.mem_append, List.mem_ite_nil_right, List.mem_singleton, and_assoc]

private theorem injectedText_of_written {e : RelationshipEnd} {f : String} {shown : Option String}
    (hf : InjectedField.Written f) (hname : e.descriptor.name = (InjectedField.ofText f).name)
    (hother : e.descriptor.otherField = ((InjectedField.ofText f).displayed <|> shown))
    (hshown : shown = none ∨ shown = some "id") : e.injectedText = f := by
  obtain ⟨hregular, htext⟩ := hf.regular
  have hdisplayed : e.descriptor.injectedField.displayed = (InjectedField.ofText f).displayed := by
    rw [RelationshipDescriptor.injectedField, hother]
    cases hd : (InjectedField.ofText f).displayed with
    | none => rcases hshown with rfl | rfl <;> rfl
    | some d =>
      have hid := hregular.2 d hd
      have hempty := ne_empty_of_isIdentifierFrom hid.1
      simp [hid.2, hempty]
  have hfield : e.descriptor.injectedField = InjectedField.ofText f := by
    rw [← show (⟨e.descriptor.name, e.descriptor.injectedField.displayed⟩ : InjectedField) =
      e.descriptor.injectedField from rfl, hname, hdisplayed]
  rw [RelationshipEnd.injectedText, hfield, htext]

variable {m : Model} {r : Relationship}

theorem Regular.sourceEnd_injectedText (h : r.Regular m) :
    some r.sourceEnd.injectedText = r.injectedInSource := by
  obtain ⟨f, hf, hwritten⟩ := h.sourceWritten
  rw [hf]
  have hfield : r.sourceField = InjectedField.ofText f := by simp [sourceField, hf]
  have hother : r.sourceEnd.descriptor.otherField = ((InjectedField.ofText f).displayed <|>
      if r.cardinality = .oneToMany then none else some "id") := by
    simp only [sourceEnd, sourceEntry, hfield]
  congr 1
  refine injectedText_of_written hwritten (by simp [sourceEnd, sourceEntry, hfield]) hother ?_
  split
  · exact .inl rfl
  · exact .inr rfl

theorem Regular.destinationEnd_injectedText (h : r.Regular m) (hmutual : r.isMutual = true) :
    some r.destinationEnd.injectedText = r.injectedInDestination := by
  obtain ⟨f, hf⟩ := Option.isSome_iff_exists.mp (Bool.and_eq_true_iff.mp hmutual).2
  rw [hf]
  have hfield : r.destinationField = InjectedField.ofText f := by simp [destinationField, hf]
  have hother : r.destinationEnd.descriptor.otherField = ((InjectedField.ofText f).displayed <|>
      if r.cardinality.reversed = .manyToOne then some "id" else none) := by
    simp only [destinationEnd, destinationEntry, hfield]
  congr 1
  refine injectedText_of_written (h.destinationWritten f hf)
    (by simp [destinationEnd, destinationEntry, hfield]) hother ?_
  split
  · exact .inr rfl
  · exact .inl rfl

@[simp] theorem sourceEnd_requiredFlag (r : Relationship) :
    r.sourceEnd.requiredFlag = requiredFlag r.requiredInSource := by
  by_cases h : r.requiredInSource = some true <;>
    simp [RelationshipEnd.requiredFlag, RelationshipDescriptor.isRequired, sourceEnd, sourceEntry,
      requiredFlag, h, show (∅ : Table String Json).find? _ = none from rfl]

@[simp] theorem destinationEnd_requiredFlag (r : Relationship) :
    r.destinationEnd.requiredFlag = requiredFlag r.requiredInDestination := by
  by_cases h : r.requiredInDestination = some true <;>
    simp [RelationshipEnd.requiredFlag, RelationshipDescriptor.isRequired, destinationEnd,
      destinationEntry, requiredFlag, h, show (∅ : Table String Json).find? _ = none from rfl]

theorem Regular.hasDestinationEntry (h : r.Regular m) :
    r.hasDestinationEntry = true ↔ r.isMutual = true := by
  obtain ⟨f, hf, -⟩ := h.sourceWritten
  cases hdestination : r.injectedInDestination with
  | none => simp [Relationship.hasDestinationEntry, isMutual, hdestination, h.oneWay hdestination]
  | some g => simp [Relationship.hasDestinationEntry, isMutual, hdestination, hf]

theorem Regular.destination_of_isMutual (h : r.Regular m) (hmutual : r.isMutual = true) :
    r.destination ∈ m.entities.keys := by
  rcases h.destination with hkey | ⟨hnone, -⟩
  · exact hkey
  · simp [isMutual, hnone] at hmutual

theorem Regular.lowerFirst_sourceField (h : r.Regular m) :
    lowerFirst r.sourceField.name = r.sourceField.name := by
  obtain ⟨f, hf, hwritten⟩ := h.sourceWritten
  rw [show r.sourceField = InjectedField.ofText f by simp [sourceField, hf]]
  exact lowerFirst_of_isUncapitalized hwritten.regular.1.1

theorem Regular.lowerFirst_destinationField (h : r.Regular m) (hmutual : r.isMutual = true) :
    lowerFirst r.destinationField.name = r.destinationField.name := by
  obtain ⟨f, hf⟩ := Option.isSome_iff_exists.mp (Bool.and_eq_true_iff.mp hmutual).2
  rw [show r.destinationField = InjectedField.ofText f by simp [destinationField, hf]]
  exact lowerFirst_of_isUncapitalized (h.destinationWritten f hf).regular.1.1

theorem Regular.endNames_eq (h : r.Regular m) :
    r.endNames = (r.source, r.sourceField.name) ::
      if r.isMutual = true then [(r.destination, r.destinationField.name)] else [] := by
  obtain ⟨f, hf, -⟩ := h.sourceWritten
  cases hdestination : r.injectedInDestination with
  | none => simp [endNames, isMutual, hf, hdestination, sourceField]
  | some g => simp [endNames, isMutual, hf, hdestination, sourceField, destinationField]

theorem Regular.statedEnds_eq (h : r.Regular m) : r.statedEnds =
    r.sourceEnd :: if r.isMutual = true then [r.destinationEnd] else [] := by
  simp only [statedEnds, h.hasDestinationEntry]

theorem Regular.keys_statedEnds (h : r.Regular m) :
    r.statedEnds.map RelationshipEnd.key = r.endNames := by
  rw [h.statedEnds_eq, h.endNames_eq]
  split <;> rfl

end Relationship

/-- The models whose relationships descriptors can state in full: capitalized entities other than
the user entity, regular relationships, and no entity with two ends of one name. -/
structure Model.Describable (m : Model) : Prop where
  names : ∀ name ∈ m.entities.keys, isCapitalized name = true ∧ name ≠ userEntityName
  regular : ∀ r ∈ m.relationships.toList, r.Regular m
  distinct : (m.relationships.toList.flatMap Relationship.endNames).Nodup

namespace Model
variable {m : Model} {start : Int}

theorem endsOf_describe (e : Entity) (date : String) :
    endsOf e.name (m.describe e date) =
      m.relationships.toList.flatMap fun r => r.endsAt e.name := by
  rw [endsOf, describe, List.filterMap_flatMap]
  refine List.flatMap_congr fun r _ => ?_
  have hsource : Cardinality.ofDescriptorWord? r.sourceEntry.type = some r.cardinality :=
    Cardinality.ofDescriptorWord?_descriptorWord _
  have hdestination :
      Cardinality.ofDescriptorWord? r.destinationEntry.type = some r.cardinality.reversed :=
    Cardinality.ofDescriptorWord?_descriptorWord _
  rw [Relationship.entriesFor, Relationship.endsAt, List.filterMap_append]
  congr 1
  · split
    · next hname => simp [hsource, Relationship.sourceEnd, hname]
    · rfl
  · split
    · next hname => simp [hdestination, Relationship.destinationEnd, hname.1]
    · rfl

/-- The stated ends, entity by entity and in the order of the relationships. -/
theorem allEnds_toDescriptors (h : m.WellFormed) (start : Int) :
    allEnds (m.toDescriptors start) = m.entities.keys.flatMap fun name =>
      m.relationships.toList.flatMap fun r => r.endsAt name := by
  have hkeys : m.entities.keys = m.entities.values.zipIdx.map fun e => e.1.name := by
    rw [← keys_toDescriptors h start, Table.keys, entries_toDescriptors h, List.map_map]
    rfl
  rw [allEnds, entries_toDescriptors h, hkeys, List.flatMap_map, List.flatMap_map]
  exact List.flatMap_congr fun e _ => endsOf_describe e.1 _

theorem mem_ends (h : m.WellFormed) {e : RelationshipEnd} :
    e ∈ allEnds (m.toDescriptors start) ↔ ∃ r ∈ m.relationships.toList,
      (r.source ∈ m.entities.keys ∧ e = r.sourceEnd) ∨
        (r.destination ∈ m.entities.keys ∧ r.hasDestinationEntry = true ∧
          e = r.destinationEnd) := by
  simp only [allEnds_toDescriptors h, List.mem_flatMap, Relationship.mem_endsAt]
  constructor
  · rintro ⟨name, hname, r, hr, ⟨rfl, rfl⟩ | ⟨rfl, hentry, rfl⟩⟩
    · exact ⟨r, hr, .inl ⟨hname, rfl⟩⟩
    · exact ⟨r, hr, .inr ⟨hname, hentry, rfl⟩⟩
  · rintro ⟨r, hr, ⟨hname, rfl⟩ | ⟨hname, hentry, rfl⟩⟩
    · exact ⟨_, hname, r, hr, .inl ⟨rfl, rfl⟩⟩
    · exact ⟨_, hname, r, hr, .inr ⟨rfl, hentry, rfl⟩⟩

theorem nodup_keys_statedEnds (h : m.WellFormed) (start : Int)
    (hdistinct : (m.relationships.toList.flatMap fun r =>
      r.statedEnds.map RelationshipEnd.key).Nodup) :
    ((allEnds (m.toDescriptors start)).map RelationshipEnd.key).Nodup := by
  refine nodup_keys_allEnds ?_
  rintro ⟨name, d⟩ hd
  obtain ⟨entity, date, hentity, rfl⟩ := mem_toDescriptors h hd
  have hname := (h.entities name entity hentity).1
  have hall : ((m.describe entity date).relationships.map fun r => (name, r.name)).Sublist
      (m.relationships.toList.flatMap fun r => r.statedEnds.map RelationshipEnd.key) := by
    rw [describe, List.map_flatMap, hname]
    apply List.Sublist.flatMap_right
    intro r _
    rw [Relationship.entriesFor, Relationship.statedEnds]
    by_cases hsource : r.source = name <;> by_cases hdestination : r.destination = name <;>
      by_cases hentry : r.hasDestinationEntry = true <;>
      simp [hsource, hdestination, hentry, RelationshipEnd.key, Relationship.sourceEnd,
        Relationship.destinationEnd, Relationship.sourceEntry, Relationship.destinationEntry]
  have hnames := hdistinct.sublist hall
  rw [List.nodup_iff_pairwise_ne, List.pairwise_map] at hnames ⊢
  exact hnames.imp fun hne hsame => hne (by rw [hsame])

theorem tidy_toDescriptors (h : m.WellFormed)
    (hnames : ∀ name ∈ m.entities.keys, isCapitalized name = true)
    (hends : ∀ r ∈ m.relationships.toList,
      isCapitalized r.source = true ∧ isCapitalized r.destination = true)
    (hdistinct : (m.relationships.toList.flatMap fun r =>
      r.statedEnds.map RelationshipEnd.key).Nodup) (start : Int) :
    (m.toDescriptors start).Tidy where
  names := by
    rw [keys_toDescriptors h]
    exact hnames
  targets := by
    intro e he
    obtain ⟨r, hr, hends'⟩ := (mem_ends h).mp he
    have hword : ∀ {name : String}, isCapitalized name = true → isWord (lowerFirst name) = true :=
      fun hname => isWord_of_isIdentifierFrom (isUncapitalized_lowerFirst hname)
    rcases hends' with ⟨-, rfl⟩ | ⟨-, -, rfl⟩
    · exact ⟨hword (hends r hr).2, rfl⟩
    · exact ⟨hword (hends r hr).1, rfl⟩
  distinct := nodup_keys_statedEnds h start hdistinct

theorem resolveTarget_toDescriptors (h : m.WellFormed) {name : String}
    (hname : name ∈ m.entities.keys) (hcapital : isCapitalized name = true) :
    resolveTarget (m.toDescriptors start) (lowerFirst name) = some name :=
  resolveTarget_of_mem (by rwa [keys_toDescriptors h]) (upperFirst_lowerFirst hcapital)

theorem Describable.tidy (h : m.WellFormed) (hm : m.Describable) (start : Int) :
    (m.toDescriptors start).Tidy := by
  refine tidy_toDescriptors h (fun name hname => (hm.names name hname).1) ?_ ?_ start
  · intro r hr
    have hregular := hm.regular r hr
    refine ⟨(hm.names _ hregular.source).1, ?_⟩
    rcases hregular.destination with hdeclared | ⟨-, huser⟩
    · exact (hm.names _ hdeclared).1
    · rw [huser]
      decide
  · rw [List.flatMap_congr fun r hr => (hm.regular r hr).keys_statedEnds]
    exact hm.distinct

end Model
end DomainModel
