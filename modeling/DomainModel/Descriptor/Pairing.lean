import DomainModel.Descriptor.Basic
import DomainModel.Model.Entity
import DomainModel.Text.Casing
/-!
# Pairing relationship ends

Each descriptor states only its own end of a relationship. Ends that name each other are joined to
one relationship, taken from the one-to-many end or the owner; an end without a partner stands
alone. Source ends choose first.
-/
namespace DomainModel

/-- An end with the entity that states it. -/
structure RelationshipEnd where
  entity : String
  cardinality : Cardinality
  descriptor : RelationshipDescriptor
  deriving DecidableEq

namespace RelationshipEnd

def isOwner (e : RelationshipEnd) : Bool := e.descriptor.ownerSide == some true

def isSource (e : RelationshipEnd) : Bool :=
  e.cardinality == .oneToMany || (e.cardinality.hasOwnerSide && e.isOwner)

def injectedText (e : RelationshipEnd) : String := e.descriptor.injectedField.text

/-- Whether `candidate` has the opposite cardinality, leads back to the entity of `e`, and names no
other end than `e`. -/
def isPartner (e candidate : RelationshipEnd) : Bool :=
  candidate.cardinality == e.cardinality.reversed &&
    lowerFirst candidate.descriptor.otherEntity == lowerFirst e.entity &&
    match candidate.descriptor.otherName with
    | none => true
    | some back => back == e.descriptor.name

def requiredFlag (e : RelationshipEnd) : Option Bool :=
  if e.descriptor.isRequired then some true else none

end RelationshipEnd

/-- The ends of known type that an entity states, in order. -/
def endsOf (entity : String) (d : EntityDescriptor) : List RelationshipEnd :=
  d.relationships.filterMap fun r =>
    (Cardinality.ofDescriptorWord? r.type).map fun c => ⟨entity, c, r⟩

/-- All ends, entity by entity. -/
def allEnds (entities : Descriptors) : List RelationshipEnd :=
  entities.entries.flatMap fun e => endsOf e.1 e.2

/-- The entity that an end leads to: one of the map, or the user entity. -/
def resolveTarget (entities : Descriptors) (otherEntity : String) : Option String :=
  let name := upperFirst otherEntity
  if entities.contains name || Entity.isUser name then some name else none

/-- What pairing finds: an end alone with its target, or a source and a destination end. Ends are
numbered as in `allEnds`. -/
inductive PairedEnds where
  | alone (number : Nat) (e : RelationshipEnd) (target : String)
  | joined (sourceNumber : Nat) (source : RelationshipEnd)
      (destinationNumber : Nat) (destination : RelationshipEnd)
  deriving DecidableEq

namespace PairedEnds

def relationship : PairedEnds → Relationship
  | alone _ e target =>
    { Relationship.between e.cardinality e.entity target with
      injectedInSource := some e.injectedText
      commentInSource := e.descriptor.comment
      requiredInSource := e.requiredFlag }
  | joined _ source _ destination =>
    { Relationship.between source.cardinality source.entity destination.entity with
      injectedInSource := some source.injectedText
      commentInSource := source.descriptor.comment
      requiredInSource := source.requiredFlag
      injectedInDestination := some destination.injectedText
      commentInDestination := destination.descriptor.comment
      requiredInDestination := destination.requiredFlag }

end PairedEnds

/-- The number of the last end with this name on this entity. -/
def endNumber? (ends : List RelationshipEnd) (entity name : String) : Option Nat :=
  (ends.zipIdx.reverse.find? fun e =>
    lowerFirst e.1.entity == lowerFirst entity && e.1.descriptor.name == name).map Prod.snd

structure PairingState where
  used : List Nat
  found : List PairedEnds

namespace PairingState

/-- The unused end that `e` names on `target`, if it is a partner of `e`. -/
def partner? (s : PairingState) (ends : List RelationshipEnd) (e : RelationshipEnd)
    (target : String) : Option (Nat × RelationshipEnd) := do
  let name ← e.descriptor.otherName
  let number ← endNumber? ends target name
  let other ← ends[number]?
  if number ∉ s.used ∧ e.isPartner other then return (number, other) else none

/-- Whether `other`, found from `e`, is the source of the two. -/
def otherIsSource (e other : RelationshipEnd) : Bool :=
  other.cardinality == .oneToMany ||
    (other.cardinality.hasOwnerSide && other.isOwner && !e.isOwner)

/-- Treats one end: a used one is passed over, and so is one that leads nowhere. -/
def step (entities : Descriptors) (ends : List RelationshipEnd) (s : PairingState)
    (item : RelationshipEnd × Nat) : PairingState :=
  let (e, number) := item
  if number ∈ s.used then s
  else
    let s := { s with used := number :: s.used }
    match resolveTarget entities e.descriptor.otherEntity with
    | none => s
    | some target =>
      match s.partner? ends e target with
      | none => { s with found := s.found ++ [.alone number e target] }
      | some (otherNumber, other) =>
        { used := otherNumber :: s.used
          found := s.found ++
            [if otherIsSource e other then .joined otherNumber other number e
              else .joined number e otherNumber other] }

end PairingState

/-- The numbered ends, source ends first. -/
def pairingOrder (ends : List RelationshipEnd) : List (RelationshipEnd × Nat) :=
  ends.zipIdx.filter (fun e => e.1.isSource) ++ ends.zipIdx.filter (fun e => !e.1.isSource)

def pairEnds (entities : Descriptors) : List PairedEnds :=
  let ends := allEnds entities
  ((pairingOrder ends).foldl (PairingState.step entities ends) ⟨[], []⟩).found

/-- The relationships that the descriptors state. -/
def pairRelationships (entities : Descriptors) : List Relationship :=
  (pairEnds entities).map PairedEnds.relationship

end DomainModel
