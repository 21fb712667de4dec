import DomainModel.Descriptor.ToModel
import DomainModel.Proofs.Options.Collection
import DomainModel.Proofs.Outcomes
import DomainModel.Proofs.Relationships.Collection
/-!
# What reading descriptors adds to a model

Where reading succeeds, its result is the model with the stated enumerations and entities written in
turn, and with the paired relationships and the stated options added in turn. The applications stay
as they are.
-/
namespace DomainModel

theorem FieldDescriptor.toField_validations (f : FieldDescriptor) :
    f.toField =
      { Field.named f.name f.modelType with
        comment := f.comment
        validations := (∅ : Table String Validation).insertAll
          (f.rules.map fun rule => (rule, ⟨rule, f.ruleValue? rule⟩)) } := by
  have hfold : ∀ (rules : List String) (field : Field),
      rules.foldl (fun field rule => field.addValidation ⟨rule, f.ruleValue? rule⟩) field =
        { field with
          validations := field.validations.insertAll
            (rules.map fun rule => (rule, ⟨rule, f.ruleValue? rule⟩)) } := by
    intro rules
    induction rules with
    | nil => exact fun _ => rfl
    | cons rule rest ih => exact fun field => ih (field.addValidation ⟨rule, f.ruleValue? rule⟩)
  exact hfold f.rules _

namespace EntityDescriptor

theorem toEntity_fields (d : EntityDescriptor) (name : String) :
    d.toEntity name =
      { Entity.named name with
        tableName := (d.tableName.filter fun t => t != "").getD name
        comment := d.comment
        fields := (∅ : Table String Field).insertAll
          (d.fields.map fun f => (f.toField.name, f.toField)) } := by
  have hfold : ∀ (fields : List FieldDescriptor) (e : Entity),
      fields.foldl (fun e f => e.addField f.toField) e =
        { e with fields :=
          e.fields.insertAll (fields.map fun f => (f.toField.name, f.toField)) } := by
    intro fields
    induction fields with
    | nil => exact fun _ => rfl
    | cons f rest ih => exact fun e => ih (e.addField f.toField)
  exact hfold d.fields _

/-- The options that the descriptor of an entity sets, each for this entity alone. -/
def statedOptions (d : EntityDescriptor) (entity : String) : List GeneratorOption :=
  d.binaryOptions.map (fun o => (GeneratorOption.binary o.1 o.2 Scope.all).withIncluded [entity]) ++
    d.unaryOptions.map fun name => (GeneratorOption.unary name Scope.all).withIncluded [entity]

end EntityDescriptor

namespace Model
variable {m m' : Model}

private theorem addEnumerations_ok {l : List Enumeration}
    (h : l.foldlM addEnumeration m = .ok m') :
    m' = { m with enumerations := m.enumerations.insertAll (l.map fun e => (e.name, e)) } := by
  rw [Table.insertAll, List.foldl_map]
  apply Outcome.foldlM_rewrites
    (fun t => mk m.applications m.entities t m.relationships m.options) h
  intro e _ t k hadd
  exact (addEnumeration_eq_ok.mp hadd).2

private theorem addDescribed_ok {name : String} {d : EntityDescriptor}
    (h : m.addDescribed name d = .ok m') :
    m' = { m with
      entities := m.entities.insert name (d.toEntity name)
      enumerations := m.enumerations.insertAll (d.enumerations.map fun e => (e.name, e)) } := by
  obtain ⟨k, henumerations, hentity⟩ := Outcome.bind_eq_ok.mp h
  have hname : (d.toEntity name).name = name := by rw [d.toEntity_fields name]; rfl
  rw [(addEntity_eq_ok.mp hentity).2, addEnumerations_ok henumerations, hname]

private theorem addAllDescribed_ok {l : List (String × EntityDescriptor)}
    (h : l.foldlM (fun m e => m.addDescribed e.1 e.2) m = .ok m') :
    m' = { m with
      entities := m.entities.insertAll (l.map fun e => (e.1, e.2.toEntity e.1))
      enumerations := m.enumerations.insertAll
        ((l.flatMap fun e => e.2.enumerations).map fun e => (e.name, e)) } := by
  induction l generalizing m with
  | nil => exact (Except.ok.inj h).symm
  | cons e rest ih =>
    obtain ⟨k, hadd, hrest⟩ := Outcome.foldlM_cons_ok.mp h
    rw [ih hrest, addDescribed_ok hadd, List.flatMap_cons, List.map_append,
      Table.insertAll_append]
    rfl

private theorem addRelationships_ok {l : List Relationship}
    (h : l.foldlM addRelationship m = .ok m') :
    m' = { m with relationships := m.relationships.addAll l } := by
  apply Outcome.foldlM_rewrites (fun t => mk m.applications m.entities m.enumerations t m.options) h
  intro r _ t k hadd
  exact (addRelationship_eq_ok.mp hadd).2

private theorem addOptionsFor_ok {α : Type} {entity : String} {f : α → Outcome GeneratorOption}
    {g : α → GeneratorOption} {l : List α} (hmake : ∀ a o, f a = .ok o → o = g a)
    (h : l.foldlM (fun m a => do m.addOptionFor entity (← f a)) m = .ok m') :
    m' = { m with options := m.options.addAll (l.map fun a => (g a).withIncluded [entity]) } := by
  rw [OptionTable.addAll, List.foldl_map]
  apply Outcome.foldlM_rewrites
    (fun t => mk m.applications m.entities m.enumerations m.relationships t) h
  intro a _ t k hstep
  obtain ⟨o, ho, hadd⟩ := Outcome.bind_eq_ok.mp hstep
  rw [(addOption_eq_ok.mp hadd).2, hmake a o ho]

private theorem foldOptions_ok {name : String} {d : EntityDescriptor}
    (h : m.foldOptions name d = .ok m') :
    m' = { m with options := m.options.addAll (d.statedOptions name) } := by
  obtain ⟨k, hbinary, hunary⟩ := Outcome.bind_eq_ok.mp h
  have hvalue := addOptionsFor_ok (g := fun o : String × String => .binary o.1 o.2 Scope.all)
    (fun o p hp => (GeneratorOption.ofValue_eq_ok.mp hp).2) hbinary
  have hflag := addOptionsFor_ok (g := fun name : String => .unary name Scope.all)
    (fun name p hp => (GeneratorOption.ofFlag_eq_ok.mp hp).2) hunary
  rw [hflag, hvalue, EntityDescriptor.statedOptions, OptionTable.addAll_append]

private theorem foldAllOptions_ok {l : List (String × EntityDescriptor)}
    (h : l.foldlM (fun m e => m.foldOptions e.1 e.2) m = .ok m') :
    m' = { m with options := m.options.addAll (l.flatMap fun e => e.2.statedOptions e.1) } := by
  rw [OptionTable.addAll, List.foldl_flatMap]
  apply Outcome.foldlM_rewrites
    (fun t => mk m.applications m.entities m.enumerations m.relationships t) h
  intro e _ t k hfold
  exact foldOptions_ok hfold

end Model

namespace Descriptors
variable {entities : Descriptors} {m m' : Model}

/-- What reading makes of a model. -/
def readInto (entities : Descriptors) (m : Model) : Model where
  applications := m.applications
  entities := m.entities.insertAll (entities.entries.map fun e => (e.1, e.2.toEntity e.1))
  enumerations := m.enumerations.insertAll
    ((entities.entries.flatMap fun e => e.2.enumerations).map fun e => (e.name, e))
  relationships := m.relationships.addAll (pairRelationships entities)
  options := m.options.addAll (entities.entries.flatMap fun e => e.2.statedOptions e.1)

theorem toModelFrom_eq_readInto (h : entities.toModelFrom m = .ok m') :
    m' = entities.readInto m := by
  obtain ⟨_, -, h⟩ := Outcome.bind_eq_ok.mp h
  obtain ⟨m₁, hentities, h⟩ := Outcome.bind_eq_ok.mp h
  obtain ⟨m₂, hrelationships, hoptions⟩ := Outcome.bind_eq_ok.mp h
  rw [Model.foldAllOptions_ok hoptions, Model.addRelationships_ok hrelationships,
    Model.addAllDescribed_ok hentities]
  rfl

theorem toModel_relationships (h : entities.toModel = .ok m) :
    m.relationships = (∅ : RelationshipTable).addAll (pairRelationships entities) := by
  rw [toModelFrom_eq_readInto h]
  rfl

end Descriptors
end DomainModel
