import DomainModel.Proofs.Descriptors.Reading
import DomainModel.Proofs.Models.Problems
import DomainModel.Proofs.Models.Reachable
import DomainModel.Proofs.Pairing.Accounting
/-!
# Descriptors that can be read

Reading succeeds where the user entity is not declared, or may be, and every descriptor states an
acceptable entity, and nowhere else. What the ends of relationships say never makes it fail.
-/
namespace DomainModel

theorem GeneratorOption.Legal.withIncluded_problems {o : GeneratorOption} (h : o.Legal)
    (entity : String) : (o.withIncluded [entity]).problems = [] := by
  rw [problems_eq_nil]
  unfold withIncluded
  rw [name_withScope, value?_withScope, scope_withScope]
  have hincluded : (NameSet.ofList [entity]).isEmpty = false := by
    simp [NameSet.isEmpty, NameSet.ofList, NameSet.insertAll, NameSet.names_insert, NameSet.empty]
  cases o with
  | unary name scope => exact ⟨OptionName.isUnary_ne_empty h, hincluded, by simp [value?]⟩
  | binary name value scope =>
    have hvalue := OptionName.isLegalValue_ne_empty h.2
    exact ⟨OptionName.isBinary_ne_empty h.1, hincluded, by simpa [value?] using hvalue⟩

namespace FieldDescriptor

/-- The field lacks a name or a type, or states a rule that is unknown or has not the value that it
needs. -/
def Faulty (f : FieldDescriptor) : Prop :=
  f.name = "" ∨ f.type = "" ∨ ∃ rule ∈ f.rules, ValidationName.isKnown rule = false ∨
    ValidationName.needsValue rule = true ∧
      ∀ value, f.ruleValue? rule = some value → value = .null ∨ value = .text ""

theorem mem_validations_toField {f : FieldDescriptor} {v : Validation} :
    v ∈ f.toField.validations.values ↔ ∃ rule ∈ f.rules, ⟨rule, f.ruleValue? rule⟩ = v := by
  have hentries := Table.entries_insertAll_told
    (fun rule => some (⟨rule, f.ruleValue? rule⟩ : Validation)) f.rules
  simp only [Option.map_some, List.filterMap_eq_map'] at hentries
  rw [toField_validations, Table.values]
  dsimp only
  rw [hentries, List.map_map, List.mem_map]
  exact exists_congr fun rule => and_congr_left fun _ => NameSet.mem_ofList

theorem modelType_eq_empty_iff {f : FieldDescriptor} : f.modelType = "" ↔ f.type = "" := by
  have hblob : ∀ content type, FieldType.ofBlobContent? content = some type → type ≠ "" := by
    intro content type h
    unfold FieldType.ofBlobContent? at h
    rintro rfl
    split at h
    · simp [FieldType.blob] at h
    · split at h
      · simp [FieldType.imageBlob] at h
      · split at h
        · simp [FieldType.textBlob] at h
        · cases h
  unfold modelType
  split
  · next hbytes =>
    refine iff_of_false ?_ (by rw [hbytes]; decide)
    cases hcontent : f.blobContent.bind FieldType.ofBlobContent? with
    | none => decide
    | some type =>
      obtain ⟨content, -, htype⟩ := Option.bind_eq_some_iff.mp hcontent
      exact hblob content type htype
  · exact Iff.rfl

theorem toField_problems_iff {f : FieldDescriptor} : f.toField.problems = [] ↔ ¬ f.Faulty := by
  have hrule : ∀ rule, (⟨rule, f.ruleValue? rule⟩ : Validation).problems = [] ↔
      ¬ (ValidationName.isKnown rule = false ∨ ValidationName.needsValue rule = true ∧
        ∀ value, f.ruleValue? rule = some value → value = .null ∨ value = .text "") := by
    intro rule
    have hnamed : ValidationName.isKnown rule = true → rule ≠ "" := by
      rintro hknown rfl
      exact absurd hknown (by decide)
    rw [Validation.problems_eq_nil, ← Validation.valueText_eq_none (v := ⟨rule, f.ruleValue? rule⟩),
      not_or, Bool.not_eq_false, not_and, ← ne_eq, Option.ne_none_iff_isSome]
    exact ⟨fun h => h.2, fun h => ⟨hnamed h.1, h⟩⟩
  have hfield : f.toField.name = f.name ∧ f.toField.type = f.modelType := by
    rw [toField_validations]
    exact ⟨rfl, rfl⟩
  rw [Field.problems_eq_nil, hfield.1, hfield.2, Faulty, ne_eq, ne_eq, modelType_eq_empty_iff]
  simp only [mem_validations_toField, forall_exists_index, and_imp, forall_apply_eq_imp_iff₂, hrule,
    not_or, not_exists, not_and]

end FieldDescriptor

namespace EntityDescriptor

/-- The field is the last of its name, so it is the one that the entity keeps. -/
def Keeps (d : EntityDescriptor) (f : FieldDescriptor) : Prop :=
  ∃ before after, d.fields = before ++ f :: after ∧ ∀ g ∈ after, g.name ≠ f.name

theorem mem_fields_toEntity {d : EntityDescriptor} {name : String} {f : Field} :
    f ∈ (d.toEntity name).fields.values ↔ ∃ g, d.Keeps g ∧ g.toField = f := by
  have hname : ∀ g : FieldDescriptor, g.toField.name = g.name := by
    intro g
    rw [FieldDescriptor.toField_validations]
    rfl
  rw [toEntity_fields, Table.mem_values]
  simp only [Table.mem_entries_ofKeyed, hname, Keeps]
  constructor
  · rintro ⟨k, before, g, after, hsplit, hlast, -, rfl⟩
    exact ⟨g, ⟨before, after, hsplit, hlast⟩, rfl⟩
  · rintro ⟨g, ⟨before, after, hsplit, hlast⟩, rfl⟩
    exact ⟨g.name, before, g, after, hsplit, hlast, rfl, rfl⟩

theorem toEntity_problems_iff {d : EntityDescriptor} {name : String} :
    (d.toEntity name).problems = [] ↔ name ≠ "" ∧ ∀ f, d.Keeps f → ¬ f.Faulty := by
  have htable : name ≠ "" → (d.tableName.filter fun t => t != "").getD name ≠ "" := by
    intro hne
    cases hstated : d.tableName.filter fun t => t != "" with
    | none => exact hne
    | some t =>
      have ht := (Option.filter_eq_some_iff.mp hstated).2
      exact bne_iff_ne.mp ht
  have hentity : (d.toEntity name).name = name ∧
      (d.toEntity name).tableName = (d.tableName.filter fun t => t != "").getD name := by
    rw [toEntity_fields]
    exact ⟨rfl, rfl⟩
  rw [Entity.problems_eq_nil, hentity.1, hentity.2]
  simp only [mem_fields_toEntity, forall_exists_index, and_imp, forall_apply_eq_imp_iff₂,
    FieldDescriptor.toField_problems_iff]
  exact ⟨fun h => ⟨h.1, h.2.2⟩, fun h => ⟨h.1, htable h.1, h.2⟩⟩

theorem enumerations_problems_iff {d : EntityDescriptor} :
    (∀ e ∈ d.enumerations, e.problems = []) ↔ ∀ f ∈ d.fields, f.values ≠ none → f.type ≠ "" := by
  simp only [enumerations, List.mem_filterMap, FieldDescriptor.enumeration?, Option.map_eq_some_iff,
    forall_exists_index, and_imp, Enumeration.problems_eq_nil, Option.ne_none_iff_exists]
  constructor
  · intro h f hf values hvalues
    exact h _ f hf values hvalues.symm rfl
  · rintro h _ f hf values hvalues rfl
    exact h f hf values hvalues.symm

end EntityDescriptor

/-- The enumerations, the entity and the option values of the descriptor have no problems. -/
structure EntityDescriptor.Acceptable (name : String) (d : EntityDescriptor) : Prop where
  enumerations : ∀ e ∈ d.enumerations, e.problems = []
  entity : (d.toEntity name).problems = []
  options : ∀ o ∈ d.binaryOptions,
    OptionName.isBinary o.1 = true ∧ OptionName.isLegalValue o.1 o.2 = true

namespace EntityDescriptor

theorem isUnary_of_mem_unaryOptions {d : EntityDescriptor} {name : String}
    (h : name ∈ d.unaryOptions) : OptionName.isUnary name = true := by
  obtain ⟨⟨n, b⟩, hmem, rfl⟩ := List.mem_map.mp h
  have hmem := (List.mem_filter.mp hmem).1
  simp only [List.mem_cons, Prod.mk.injEq, List.not_mem_nil, or_false] at hmem
  rcases hmem with ⟨rfl, -⟩ | ⟨rfl, -⟩ | ⟨rfl, -⟩ | ⟨rfl, -⟩ <;> rfl

theorem Acceptable.name_ne_empty {name : String} {d : EntityDescriptor} (h : d.Acceptable name) :
    name ≠ "" := by
  have hname := (Entity.problems_eq_nil.mp h.entity).1
  rwa [toEntity_fields] at hname

end EntityDescriptor

namespace Model

theorem addOptionFor_succeeds (m : Model) (entity : String) {o : GeneratorOption}
    (h : o.Legal) : ∃ m', m.addOptionFor entity o = .ok m' :=
  ⟨_, addOption_eq_ok.mpr ⟨h.withIncluded_problems entity, rfl⟩⟩

theorem addDescribed_succeeds_iff (m : Model) (name : String) (d : EntityDescriptor) :
    (∃ m', m.addDescribed name d = .ok m') ↔
      (∀ e ∈ d.enumerations, e.problems = []) ∧ (d.toEntity name).problems = [] := by
  have henumerations := Outcome.foldlM_succeeds_iff (f := addEnumeration)
    (P := fun e => e.problems = []) (l := d.enumerations)
    (fun e _ b => ⟨fun ⟨_, hadd⟩ => (addEnumeration_eq_ok.mp hadd).1,
      fun h => ⟨_, addEnumeration_eq_ok.mpr ⟨h, rfl⟩⟩⟩) m
  rw [← henumerations]
  constructor
  · rintro ⟨m', hadd⟩
    obtain ⟨m₁, hfold, hentity⟩ := Outcome.bind_eq_ok.mp hadd
    exact ⟨⟨m₁, hfold⟩, (addEntity_eq_ok.mp hentity).1⟩
  · rintro ⟨⟨m₁, hfold⟩, hentity⟩
    exact ⟨_, Outcome.bind_eq_ok.mpr ⟨m₁, hfold, addEntity_eq_ok.mpr ⟨hentity, rfl⟩⟩⟩

theorem foldOptions_succeeds_iff (m : Model) (name : String) (d : EntityDescriptor) :
    (∃ m', m.foldOptions name d = .ok m') ↔ ∀ o ∈ d.binaryOptions,
      OptionName.isBinary o.1 = true ∧ OptionName.isLegalValue o.1 o.2 = true := by
  have hbinary := Outcome.foldlM_succeeds_iff (l := d.binaryOptions)
    (f := fun (m : Model) (o : String × String) => do
      m.addOptionFor name (← GeneratorOption.ofValue o.1 o.2))
    (P := fun o => OptionName.isBinary o.1 = true ∧ OptionName.isLegalValue o.1 o.2 = true) <| by
    intro o _ b
    constructor
    · rintro ⟨b', hadd⟩
      obtain ⟨p, hp, -⟩ := Outcome.bind_eq_ok.mp hadd
      exact (GeneratorOption.ofValue_eq_ok.mp hp).1
    · intro h
      obtain ⟨b', hb'⟩ := addOptionFor_succeeds b name (o := .binary o.1 o.2 Scope.all) h
      exact ⟨b', Outcome.bind_eq_ok.mpr ⟨_, GeneratorOption.ofValue_eq_ok.mpr ⟨h, rfl⟩, hb'⟩⟩
  have hunary : ∀ flag ∈ d.unaryOptions, ∀ b : Model, ∃ b',
      (do b.addOptionFor name (← GeneratorOption.ofFlag flag)) = .ok b' := by
    intro flag hmem b
    have hlegal := EntityDescriptor.isUnary_of_mem_unaryOptions hmem
    obtain ⟨b', hb'⟩ := addOptionFor_succeeds b name (o := .unary flag Scope.all) hlegal
    exact ⟨b', Outcome.bind_eq_ok.mpr ⟨_, GeneratorOption.ofFlag_eq_ok.mpr ⟨hlegal, rfl⟩, hb'⟩⟩
  rw [← hbinary m]
  constructor
  · rintro ⟨m', hfold⟩
    obtain ⟨m₁, h₁, -⟩ := Outcome.bind_eq_ok.mp hfold
    exact ⟨m₁, h₁⟩
  · rintro ⟨m₁, h₁⟩
    obtain ⟨m₂, h₂⟩ := Outcome.foldlM_succeeds hunary m₁
    exact ⟨m₂, Outcome.bind_eq_ok.mpr ⟨m₁, h₁, h₂⟩⟩

end Model

theorem pairRelationships_problems {entities : Descriptors} (h : "" ∉ entities.keys)
    {r : Relationship} (hr : r ∈ pairRelationships entities) : r.problems = [] := by
  obtain ⟨p, hp, rfl⟩ := List.mem_map.mp hr
  obtain ⟨hsource, hdestination, -⟩ := pair_directed hp
  obtain ⟨x, -, -, -, hfield⟩ := p.relationship_source
  rw [Relationship.problems_eq_nil]
  refine ⟨fun hempty => h (hempty ▸ hsource), ?_, .inl (by rw [hfield]; rfl)⟩
  rcases hdestination with hkey | huser
  · exact fun hempty => h (hempty ▸ hkey)
  · rw [huser]
    decide

namespace Descriptors

theorem checkUser_eq_ok {entities : Descriptors} {m : Model} {u : Unit} :
    checkUser entities m = .ok u ↔
      (userEntityName ∈ entities.keys → m.options.named OptionName.skipUserManagement ≠ []) := by
  simp [checkUser, ← Table.contains_iff]

theorem addPaired_succeeds {entities : Descriptors} (h : "" ∉ entities.keys) (m : Model) :
    ∃ m', (pairRelationships entities).foldlM Model.addRelationship m = .ok m' :=
  Outcome.foldlM_succeeds (fun _ hr _ =>
    ⟨_, Model.addRelationship_eq_ok.mpr ⟨pairRelationships_problems h hr, rfl⟩⟩) m

/-- Reading succeeds exactly when the user entity is not declared, or may be, and every descriptor
is acceptable. -/
theorem toModelFrom_succeeds_iff {entities : Descriptors} {m : Model} :
    (∃ m', entities.toModelFrom m = .ok m') ↔
      (userEntityName ∈ entities.keys → m.options.named OptionName.skipUserManagement ≠ []) ∧
        ∀ name d, (name, d) ∈ entities.entries → d.Acceptable name := by
  have hentities := Outcome.foldlM_succeeds_iff (l := entities.entries)
    fun e _ b => Model.addDescribed_succeeds_iff b e.1 e.2
  have hoptions := Outcome.foldlM_succeeds_iff (l := entities.entries)
    fun e _ b => Model.foldOptions_succeeds_iff b e.1 e.2
  constructor
  · rintro ⟨m', h⟩
    obtain ⟨_, hcheck, h⟩ := Outcome.bind_eq_ok.mp h
    obtain ⟨m₁, h₁, h⟩ := Outcome.bind_eq_ok.mp h
    obtain ⟨m₂, -, h₂⟩ := Outcome.bind_eq_ok.mp h
    refine ⟨checkUser_eq_ok.mp hcheck, fun name d hd => ?_⟩
    obtain ⟨henumerations, hentity⟩ := (hentities m).mp ⟨m₁, h₁⟩ (name, d) hd
    exact ⟨henumerations, hentity, (hoptions m₂).mp ⟨m', h₂⟩ (name, d) hd⟩
  · rintro ⟨huser, h⟩
    have hnames : "" ∉ entities.keys := by
      intro hmem
      obtain ⟨d, hd⟩ := Table.mem_keys.mp hmem
      exact (h _ d hd).name_ne_empty rfl
    obtain ⟨m₁, h₁⟩ := (hentities m).mpr fun e he =>
      ⟨(h e.1 e.2 he).enumerations, (h e.1 e.2 he).entity⟩
    obtain ⟨m₂, h₂⟩ := addPaired_succeeds hnames m₁
    obtain ⟨m₃, h₃⟩ := (hoptions m₂).mpr fun e he => (h e.1 e.2 he).options
    exact ⟨m₃, Outcome.bind_eq_ok.mpr ⟨(), checkUser_eq_ok.mpr huser,
      Outcome.bind_eq_ok.mpr ⟨m₁, h₁, Outcome.bind_eq_ok.mpr ⟨m₂, h₂, h₃⟩⟩⟩⟩

end Descriptors
end DomainModel
