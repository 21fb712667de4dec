import DomainModel.Descriptor.OfModel
import DomainModel.Proofs.Descriptors.Acceptance
/-!
# The descriptors of a well-formed model

Conversion makes one descriptor for each entity, and every one of them can be read again.
-/
namespace DomainModel

namespace Model

/-- The descriptors in the order of the entities, each with its own changelog date. -/
theorem entries_toDescriptors {m : Model} (h : m.WellFormed) (start : Int) :
    (m.toDescriptors start).entries = m.entities.values.zipIdx.map fun e =>
      (e.1.name, m.describe e.1 (changelogDate start e.2)) := by
  have hkeys : m.entities.values.map Entity.name = m.entities.keys := by
    simp only [Table.values, Table.keys, List.map_map]
    exact List.map_congr_left fun e he => (h.entities e.1 e.2 he).1
  refine Table.entries_ofList ?_
  rw [List.map_map, show (Prod.fst ∘ fun e : Entity × Nat =>
    (e.1.name, m.describe e.1 (changelogDate start e.2))) = Entity.name ∘ Prod.fst from rfl,
    ← List.map_map, List.zipIdx_map_fst, hkeys]
  exact m.entities.distinct

theorem keys_toDescriptors {m : Model} (h : m.WellFormed) (start : Int) :
    (m.toDescriptors start).keys = m.entities.keys := by
  rw [Table.keys, entries_toDescriptors h, List.map_map, show (Prod.fst ∘ fun e : Entity × Nat =>
    (e.1.name, m.describe e.1 (changelogDate start e.2))) = Entity.name ∘ Prod.fst from rfl,
    ← List.map_map, List.zipIdx_map_fst]
  simp only [Table.values, Table.keys, List.map_map]
  exact List.map_congr_left fun e he => (h.entities e.1 e.2 he).1

theorem mem_toDescriptors {m : Model} (h : m.WellFormed) {start : Int} {name : String}
    {d : EntityDescriptor} (hd : (name, d) ∈ (m.toDescriptors start).entries) :
    ∃ e date, (name, e) ∈ m.entities.entries ∧ d = m.describe e date := by
  rw [entries_toDescriptors h] at hd
  obtain ⟨⟨e, i⟩, he, heq⟩ := List.mem_map.mp hd
  obtain ⟨rfl, rfl⟩ := Prod.mk.inj heq
  obtain ⟨key, hkey⟩ := Table.mem_values.mp (List.fst_mem_of_mem_zipIdx he)
  exact ⟨e, _, (h.entities key e hkey).1 ▸ hkey, rfl⟩

theorem exists_toDescriptors {m : Model} (h : m.WellFormed) (start : Int) {name : String}
    {e : Entity} (he : (name, e) ∈ m.entities.entries) :
    ∃ date, (name, m.describe e date) ∈ (m.toDescriptors start).entries := by
  rw [entries_toDescriptors h]
  obtain ⟨i, hi⟩ := List.mem_iff_getElem?.mp (Table.mem_values.mpr ⟨name, he⟩)
  refine ⟨changelogDate start i, List.mem_map.mpr ⟨(e, i), ?_, ?_⟩⟩
  · simpa [List.mem_zipIdx_iff_getElem?] using hi
  · rw [(h.entities name e he).1]

end Model

theorem Model.isBlankValue_eq_false {value : Json} :
    isBlankValue value = false ↔ ¬ (value = .null ∨ value = .text "") := by
  unfold isBlankValue
  split
  · simp
  · simp
  · next hnull htext => simpa using ⟨hnull, htext ""⟩

theorem Validation.valueText_isSome {v : Validation} :
    v.valueText.isSome = true ↔
      ∃ value, v.value = some value ∧ Model.isBlankValue value = false := by
  simp only [← Option.ne_none_iff_isSome, ne_eq, valueText_eq_none, not_forall, exists_prop,
    Model.isBlankValue_eq_false]

/-- The rules are known, what is stored is no blank, and a rule that needs a value has one. -/
structure FieldDescriptor.Sound (f : FieldDescriptor) : Prop where
  known : ∀ rule ∈ f.rules, rule ≠ "" ∧ ValidationName.isKnown rule = true
  stored : ∀ key value, f.extra.find? key = some value → Model.isBlankValue value = false
  valued : ∀ rule ∈ f.rules,
    ValidationName.needsValue rule = true → (f.ruleValue? rule).isSome = true

namespace FieldDescriptor

theorem Sound.toField_problems {f : FieldDescriptor} (h : f.Sound) (hname : f.name ≠ "")
    (htype : f.type ≠ "") : f.toField.problems = [] := by
  rw [toField_problems_iff]
  rintro (hempty | hempty | ⟨rule, hmem, hunknown | ⟨hneeds, hblank⟩⟩)
  · exact hname hempty
  · exact htype hempty
  · exact Bool.false_ne_true (hunknown.symm.trans (h.known rule hmem).2)
  · obtain ⟨value, hvalue⟩ := Option.isSome_iff_exists.mp (h.valued rule hmem hneeds)
    exact Model.isBlankValue_eq_false.mp (h.stored _ value hvalue) (hblank value hvalue)

end FieldDescriptor

namespace Model

theorem describeValidation_eq (f : FieldDescriptor) (v : Validation) :
    describeValidation f v =
      { f with rules := f.rules ++ [v.name], extra := (describeValidation f v).extra } := by
  unfold describeValidation
  split
  · rfl
  · split <;> rfl

theorem find?_describeValidation (f : FieldDescriptor) (v : Validation) (key : String) :
    (describeValidation f v).extra.find? key =
      match v.value with
      | some value =>
        if isBlankValue value = false ∧ ValidationName.descriptorKey v.name = key then some value
        else f.extra.find? key
      | none => f.extra.find? key := by
  unfold describeValidation
  cases v.value with
  | none => rfl
  | some value =>
    cases hblank : isBlankValue value with
    | true => simp [hblank]
    | false => simp [hblank, FieldDescriptor.setRuleValue]

theorem describeValidation_sound {f : FieldDescriptor} {v : Validation} (hf : f.Sound)
    (hv : v.problems = []) : (describeValidation f v).Sound := by
  obtain ⟨hname, hknown, hneeds⟩ := Validation.problems_eq_nil.mp hv
  have hrules : (describeValidation f v).rules = f.rules ++ [v.name] := by
    rw [describeValidation_eq]
  constructor
  · intro rule hrule
    rw [hrules] at hrule
    rcases List.mem_append.mp hrule with hold | hnew
    · exact hf.known rule hold
    · rw [List.mem_singleton.mp hnew]
      exact ⟨hname, hknown⟩
  · intro key value hfind
    rw [find?_describeValidation] at hfind
    split at hfind
    · split at hfind
      · next hstored =>
        rw [← Option.some.inj hfind]
        exact hstored.1
      · exact hf.stored key value hfind
    · exact hf.stored key value hfind
  · intro rule hrule hrneeds
    rw [hrules] at hrule
    rw [FieldDescriptor.ruleValue?, find?_describeValidation]
    rcases List.mem_append.mp hrule with hold | hnew
    · have hstored := hf.valued rule hold hrneeds
      split
      · split
        · rfl
        · exact hstored
      · exact hstored
    · obtain rfl := List.mem_singleton.mp hnew
      obtain ⟨value, hvalue, hblank⟩ := Validation.valueText_isSome.mp (hneeds hrneeds)
      simp [hvalue, hblank]

private theorem foldl_describeValidation (l : List Validation) (d : FieldDescriptor) :
    l.foldl describeValidation d =
      { d with
        rules := d.rules ++ l.map Validation.name
        extra := (l.foldl describeValidation d).extra } := by
  induction l generalizing d with
  | nil => simp
  | cons v rest ih =>
    rw [List.foldl_cons, ih, describeValidation_eq d v]
    simp

theorem describeField_filed (m : Model) (f : Field) :
    m.describeField f =
      { name := f.name
        type := if (FieldType.blobContent? f.type).isSome then FieldType.byteArray else f.type
        comment := f.comment
        values := (m.enumerations.find? f.type).map fun e => joinWith "," e.values.names
        blobContent := FieldType.blobContent? f.type
        rules := f.validations.values.map Validation.name
        extra := (m.describeField f).extra } :=
  foldl_describeValidation f.validations.values _

theorem describeField_sound (m : Model) {f : Field} (h : f.problems = []) :
    (m.describeField f).Sound ∧ (m.describeField f).name ≠ "" ∧
      (m.describeField f).type ≠ "" := by
  obtain ⟨hname, htype, hvalidations⟩ := Field.problems_eq_nil.mp h
  have hfold : ∀ (validations : List Validation) (d : FieldDescriptor),
      (∀ v ∈ validations, v.problems = []) → d.Sound →
      (validations.foldl describeValidation d).Sound := by
    intro validations
    induction validations with
    | nil => exact fun _ _ hd => hd
    | cons v rest ih =>
      intro d hproblems hd
      exact ih (describeValidation d v) (fun w hw => hproblems w (List.mem_cons_of_mem v hw))
        (describeValidation_sound hd (hproblems v List.mem_cons_self))
  have hstart : ∀ d : FieldDescriptor, d.rules = [] → d.extra = ∅ → d.Sound := by
    intro d hrules hextra
    refine ⟨by simp [hrules], fun key value hfind => ?_, by simp [hrules]⟩
    rw [hextra, show (∅ : Table String Json).find? key = none from rfl] at hfind
    simp at hfind
  refine ⟨hfold _ _ hvalidations (hstart _ rfl rfl), ?_, ?_⟩
  · rwa [describeField_filed]
  · rw [describeField_filed]
    dsimp only
    split
    · decide
    · exact htype

theorem optionValue?_legal {m : Model} (h : m.WellFormed) {option entity value : String}
    (hvalue : m.optionValue? option entity = some value) :
    OptionName.isBinary option = true ∧ OptionName.isLegalValue option value = true := by
  obtain ⟨o, hfind, ho⟩ := Option.bind_eq_some_iff.mp hvalue
  have hnamed := List.mem_of_find?_eq_some hfind
  simp only [OptionTable.named, List.mem_filter, beq_iff_eq] at hnamed
  obtain ⟨key, hkey⟩ := Table.mem_values.mp hnamed.1
  have hlegal := (h.options key o hkey).2
  cases o with
  | unary name scope => simp [GeneratorOption.value?] at ho
  | binary name v scope =>
    have hv : v = value := by simpa [GeneratorOption.value?] using ho
    have hname : name = option := hnamed.2
    subst hv hname
    exact hlegal

private theorem setValue_valueOrNo {m : Model} {option entity value : String}
    (h : EntityDescriptor.setValue (m.valueOrNo option entity) = some value) :
    m.optionValue? option entity = some value := by
  unfold EntityDescriptor.setValue valueOrNo at h
  cases hvalue : m.optionValue? option entity with
  | none =>
    rw [hvalue] at h
    simp [EntityDescriptor.noValue, Option.filter] at h
  | some v =>
    rw [hvalue] at h
    exact (Option.filter_eq_some_iff.mp h).1

/-- The binary options of a descriptor are those of the model, except for words for nothing. -/
theorem mem_binaryOptions_describe {m : Model} {e : Entity} {date : String}
    {o : String × String} (h : o ∈ (m.describe e date).binaryOptions) :
    m.optionValue? o.1 e.name = some o.2 := by
  obtain ⟨⟨name, held⟩, hmem, hset⟩ := List.mem_filterMap.mp h
  obtain ⟨value, hvalue, rfl⟩ := Option.map_eq_some_iff.mp hset
  have hplain : ∀ {v : Option String}, EntityDescriptor.setValue v = some value → v = some value :=
    fun hv => (Option.filter_eq_some_iff.mp hv).1
  simp only [describe, List.mem_cons, Prod.mk.injEq, List.not_mem_nil, or_false] at hmem
  rcases hmem with ⟨rfl, rfl⟩ | ⟨rfl, rfl⟩ | ⟨rfl, rfl⟩ | ⟨rfl, rfl⟩ | ⟨rfl, rfl⟩ | ⟨rfl, rfl⟩ |
    ⟨rfl, rfl⟩
  · exact setValue_valueOrNo hvalue
  · exact setValue_valueOrNo hvalue
  · exact setValue_valueOrNo hvalue
  · exact hplain hvalue
  · exact hplain hvalue
  · exact hplain hvalue
  · exact hplain hvalue

private theorem toEntity_problems {name : String} {d : EntityDescriptor} (hname : name ≠ "")
    (h : ∀ f ∈ d.fields, f.toField.problems = []) : (d.toEntity name).problems = [] := by
  rw [EntityDescriptor.toEntity_fields]
  refine Entity.problems_eq_nil.mpr ⟨hname, ?_, fun f hf => ?_⟩
  · cases htable : d.tableName.filter fun t => t != "" with
    | none => exact hname
    | some table => simpa using (Option.filter_eq_some_iff.mp htable).2
  · rcases Table.mem_values_insertAll hf with hf | hf
    · cases hf
    · rw [List.map_map] at hf
      obtain ⟨g, hg, rfl⟩ := List.mem_map.mp hf
      exact h g hg

theorem describe_acceptable {m : Model} (h : m.WellFormed) {e : Entity} (he : e.problems = [])
    (date : String) : (m.describe e date).Acceptable e.name := by
  have hfield : ∀ d ∈ (m.describe e date).fields, d.Sound ∧ d.name ≠ "" ∧ d.type ≠ "" := by
    intro d hd
    obtain ⟨f, hf, rfl⟩ := List.mem_map.mp hd
    exact m.describeField_sound ((Entity.problems_eq_nil.mp he).2.2 f hf)
  constructor
  · intro enum henum
    obtain ⟨d, hd, hnamed⟩ := List.mem_filterMap.mp henum
    obtain ⟨values, -, rfl⟩ := Option.map_eq_some_iff.mp hnamed
    exact Enumeration.problems_eq_nil.mpr (hfield d hd).2.2
  · refine toEntity_problems (Entity.problems_eq_nil.mp he).1 fun d hd => ?_
    obtain ⟨hsound, hname, htype⟩ := hfield d hd
    exact hsound.toField_problems hname htype
  · exact fun o ho => optionValue?_legal h (mem_binaryOptions_describe ho)

/-- The descriptors of a well-formed model can be read into any model, unless they declare the user
entity where user management is not left out. -/
theorem toModelFrom_toDescriptors_iff {m : Model} (h : m.WellFormed) (start : Int) (base : Model) :
    (∃ m', (m.toDescriptors start).toModelFrom base = .ok m') ↔
      (userEntityName ∈ m.entities.keys →
        base.options.named OptionName.skipUserManagement ≠ []) := by
  rw [Descriptors.toModelFrom_succeeds_iff, keys_toDescriptors h]
  refine and_iff_left fun name d hd => ?_
  obtain ⟨e, date, he, rfl⟩ := mem_toDescriptors h hd
  obtain ⟨hname, hproblems⟩ := h.entities name e he
  exact hname ▸ describe_acceptable h hproblems date

theorem toModel_toDescriptors_succeeds {m : Model} (h : m.WellFormed)
    (huser : userEntityName ∉ m.entities.keys) (start : Int) :
    ∃ m', (m.toDescriptors start).toModel = .ok m' :=
  (toModelFrom_toDescriptors_iff h start ∅).mpr fun hmem => absurd hmem huser

end Model
end DomainModel
