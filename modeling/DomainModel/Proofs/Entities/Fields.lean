import DomainModel.Proofs.Descriptors.Conversion
/-!
# Fields and entities through descriptors

A descriptor files a field by the name of its type, or as bytes with a content, and its validations
by their names, with the values under keys of their own. An entity that is built by adding fields
and validations is read back from its descriptor.
-/
namespace DomainModel

/-- Fields made by their constructor and by adding validations. -/
inductive Field.Built : Field → Prop where
  | named (name type : String) : Built (Field.named name type)
  | withComment {f : Field} (h : Built f) (comment : Option String) :
    Built { f with comment := comment }
  | addValidation {f : Field} (h : Built f) (v : Validation) : Built (f.addValidation v)

/-- Entities made by their constructor and by adding fields. -/
inductive Entity.Built : Entity → Prop where
  | named (name : String) : Built (Entity.named name)
  | withTableName {e : Entity} (h : Built e) (tableName : String) :
    Built { e with tableName := tableName }
  | withComment {e : Entity} (h : Built e) (comment : Option String) :
    Built { e with comment := comment }
  | addField {e : Entity} (h : Built e) {f : Field} (hf : f.Built) : Built (e.addField f)

theorem Field.Built.keyed {f : Field} (h : f.Built) :
    ∀ key v, (key, v) ∈ f.validations.entries → v.name = key := by
  induction h with
  | named name type => rintro key v ⟨⟩
  | withComment _ comment ih => exact ih
  | addValidation _ w ih =>
    intro key v hv
    rcases Table.mem_entries_insert.mp hv with ⟨rfl, rfl⟩ | ⟨-, hold⟩
    · rfl
    · exact ih key v hold

theorem Entity.Built.keyed {e : Entity} (h : e.Built) :
    ∀ key f, (key, f) ∈ e.fields.entries → f.name = key ∧ f.Built := by
  induction h with
  | named name => rintro key f ⟨⟩
  | withTableName _ tableName ih => exact ih
  | withComment _ comment ih => exact ih
  | addField _ hg ih =>
    intro key f hf
    rcases Table.mem_entries_insert.mp hf with ⟨rfl, rfl⟩ | ⟨-, hold⟩
    · exact ⟨rfl, hg⟩
    · exact ih key f hold

/-- A field whose type and whose values of validations a descriptor can tell. -/
structure Field.Plain (f : Field) : Prop where
  notAnyBlob : f.type ≠ FieldType.anyBlob
  notByteArray : f.type ≠ FieldType.byteArray
  valued : ∀ v ∈ f.validations.values, ∀ value, v.value = some value →
    value ≠ .null ∧ value ≠ .text ""

namespace ValidationName

theorem descriptorKey_inj {a b : String} (ha : isKnown a = true) (hb : isKnown b = true)
    (h : descriptorKey a = descriptorKey b) : a = b := by
  have hinj : ∀ a ∈ withoutValue ++ withValue, ∀ b ∈ withoutValue ++ withValue,
      descriptorKey a = descriptorKey b → a = b := by decide +kernel
  exact hinj a (by simpa [isKnown] using ha) b (by simpa [isKnown] using hb) h

end ValidationName

namespace Model
variable {m : Model}

private theorem find?_foldl_of_notMem {l : List Validation} {key : String} (d : FieldDescriptor)
    (h : ∀ w ∈ l, ValidationName.descriptorKey w.name ≠ key) :
    (l.foldl describeValidation d).extra.find? key = d.extra.find? key := by
  induction l generalizing d with
  | nil => rfl
  | cons w rest ih =>
    rw [List.foldl_cons, ih _ fun x hx => h x (List.mem_cons_of_mem w hx),
      find?_describeValidation]
    have hne := h w List.mem_cons_self
    split
    · rw [if_neg fun hstored => hne hstored.2]
    · rfl

private theorem find?_foldl_of_mem {l : List Validation} {v : Validation} {d : FieldDescriptor}
    (hkeys : (l.map fun w => ValidationName.descriptorKey w.name).Nodup) (hv : v ∈ l)
    (hvalue : ∀ value, v.value = some value → isBlankValue value = false)
    (hd : d.extra.find? (ValidationName.descriptorKey v.name) = none) :
    (l.foldl describeValidation d).extra.find? (ValidationName.descriptorKey v.name) =
      v.value := by
  induction l generalizing d with
  | nil => simp at hv
  | cons w rest ih =>
    have hcons := List.nodup_cons.mp hkeys
    rw [List.foldl_cons]
    rcases List.mem_cons.mp hv with rfl | hrest
    · rw [find?_foldl_of_notMem, find?_describeValidation]
      · cases hstored : v.value with
        | none => exact hd
        | some value => simp [hvalue value hstored]
      · intro x hx hkey
        exact hcons.1 (List.mem_map.mpr ⟨x, hx, hkey⟩)
    · apply ih hcons.2 hrest
      have hne : ValidationName.descriptorKey w.name ≠ ValidationName.descriptorKey v.name := by
        intro hkey
        exact hcons.1 (List.mem_map.mpr ⟨v, hrest, hkey.symm⟩)
      rw [find?_describeValidation]
      split
      · rwa [if_neg fun hstored => hne hstored.2]
      · exact hd

/-- A type is read back from the way in which descriptors file it. -/
theorem modelType_of_filed {f : FieldDescriptor} {type : String}
    (hany : type ≠ FieldType.anyBlob) (hbytes : type ≠ FieldType.byteArray)
    (htype : f.type = if (FieldType.blobContent? type).isSome then FieldType.byteArray else type)
    (hcontent : f.blobContent = FieldType.blobContent? type) : f.modelType = type := by
  unfold FieldDescriptor.modelType
  rw [hcontent, htype]
  by_cases hblob : type = FieldType.blob
  · subst hblob
    decide
  · by_cases himage : type = FieldType.imageBlob
    · subst himage
      decide
    · by_cases htext : type = FieldType.textBlob
      · subst htext
        decide
      · simp [FieldType.blobContent?, hblob, hany, himage, htext, hbytes]

section Field
variable {f : Field} (hbuilt : f.Built) (hproblems : f.problems = [])
include hbuilt hproblems

private theorem nodup_descriptorKeys :
    (f.validations.values.map fun v => ValidationName.descriptorKey v.name).Nodup := by
  have hnames : f.validations.values.map Validation.name = f.validations.keys := by
    simp only [Table.values, Table.keys, List.map_map]
    exact List.map_congr_left fun e he => hbuilt.keyed e.1 e.2 he
  have hnodup : (f.validations.values.map Validation.name).Nodup :=
    hnames ▸ f.validations.distinct
  have hknown : ∀ v ∈ f.validations.values, ValidationName.isKnown v.name = true := by
    intro v hv
    have hvalidation := (Field.problems_eq_nil.mp hproblems).2.2 v hv
    exact (Validation.problems_eq_nil.mp hvalidation).2.1
  refine List.Nodup.map_on ?_ (List.Nodup.of_map _ hnodup)
  intro v hv w hw hkey
  exact List.inj_on_of_nodup_map hnodup hv hw
    (ValidationName.descriptorKey_inj (hknown v hv) (hknown w hw) hkey)

variable (hplain : f.Plain)
include hplain

private theorem ruleValue?_describeField {v : Validation} (hv : v ∈ f.validations.values) :
    (m.describeField f).ruleValue? v.name = v.value := by
  refine find?_foldl_of_mem (nodup_descriptorKeys hbuilt hproblems) hv ?_ rfl
  intro value hstored
  exact isBlankValue_eq_false.mpr (not_or.mpr (hplain.valued v hv value hstored))

/-- A built field without problems is read back from its descriptor. -/
theorem toField_describeField : (m.describeField f).toField = f := by
  have hfiled := m.describeField_filed f
  have hname : (m.describeField f).name = f.name := by rw [hfiled]
  have hcomment : (m.describeField f).comment = f.comment := by rw [hfiled]
  have hnamed : (m.describeField f).rules = f.validations.values.map Validation.name := by
    rw [hfiled]
  have htype : (m.describeField f).modelType = f.type :=
    modelType_of_filed hplain.notAnyBlob hplain.notByteArray (by rw [hfiled]) (by rw [hfiled])
  have hrules : (m.describeField f).rules.map (fun rule =>
      (rule, (⟨rule, (m.describeField f).ruleValue? rule⟩ : Validation))) =
      f.validations.values.map fun v => (v.name, v) := by
    rw [hnamed, List.map_map]
    refine List.map_congr_left fun v hv => ?_
    simp [ruleValue?_describeField hbuilt hproblems hplain hv]
  rw [FieldDescriptor.toField_validations, hname, htype, hcomment, hrules,
    Table.insertAll_values hbuilt.keyed]
  rfl

end Field

theorem toEntity_describe {e : Entity} (hbuilt : e.Built)
    (hplain : ∀ f ∈ e.fields.values, f.Plain) (hproblems : e.problems = []) (date : String) :
    (m.describe e date).toEntity e.name = e := by
  obtain ⟨-, htable, hfields⟩ := Entity.problems_eq_nil.mp hproblems
  have hfield : ∀ f ∈ e.fields.values, (m.describeField f).toField = f := by
    intro f hf
    obtain ⟨key, hkey⟩ := Table.mem_values.mp hf
    exact toField_describeField (hbuilt.keyed key f hkey).2 (hfields f hf) (hplain f hf)
  have hstated : (m.describe e date).fields.map (fun f => (f.toField.name, f.toField)) =
      e.fields.values.map fun f => (f.name, f) := by
    rw [describe, List.map_map]
    exact List.map_congr_left fun f hf => by simp [hfield f hf]
  have hname : ((m.describe e date).tableName.filter fun t => t != "").getD e.name =
      e.tableName := by
    simp [describe, Option.filter, htable]
  rw [EntityDescriptor.toEntity_fields, hstated, hname,
    Table.insertAll_values fun key f hf => (hbuilt.keyed key f hf).1]
  rfl

end Model
end DomainModel
