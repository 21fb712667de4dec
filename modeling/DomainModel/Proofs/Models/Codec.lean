import DomainModel.Model.Codec
import DomainModel.Proofs.Json.Records
import DomainModel.Proofs.Relationships.Collection
/-!
# The JSON form of the model is read back

Every part of a model is read back from the record that it is written as, tables and sets in their
order. Only values that are not kept as they are given stand against it: a record inside a setting
or validation that repeats a key, and a validation with null for its value, which reads as none.
-/
namespace DomainModel
open SourceTree

/-- The value of the validation, if any, is not null and repeats no key. -/
def Validation.Storable (v : Validation) : Prop := ∀ j ∈ v.value, j.canonical = j ∧ j.isNull = false

instance (v : Validation) : Decidable v.Storable :=
  inferInstanceAs (Decidable (∀ j ∈ v.value, _))

/-- Values of validations are not null, and no record in a value repeats a key. -/
structure Model.Storable (m : Model) : Prop where
  settings : ∀ a ∈ m.applications.values, ∀ v ∈ a.settings.values, v.canonical = v
  validations : ∀ e ∈ m.entities.values, ∀ f ∈ e.fields.values, ∀ v ∈ f.validations.values,
    v.Storable

theorem Validation.ofJson?_toJson {v : Validation} (h : v.Storable) :
    ofJson? v.toJson = some v := by
  have hvalue : Table.lookup "value" [("name", .text v.name), ("value", .orNull v.value)] =
      some (Json.orNull (v.value.map id)) := by
    rw [Option.map_id]
    rfl
  refine reads (fields?_record (by decide) rfl) (reads (required_of_lookup rfl rfl) ?_)
  refine reads (optional_of_lookup hvalue fun j hj => ?_) rfl
  obtain ⟨hcanonical, hnull⟩ := h j hj
  exact ⟨congrArg some hcanonical, hnull⟩

theorem Field.ofJson?_toJson {f : Field} (h : ∀ v ∈ f.validations.values, v.Storable) :
    ofJson? f.toJson = some f := by
  have hvalidations : tableOf Validation.ofJson? (f.validations.toJson Validation.toJson) =
      some f.validations := tableOf_record fun v hv => v.ofJson?_toJson (h v hv)
  refine reads (fields?_record (by decide) rfl) ?_
  exact reads (required_of_lookup rfl rfl) (reads (required_of_lookup rfl rfl)
    (reads (optional_text rfl) (reads (required_of_lookup rfl hvalidations) rfl)))

theorem Entity.ofJson?_toJson {e : Entity}
    (h : ∀ f ∈ e.fields.values, ∀ v ∈ f.validations.values, v.Storable) :
    ofJson? e.toJson = some e := by
  have hfields : tableOf Field.ofJson? (e.fields.toJson Field.toJson) = some e.fields :=
    tableOf_record fun f hf => f.ofJson?_toJson (h f hf)
  refine reads (fields?_record (by decide) rfl) ?_
  exact reads (required_of_lookup rfl rfl) (reads (required_of_lookup rfl rfl)
    (reads (optional_text rfl) (reads (required_of_lookup rfl hfields) rfl)))

theorem Enumeration.ofJson?_toJson (e : Enumeration) : ofJson? e.toJson = some e := by
  refine reads (fields?_record (by decide) rfl) ?_
  exact reads (required_of_lookup rfl rfl)
    (reads (required_of_lookup rfl (textSet_texts e.values)) (reads (optional_text rfl) rfl))

theorem Scope.ofTree?_toContent (s : Scope) : ofTree? s.toJson.toContent = some s := by
  refine reads (fields?_of_named (by decide) (named?_toContent _ _) rfl) ?_
  exact reads (required_of_lookup rfl (textSet_toContent s.included))
    (reads (required_of_lookup rfl (textSet_toContent s.excluded)) rfl)

namespace GeneratorOption

theorem ofJson?_toJson (o : GeneratorOption) : ofJson? o.toJson = some o := by
  cases o with
  | unary name scope =>
    refine reads (tagged?_record (by simp)) ?_
    exact reads (fields?_of_named (by decide) (named?_toContent _ _) rfl)
      (reads (required_of_lookup rfl rfl)
      (reads (required_of_lookup rfl scope.ofTree?_toContent) rfl))
  | binary name value scope =>
    refine reads (tagged?_record (by simp)) ?_
    exact reads (fields?_of_named (by decide) (named?_toContent _ _) rfl)
      (reads (required_of_lookup rfl rfl) (reads (required_of_lookup rfl rfl)
      (reads (required_of_lookup rfl scope.ofTree?_toContent) rfl)))

end GeneratorOption

theorem OptionTable.ofJson?_toJson (t : OptionTable) : ofJson? t.toJson = some t := by
  have htable : tableOf GeneratorOption.ofJson? (t.table.toJson GeneratorOption.toJson) =
      some t.table := tableOf_record fun o _ => o.ofJson?_toJson
  refine reads (fields?_record (by decide) rfl) ?_
  exact reads (required_of_lookup rfl htable) rfl

theorem Cardinality.ofWord?_word (c : Cardinality) : ofWord? c.word = some c := by
  cases c <;> decide

theorem Cardinality.ofTree?_word (c : Cardinality) : ofTree? (Json.text c.word) = some c :=
  c.ofWord?_word

theorem Relationship.ofJson?_toJson (r : Relationship) : ofJson? r.toJson = some r := by
  refine reads (fields?_record (by decide) rfl) ?_
  refine reads (required_of_lookup rfl r.cardinality.ofTree?_word) ?_
  refine reads (required_of_lookup rfl rfl) (reads (required_of_lookup rfl rfl) ?_)
  refine reads (optional_text rfl) (reads (optional_text rfl) ?_)
  refine reads (optional_bool rfl) (reads (optional_bool rfl) ?_)
  exact reads (optional_text rfl) (reads (optional_text rfl) (reads (optional_bool rfl) rfl))

namespace RelationshipTable

theorem groupsOfEntries_words (groups : List (Cardinality × Table String Relationship)) :
    groupsOfEntries (groups.map fun g => (g.1.word, g.2.toJson Relationship.toJson)) =
      some groups := by
  induction groups with
  | nil => rfl
  | cons g rest ih =>
    have hmembers : tableOf Relationship.ofJson? (g.2.toJson Relationship.toJson) = some g.2 :=
      tableOf_record fun r _ => r.ofJson?_toJson
    exact reads g.1.ofWord?_word (reads hmembers (reads ih rfl))

theorem ofJson?_toJson (t : RelationshipTable) : ofJson? t.toJson = some t := by
  have hgroups : Table.ofList t.groups.entries = t.groups :=
    Table.ext_entries (Table.entries_ofList t.groups.distinct)
  refine reads (fields?_record (by decide) rfl) ?_
  exact reads (required_of_lookup rfl (groupsOfEntries_words t.groups.entries))
    (congrArg (fun groups => some (mk groups)) hgroups)

end RelationshipTable

theorem Application.ofJson?_toJson {a : Application}
    (h : ∀ v ∈ a.settings.values, v.canonical = v) : ofJson? a.toJson = some a := by
  have hsettings : tableOf anyJson (a.settings.toJson id) = some a.settings :=
    tableOf_record fun v hv => congrArg some (h v hv)
  refine reads (fields?_record (by decide) rfl) ?_
  exact reads (required_of_lookup rfl hsettings)
    (reads (required_of_lookup rfl (textSet_texts a.entityNames)) rfl)

namespace Model

/-- A model is read back from its JSON form, all its tables and sets in their order. -/
theorem jsonForm_lossless {m : Model} (h : m.Storable) : ofJson? m.toJson = some m := by
  have happlications : tableOf Application.ofJson? (m.applications.toJson Application.toJson) =
      some m.applications := tableOf_record fun a ha => a.ofJson?_toJson (h.settings a ha)
  have hentities : tableOf Entity.ofJson? (m.entities.toJson Entity.toJson) = some m.entities :=
    tableOf_record fun e he => e.ofJson?_toJson (h.validations e he)
  have henumerations : tableOf Enumeration.ofJson? (m.enumerations.toJson Enumeration.toJson) =
      some m.enumerations := tableOf_record fun e _ => e.ofJson?_toJson
  refine reads (fields?_record (by decide) rfl) ?_
  refine reads (required_of_lookup rfl happlications) ?_
  refine reads (required_of_lookup rfl hentities) ?_
  refine reads (required_of_lookup rfl henumerations) ?_
  refine reads (required_of_lookup rfl m.relationships.ofJson?_toJson) ?_
  exact reads (required_of_lookup rfl m.options.ofJson?_toJson) rfl

/-- A gateway with a record and a null in its settings, an entity with three kinds of validations,
relationships in two groups, and an option of each kind. -/
def harbour : Model where
  applications := Table.ofList [("hub", ⟨Table.ofList [("baseName", .text "hub"),
    ("applicationType", .text "gateway"), ("jhiPrefix", .null),
    ("clientFramework",
      .record [("name", .text "angularX"), ("ports", .list [.int 80, .int 443])])],
    NameSet.ofList ["Crate", "Shelf"]⟩)]
  entities := Table.ofList
    [("Shelf", Entity.named "Shelf"), ("Crate", { Entity.named "Crate" with
      tableName := "crates", comment := some "A crate.",
      fields := Table.ofList [("label", { Field.named "label" "String" with
        validations := Table.ofList [("required", .flag "required"),
          ("maxlength", ⟨"maxlength", some (.int 20)⟩),
          ("pattern", ⟨"pattern", some (.text "[A-Z]+")⟩)] })] })]
  enumerations := Table.ofList [("Size", Enumeration.named "Size" ["LARGE", "SMALL"])]
  relationships := (∅ : RelationshipTable).addAll
    [{ Relationship.between .oneToMany "Shelf" "Crate" with
        injectedInSource := some "crate", requiredInDestination := some true },
      { Relationship.between .oneToOne "Crate" "Shelf" with injectedInSource := some "top" }]
  options := ⟨Table.ofList
    [("skipServer", .unary "skipServer" ⟨NameSet.ofList ["*"], NameSet.ofList ["Shelf"]⟩),
      ("dto_mapstruct", .binary "dto" "mapstruct" ⟨NameSet.ofList ["Crate"], ∅⟩)]⟩

theorem harbour_jsonForm : harbour.Storable ∧ ofJson? harbour.toJson = some harbour := by
  have hstorable : harbour.Storable := ⟨by decide, by decide⟩
  exact ⟨hstorable, jsonForm_lossless hstorable⟩

end Model
end DomainModel
