import DomainModel.Proofs.Descriptors.Codec
import DomainModel.Proofs.Json.Text
/-!
# The text of a descriptor is read back

Known keys hold texts, flags and lists of texts, so only the values under other keys decide whether
the text of a descriptor can be read back.
-/
namespace DomainModel

namespace Json
variable {depth : Nat}

@[simp] theorem printable_text (s : String) : (text s).Printable depth := trivial

@[simp] theorem printable_bool (b : Bool) : (bool b).Printable depth := trivial

@[simp] theorem printable_texts (names : List String) : (texts names).Printable (depth + 1) := by
  refine ⟨by omega, printableItems_iff.mpr fun v hv => ?_⟩
  obtain ⟨name, -, rfl⟩ := List.mem_map.mp hv
  trivial

@[simp] theorem printableEntries_append {a b : List (String × Json)} :
    PrintableEntries depth (a ++ b) ↔ PrintableEntries depth a ∧ PrintableEntries depth b := by
  simp only [printableEntries_iff, List.mem_append]
  exact ⟨fun h => ⟨fun e he => h e (.inl he), fun e he => h e (.inr he)⟩,
    fun h e he => he.elim (h.1 e) (h.2 e)⟩

@[simp] theorem printable_presentText (key : String) (s : Option String) :
    PrintableEntries depth (presentText key s) := by
  cases s <;> simp [presentText, PrintableEntries]

@[simp] theorem printable_presentBool (key : String) (b : Option Bool) :
    PrintableEntries depth (presentBool key b) := by
  cases b <;> simp [presentBool, PrintableEntries]

theorem printable_list {items : List Json} (h : ∀ v ∈ items, v.Printable depth) :
    (list items).Printable (depth + 1) :=
  ⟨by omega, printableItems_iff.mpr h⟩

end Json

open Json

theorem FieldDescriptor.printable_toJson {f : FieldDescriptor} {depth : Nat}
    (h : PrintableEntries (depth + 1) f.extra.entries) : f.toJson.Printable (depth + 2) := by
  have hrules : PrintableEntries (depth + 1)
      (if f.rules = [] then [] else [("fieldValidateRules", texts f.rules)]) := by
    split <;> simp [PrintableEntries]
  refine ⟨by omega, ?_⟩
  simp [PrintableEntries, hrules, h]

theorem RelationshipDescriptor.printable_toJson {r : RelationshipDescriptor} {depth : Nat}
    (h : PrintableEntries depth r.extra.entries) : r.toJson.Printable (depth + 1) := by
  refine ⟨by omega, ?_⟩
  simp [PrintableEntries, h]

namespace EntityDescriptor

/-- The values under other keys can be printed, each as deep as it stands in the text. -/
structure Printable (d : EntityDescriptor) : Prop where
  fields : ∀ f ∈ d.fields, PrintableEntries 124 f.extra.entries
  relationships : ∀ r ∈ d.relationships, PrintableEntries 124 r.extra.entries
  others : PrintableEntries 126 d.extra.entries

theorem Printable.printable_toJson {d : EntityDescriptor} (h : d.Printable) :
    d.toJson.Printable JsonSource.maxDepth := by
  have hfields : (list (d.fields.map FieldDescriptor.toJson)).Printable 126 := by
    refine printable_list fun v hv => ?_
    obtain ⟨f, hf, rfl⟩ := List.mem_map.mp hv
    exact FieldDescriptor.printable_toJson (h.fields f hf)
  have hrelationships :
      (list (d.relationships.map RelationshipDescriptor.toJson)).Printable 126 := by
    refine printable_list fun v hv => ?_
    obtain ⟨r, hr, rfl⟩ := List.mem_map.mp hv
    exact RelationshipDescriptor.printable_toJson (h.relationships r hr)
  have howners : PrintableEntries 126 (ownersEntry d.owners) := by
    rcases d.owners with _ | _ | names <;>
      simp [ownersEntry, Owners.toJson, PrintableEntries]
  refine ⟨by decide, ?_⟩
  simp [JsonSource.maxDepth, PrintableEntries, hfields, hrelationships, howners, h.others]

theorem clean_printable_of_bare {d : EntityDescriptor} (hfields : d.fields = [])
    (hrelationships : d.relationships = []) (hextra : d.extra = ∅) : d.Clean ∧ d.Printable := by
  constructor
  · constructor <;> simp [hfields, hrelationships, hextra, Others]
  · constructor <;> simp [hfields, hrelationships, hextra, PrintableEntries]

end EntityDescriptor
end DomainModel
