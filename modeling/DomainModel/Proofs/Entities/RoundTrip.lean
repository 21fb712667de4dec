import DomainModel.Proofs.Entities.Fields
import DomainModel.Proofs.Models.Closed
/-!
# Entities and enumerations there and back

The entities of a model are read back from its descriptors as they were. Of its enumerations those
come back that are the type of a field, in the order in which fields use them first, without their
comments.
-/
namespace DomainModel

/-- A value that stands for itself in a list with commas. -/
structure ListedValue (value : String) : Prop where
  ne_empty : value ≠ ""
  unseparated : ',' ∉ value.toList
  first : ∀ c, value.toList.head? = some c → isBlank c = false
  last : ∀ c, value.toList.getLast? = some c → isBlank c = false

theorem enumerationValues_joinWith {values : List String} (h : ∀ v ∈ values, ListedValue v) :
    enumerationValues (joinWith "," values) = values := by
  cases values with
  | nil => decide
  | cons v rest =>
    have hpieces := piecesBetween_joinWith (List.cons_ne_nil v rest)
      fun s hs => (h s hs).unseparated
    have htrim : (v :: rest).map (trimChars ∘ String.toList) = (v :: rest).map String.toList :=
      List.map_congr_left fun s hs => trimChars_keep (h s hs).first (h s hs).last
    have hkeep : ((v :: rest).map String.toList).filter (fun s => !s.isEmpty) =
        (v :: rest).map String.toList := by
      refine List.filter_eq_self.mpr fun s hs => ?_
      obtain ⟨t, ht, rfl⟩ := List.mem_map.mp hs
      simpa using (h t ht).ne_empty
    unfold enumerationValues
    rw [show ("," : String) = String.singleton ',' from rfl, hpieces, List.map_map, htrim, hkeep,
      List.map_map]
    simp [Function.comp_def]

namespace Model
variable {m : Model}

/-- The types of all fields, in the order of entities and fields. -/
def fieldTypes (m : Model) : List String :=
  m.entities.values.flatMap fun e => e.fields.values.map Field.type

/-- The enumerations that are the type of a field, in order of first use. -/
def usedEnumerations (m : Model) : List Enumeration :=
  (NameSet.ofList m.fieldTypes).names.filterMap m.enumerations.find?

/-- What it takes that descriptors tell the entities and the used enumerations. -/
structure Restorable (m : Model) : Prop where
  user : userEntityName ∉ m.entities.keys
  built : ∀ e ∈ m.entities.values, e.Built
  plain : ∀ e ∈ m.entities.values, ∀ f ∈ e.fields.values, f.Plain
  unmistaken : ∀ name ∈ m.enumerations.keys, FieldType.blobContent? name = none
  listed : ∀ e ∈ m.enumerations.values, ∀ value ∈ e.values.names, ListedValue value

theorem enumeration?_describeField (h : m.Reachable) (hm : m.Restorable) (f : Field) :
    (m.describeField f).enumeration? =
      (m.enumerations.find? f.type).map fun e => { e with comment := none } := by
  have hfiled := m.describeField_filed f
  have htype : (m.describeField f).type = _ := congrArg FieldDescriptor.type hfiled
  have hvalues : (m.describeField f).values = _ := congrArg FieldDescriptor.values hfiled
  unfold FieldDescriptor.enumeration?
  rw [hvalues, htype, Option.map_map]
  cases hfind : m.enumerations.find? f.type with
  | none => rfl
  | some e =>
    have hmem := Table.find?_eq_some_iff.mp hfind
    have hblob := hm.unmistaken f.type (Table.mem_keys.mpr ⟨e, hmem⟩)
    have hlisted := hm.listed e (Table.mem_values.mpr ⟨f.type, hmem⟩)
    simp [hblob, Enumeration.named, enumerationValues_joinWith hlisted, NameSet.ofList_names,
      h.enumeration_name f.type e hmem]

/-- An enumeration under its name, without its comment. -/
private def uncommented (m : Model) (type : String) : Option (String × Enumeration) :=
  ((m.enumerations.find? type).map fun e => { e with comment := none }).map fun e => (type, e)

private theorem map_enumeration?_describeField (h : m.Reachable) (hm : m.Restorable) (f : Field) :
    (m.describeField f).enumeration?.map (fun e => (e.name, e)) = m.uncommented f.type := by
  rw [enumeration?_describeField h hm, uncommented]
  cases hfind : m.enumerations.find? f.type with
  | none => rfl
  | some e =>
    have hname := h.enumeration_name f.type e (Table.find?_eq_some_iff.mp hfind)
    simp [hname]

private theorem enumerations_toDescriptors (h : m.Reachable) (hm : m.Restorable) (start : Int) :
    ((m.toDescriptors start).entries.flatMap fun e => e.2.enumerations).map
        (fun e => (e.name, e)) = m.fieldTypes.filterMap m.uncommented := by
  have hentity : ∀ (e : Entity) (date : String),
      (m.describe e date).enumerations.map (fun e => (e.name, e)) =
        (e.fields.values.map Field.type).filterMap m.uncommented := by
    intro e date
    rw [EntityDescriptor.enumerations, describe, List.filterMap_map, List.map_filterMap,
      List.filterMap_map]
    exact List.filterMap_congr fun f _ => map_enumeration?_describeField h hm f
  rw [entries_toDescriptors h.wellFormed, List.flatMap_map, List.map_flatMap, fieldTypes,
    List.filterMap_flatMap]
  simp only [hentity]
  conv_rhs => rw [← List.zipIdx_map_fst 0 m.entities.values, List.flatMap_map]

theorem readInto_entities (h : m.Reachable) (hm : m.Restorable) (start : Int) :
    ((m.toDescriptors start).readInto ∅).entities = m.entities := by
  have hw := h.wellFormed
  have hstated : (m.toDescriptors start).entries.map (fun e => (e.1, e.2.toEntity e.1)) =
      m.entities.values.map fun e => (e.name, e) := by
    rw [entries_toDescriptors hw, List.map_map]
    conv_rhs => rw [← List.zipIdx_map_fst 0 m.entities.values, List.map_map]
    refine List.map_congr_left fun x hx => ?_
    have he := List.fst_mem_of_mem_zipIdx hx
    have hproblems := h.valid.entities x.1 he
    simp [toEntity_describe (hm.built x.1 he) (hm.plain x.1 he) hproblems]
  rw [Descriptors.readInto, hstated]
  exact Table.insertAll_values fun key e he => (hw.entities key e he).1

theorem readInto_enumerations (h : m.Reachable) (hm : m.Restorable) (start : Int) :
    ((m.toDescriptors start).readInto ∅).enumerations.entries =
      m.usedEnumerations.map fun e => (e.name, { e with comment := none }) := by
  rw [Descriptors.readInto, enumerations_toDescriptors h hm]
  refine (Table.entries_insertAll_told _ m.fieldTypes).trans ?_
  rw [usedEnumerations, List.map_filterMap]
  refine List.filterMap_congr fun type _ => ?_
  cases hfind : m.enumerations.find? type with
  | none => rfl
  | some e => simp [h.enumeration_name type e (Table.find?_eq_some_iff.mp hfind)]

/-- The entities come back as they were, and the used enumerations but for their comments. -/
theorem entities_roundTrip (h : m.Reachable) (hm : m.Restorable) (start : Int) :
    ∃ m', (m.toDescriptors start).toModel = .ok m' ∧ m'.entities = m.entities ∧
      m'.enumerations.entries =
        m.usedEnumerations.map fun e => (e.name, { e with comment := none }) := by
  obtain ⟨m', hread⟩ := toModel_toDescriptors_succeeds h.wellFormed hm.user start
  have hm' := Descriptors.toModelFrom_eq_readInto hread
  exact ⟨m', hread, hm' ▸ readInto_entities h hm start, hm' ▸ readInto_enumerations h hm start⟩

def genre : Enumeration :=
  { Enumeration.named "Genre" ["MODERN", "OLD"] with comment := some "of a picture" }

def paintedField : Field :=
  ((Field.named "size" "Integer").addValidation (.flag "required")).addValidation
    ⟨"min", some (.int 1)⟩

/-- An artist and a picture of the same genre, a blob and validations among their fields. -/
def artist : Entity := (Entity.named "Artist").addField (.named "genre" "Genre")

def picture : Entity :=
  (({ Entity.named "Picture" with tableName := "pictures" }.addField
    (.named "content" "ImageBlob")).addField paintedField).addField (.named "genre" "Genre")

def gallery : Model :=
  { (∅ : Model) with
    entities := ((∅ : Table String Entity).insert "Artist" artist).insert "Picture" picture
    enumerations := ((∅ : Table String Enumeration).insert "Mood" (.named "Mood" [])).insert
      "Genre" genre }

theorem gallery_roundTrip : gallery.Reachable ∧ gallery.Restorable ∧
    ∃ m', (gallery.toDescriptors 0).toModel = .ok m' ∧ m'.entities = gallery.entities ∧
      m'.enumerations.entries =
        gallery.usedEnumerations.map fun e => (e.name, { e with comment := none }) := by
  have hmood : Reachable _ := .enumeration .empty
    (addEnumeration_eq_ok.mpr ⟨(by decide : (Enumeration.named "Mood" []).problems = []), rfl⟩)
  have hgenre : Reachable _ := .enumeration hmood
    (addEnumeration_eq_ok.mpr ⟨(by decide : genre.problems = []), rfl⟩)
  have hartist : Reachable _ := .entity hgenre
    (addEntity_eq_ok.mpr ⟨(by decide : artist.problems = []), rfl⟩)
  have hreach : gallery.Reachable := .entity hartist
    (addEntity_eq_ok.mpr ⟨(by decide +kernel : picture.problems = []), rfl⟩)
  have hpainted : paintedField.Built := ((Field.Built.named _ _).addValidation _).addValidation _
  have hbuilt : ∀ e ∈ gallery.entities.values, e.Built := by
    intro e he
    rcases List.mem_pair.mp he with rfl | rfl
    · exact (Entity.Built.named _).addField (.named _ _)
    · exact ((((Entity.Built.named _).withTableName _).addField (.named _ _)).addField
        hpainted).addField (.named _ _)
  have hplain : ∀ e ∈ gallery.entities.values, ∀ f ∈ e.fields.values,
      f.type ≠ FieldType.anyBlob ∧ f.type ≠ FieldType.byteArray ∧
        ∀ v ∈ f.validations.values, ∀ value ∈ v.value, value ≠ .null ∧ value ≠ .text "" := by
    decide +kernel
  have hlisted : ∀ e ∈ gallery.enumerations.values, ∀ value ∈ e.values.names,
      value ≠ "" ∧ ',' ∉ value.toList ∧ (value.toList.head?.all fun c => !isBlank c) = true ∧
        (value.toList.getLast?.all fun c => !isBlank c) = true := by
    decide +kernel
  have hrestorable : gallery.Restorable := by
    refine ⟨by decide +kernel, hbuilt, ?_, by decide +kernel, ?_⟩
    · intro e he f hf
      obtain ⟨hany, hbytes, hvalued⟩ := hplain e he f hf
      exact ⟨hany, hbytes, hvalued⟩
    · intro e he value hvalue
      obtain ⟨hempty, hcomma, hfirst, hlast⟩ := hlisted e he value hvalue
      exact ⟨hempty, hcomma, by simpa [Option.all_eq_true] using hfirst,
        by simpa [Option.all_eq_true] using hlast⟩
  exact ⟨hreach, hrestorable, entities_roundTrip hreach hrestorable 0⟩

end Model
end DomainModel
