import DomainModel.Proofs.Descriptors.Codec
import DomainModel.Proofs.Json.Canonical
/-!
# Descriptors read and written again

What is read from a value is written with its other keys after the known ones, in the order in which
they came and with the values they had, in the entity, its fields and its relationships. It is read
back from there, so it is written the same again.
-/
namespace DomainModel
open SourceTree

namespace Json
variable {known : List String} {entries own : List (String × Json)} {others : Table String Json}
  {key : String} {j : Json}

/-- The second record has entries under known keys, in their order, and then those of the first
record under other keys, as they stand there. -/
def KeepsOthers (known : List String) (v w : Json) : Prop :=
  ∃ entries own, v = record entries ∧ (own.map Prod.fst).Sublist known ∧
    w = record (own ++ entries.filter fun e => !known.contains e.1)

theorem entries_otherEntries (known : List String) (entries : List (String × Json)) :
    (otherEntries known entries).entries =
      (canonicalTable entries).entries.filter fun e => !known.contains e.1 := by
  have hfilter := Table.filter_insertAll (fun key => !known.contains key) Table.empty
    (entries.map fun e => (e.1, e.2.canonical))
  rw [List.filter_map] at hfilter
  exact (congrArg Table.entries hfilter).symm

theorem others_otherEntries (known : List String) (entries : List (String × Json)) :
    Others known (otherEntries known entries) := by
  intro e he
  rw [entries_otherEntries, List.mem_filter] at he
  obtain ⟨hmem, hother⟩ := he
  obtain ⟨e', -, heq⟩ := mem_canonicalTable hmem
  exact ⟨by simpa using hother, by rw [← heq, canonical_canonical]⟩

theorem knownEntries?_eq_some : j.knownEntries? known = some entries ↔
    j = record entries ∧ ∀ key ∈ known, standsOnce entries key = true := by
  unfold knownEntries?
  split
  · next es =>
    split
    · next honce =>
      constructor
      · intro h
        obtain rfl : es = entries := Option.some.inj h
        exact ⟨rfl, List.all_eq_true.mp honce⟩
      · rintro ⟨h, -⟩
        rw [record.inj h]
    · next hrepeated =>
      refine ⟨nofun, ?_⟩
      rintro ⟨h, honce⟩
      exact absurd (List.all_eq_true.mpr (record.inj h ▸ honce)) hrepeated
  · next hother => exact ⟨nofun, fun h => absurd h.1 (hother entries)⟩

theorem keepsOthers_of_read (hread : j.knownEntries? known = some entries)
    (hothers : others = otherEntries known entries) (hown : (own.map Prod.fst).Sublist known) :
    KeepsOthers known j.canonical (record (own ++ others.entries)) := by
  obtain ⟨rfl, -⟩ := knownEntries?_eq_some.mp hread
  refine ⟨(canonicalTable entries).entries, own, canonical_record entries, hown, ?_⟩
  rw [hothers, entries_otherEntries]

theorem get?_of_read (hread : j.knownEntries? known = some entries) (hkey : key ∈ known) :
    j.get? key = Table.lookup key entries := by
  obtain ⟨rfl, honce⟩ := knownEntries?_eq_some.mp hread
  exact Table.lookup_reverse_of_once (by simpa [standsOnce] using honce key hkey)

theorem readAll_eq_some {α : Type} {read : Json → Option α} {items : List Json} {l : List α}
    (h : readAll read items = some l) : List.Forall₂ (fun v x => read v = some x) items l := by
  induction items generalizing l with
  | nil =>
    obtain rfl : [] = l := Option.some.inj h
    exact .nil
  | cons v rest ih =>
    obtain ⟨x, hx, h⟩ := Option.bind_eq_some_iff.mp h
    obtain ⟨xs, hxs, h⟩ := Option.bind_eq_some_iff.mp h
    obtain rfl : x :: xs = l := Option.some.inj h
    exact .cons hx (ih hxs)

theorem exists_of_mem_read {α : Type} {read : Json → Option α} {items : List Json} {l : List α}
    (h : List.Forall₂ (fun v x => read v = some x) items l) {x : α} (hx : x ∈ l) :
    ∃ v, read v = some x := by
  induction h with
  | nil => exact absurd hx List.not_mem_nil
  | @cons v y _ _ hread _ ih =>
    rcases List.mem_cons.mp hx with rfl | hrest
    · exact ⟨v, hread⟩
    · exact ih hrest

theorem itemsUnder_of_read {α : Type} {read : Json → Option α} {l : List α}
    (hread : j.knownEntries? known = some entries) (hkey : key ∈ known)
    (hl : defaulted entries key [] (listOf read) = some l) :
    List.Forall₂ (fun v x => read v = some x) (j.itemsUnder key) l := by
  rw [itemsUnder, get?_of_read hread hkey]
  unfold defaulted at hl
  split at hl
  · next hnone =>
    obtain rfl : [] = l := Option.some.inj hl
    rw [hnone]
    exact .nil
  · next t hsome =>
    rw [hsome]
    cases t with
    | scalar s => simp [listOf, SourceTree.items?, items?] at hl
    | list items => exact readAll_eq_some hl
    | record entries => simp [listOf, SourceTree.items?, items?] at hl

theorem WrittenWith.itemsUnder (h : WrittenWith known own others) (hkey : key ∈ known)
    {items : List Json} (hitems : Table.lookup key own = some (list items)) :
    (record (own ++ others.entries)).itemsUnder key = items := by
  rw [Json.itemsUnder, get?_of_read h.knownEntries? hkey, h.lookup hkey, hitems]

/-- Where each read item is written with its other keys kept, so is the list. -/
theorem forall₂_keepsOthers {α : Type} {read : Json → Option α} {write : α → Json}
    {items : List Json} {l : List α}
    (hkeeps : ∀ v x, read v = some x → KeepsOthers known v.canonical (write x))
    (h : List.Forall₂ (fun v x => read v = some x) items l) :
    List.Forall₂ (KeepsOthers known) (items.map canonical) (l.map write) := by
  rw [List.forall₂_map_left_iff, List.forall₂_map_right_iff]
  exact h.imp hkeeps

end Json

namespace FieldDescriptor

theorem ofJson?_eq_some {j : Json} {f : FieldDescriptor} (h : ofJson? j = some f) :
    ∃ entries, j.knownEntries? knownKeys = some entries ∧
      f.extra = Json.otherEntries knownKeys entries := by
  obtain ⟨entries, hread, h⟩ := Option.bind_eq_some_iff.mp h
  iterate 6 obtain ⟨_, -, h⟩ := Option.bind_eq_some_iff.mp h
  obtain rfl := Option.some.inj h
  exact ⟨entries, hread, rfl⟩

theorem others_of_read {j : Json} {f : FieldDescriptor} (h : ofJson? j = some f) :
    Json.Others knownKeys f.extra := by
  obtain ⟨entries, -, hextra⟩ := ofJson?_eq_some h
  rw [hextra]
  exact Json.others_otherEntries knownKeys entries

theorem keepsOthers {j : Json} {f : FieldDescriptor} (h : ofJson? j = some f) :
    Json.KeepsOthers knownKeys j.canonical f.toJson := by
  obtain ⟨entries, hread, hextra⟩ := ofJson?_eq_some h
  exact Json.keepsOthers_of_read hread hextra (ownEntries_keys f)

end FieldDescriptor

namespace RelationshipDescriptor

theorem ofJson?_eq_some {j : Json} {r : RelationshipDescriptor} (h : ofJson? j = some r) :
    ∃ entries, j.knownEntries? knownKeys = some entries ∧
      r.extra = Json.otherEntries knownKeys entries := by
  obtain ⟨entries, hread, h⟩ := Option.bind_eq_some_iff.mp h
  iterate 8 obtain ⟨_, -, h⟩ := Option.bind_eq_some_iff.mp h
  obtain rfl := Option.some.inj h
  exact ⟨entries, hread, rfl⟩

theorem others_of_read {j : Json} {r : RelationshipDescriptor} (h : ofJson? j = some r) :
    Json.Others knownKeys r.extra := by
  obtain ⟨entries, -, hextra⟩ := ofJson?_eq_some h
  rw [hextra]
  exact Json.others_otherEntries knownKeys entries

theorem keepsOthers {j : Json} {r : RelationshipDescriptor} (h : ofJson? j = some r) :
    Json.KeepsOthers knownKeys j.canonical r.toJson := by
  obtain ⟨entries, hread, hextra⟩ := ofJson?_eq_some h
  exact Json.keepsOthers_of_read hread hextra (ownEntries_keys r)

end RelationshipDescriptor

namespace EntityDescriptor
variable {j : Json} {d : EntityDescriptor}

theorem ofJson?_eq_some (h : ofJson? j = some d) :
    ∃ entries, j.knownEntries? knownKeys = some entries ∧
      defaulted entries "fields" [] (listOf FieldDescriptor.ofJson?) = some d.fields ∧
      defaulted entries "relationships" [] (listOf RelationshipDescriptor.ofJson?) =
        some d.relationships ∧
      d.extra = Json.otherEntries knownKeys entries := by
  obtain ⟨entries, hread, h⟩ := Option.bind_eq_some_iff.mp h
  obtain ⟨fields, hfields, h⟩ := Option.bind_eq_some_iff.mp h
  obtain ⟨relationships, hrelationships, h⟩ := Option.bind_eq_some_iff.mp h
  -- The options of the entity are of no account for what follows.
  iterate 15 obtain ⟨_, -, h⟩ := Option.bind_eq_some_iff.mp h
  obtain rfl := Option.some.inj h
  exact ⟨entries, hread, hfields, hrelationships, rfl⟩

theorem items_of_read (h : ofJson? j = some d) :
    List.Forall₂ (fun v f => FieldDescriptor.ofJson? v = some f) (j.itemsUnder "fields") d.fields ∧
      List.Forall₂ (fun v r => RelationshipDescriptor.ofJson? v = some r)
        (j.itemsUnder "relationships") d.relationships := by
  obtain ⟨entries, hread, hfields, hrelationships, -⟩ := ofJson?_eq_some h
  exact ⟨Json.itemsUnder_of_read hread (by decide) hfields,
    Json.itemsUnder_of_read hread (by decide) hrelationships⟩

theorem clean_of_read (h : ofJson? j = some d) : d.Clean := by
  obtain ⟨entries, -, -, -, hextra⟩ := ofJson?_eq_some h
  obtain ⟨hfields, hrelationships⟩ := items_of_read h
  refine ⟨fun f hf => ?_, fun r hr => ?_, ?_⟩
  · obtain ⟨v, hv⟩ := Json.exists_of_mem_read hfields hf
    exact FieldDescriptor.others_of_read hv
  · obtain ⟨v, hv⟩ := Json.exists_of_mem_read hrelationships hr
    exact RelationshipDescriptor.others_of_read hv
  · rw [hextra]
    exact Json.others_otherEntries knownKeys entries

theorem itemsUnder_toJson (h : d.Clean) :
    d.toJson.itemsUnder "fields" = d.fields.map FieldDescriptor.toJson ∧
      d.toJson.itemsUnder "relationships" = d.relationships.map RelationshipDescriptor.toJson :=
  ⟨(writtenWith h).itemsUnder (by decide) (by simp [ownEntries, Table.lookup]),
    (writtenWith h).itemsUnder (by decide) (by simp [ownEntries, Table.lookup])⟩

/-- A descriptor without known keys among its other keys is read back from its JSON form. What is
read from any value is written with the other keys of the value, of each of its fields and of each
of its relationships after the known ones, and is read back from what is written. -/
theorem codec_lossless :
    (∀ d : EntityDescriptor, d.Clean → ofJson? d.toJson = some d) ∧
    ∀ (v : Json) (d : EntityDescriptor), ofJson? v = some d →
      Json.KeepsOthers knownKeys v.canonical d.toJson ∧
      List.Forall₂ (Json.KeepsOthers FieldDescriptor.knownKeys)
        (v.canonical.itemsUnder "fields") (d.toJson.itemsUnder "fields") ∧
      List.Forall₂ (Json.KeepsOthers RelationshipDescriptor.knownKeys)
        (v.canonical.itemsUnder "relationships") (d.toJson.itemsUnder "relationships") ∧
      ofJson? d.toJson = some d := by
  refine ⟨fun d => ofJson?_toJson, fun v d h => ?_⟩
  -- What is read is clean, so the first part takes care of reading it again.
  have hclean := clean_of_read h
  obtain ⟨entries, hread, -, -, hextra⟩ := ofJson?_eq_some h
  obtain ⟨hfields, hrelationships⟩ := items_of_read h
  obtain ⟨hfieldItems, hrelationshipItems⟩ := itemsUnder_toJson hclean
  rw [hfieldItems, hrelationshipItems, Json.itemsUnder_canonical, Json.itemsUnder_canonical]
  exact ⟨Json.keepsOthers_of_read hread hextra (ownEntries_keys d),
    Json.forall₂_keepsOthers (fun _ _ => FieldDescriptor.keepsOthers) hfields,
    Json.forall₂_keepsOthers (fun _ _ => RelationshipDescriptor.keepsOthers) hrelationships,
    ofJson?_toJson hclean⟩

/-- A photo of an album, with other keys in the entity, in its field and in its relationship. -/
def photoFile : Json :=
  .record
    [("readOnly", .bool true), ("dto", .text "mapstruct"), ("javadoc", .null),
      ("fields", .list
        [.record
          [("fieldValidateRulesMin", .int 3), ("fieldType", .text "String"),
            ("fieldValidateRules", .texts ["required", "minlength"]), ("hint", .text "a caption"),
            ("fieldName", .text "caption")]]),
      ("labels", .record [("de", .text "Foto"), ("en", .text "Picture"), ("en", .text "Photo")]),
      ("applications", .text "gallery"),
      ("relationships", .list
        [.record
          [("relationshipValidateRules", .texts ["required"]),
            ("relationshipType", .text "many-to-one"), ("relationshipName", .text "album"),
            ("otherEntityName", .text "album")]])]

def photo : EntityDescriptor :=
  { empty with
    fields :=
      [{ FieldDescriptor.named "caption" "String" with
          rules := ["required", "minlength"]
          extra := Table.ofList
            [("fieldValidateRulesMin", .int 3), ("hint", .text "a caption")] }]
    relationships :=
      [{ RelationshipDescriptor.named "many-to-one" "album" "album" with
          extra := Table.ofList [("relationshipValidateRules", .texts ["required"])] }]
    dto := some "mapstruct"
    owners := some (.named ["gallery"])
    extra := Table.ofList
      [("readOnly", .bool true),
        ("labels", .record [("de", .text "Foto"), ("en", .text "Photo")])] }

theorem photo_lossless :
    photo.Clean ∧ ofJson? photo.toJson = some photo ∧ ofJson? photoFile = some photo ∧
      Json.KeepsOthers knownKeys photoFile.canonical photo.toJson ∧
      List.Forall₂ (Json.KeepsOthers FieldDescriptor.knownKeys)
        (photoFile.canonical.itemsUnder "fields") (photo.toJson.itemsUnder "fields") ∧
      List.Forall₂ (Json.KeepsOthers RelationshipDescriptor.knownKeys)
        (photoFile.canonical.itemsUnder "relationships")
        (photo.toJson.itemsUnder "relationships") := by
  have hclean : photo.Clean := by
    refine ⟨?_, ?_, ?_⟩ <;> unfold Json.Others <;> decide +kernel
  have hread : ofJson? photoFile = some photo := by decide +kernel
  obtain ⟨hentity, hfields, hrelationships, -⟩ := codec_lossless.2 photoFile photo hread
  exact ⟨hclean, codec_lossless.1 photo hclean, hread, hentity, hfields, hrelationships⟩

end EntityDescriptor
end DomainModel
