import DomainModel.Descriptor.Codec
import DomainModel.Proofs.Json.Records
/-!
# The JSON form of descriptors is read back

A descriptor whose other keys are none of the known ones is read back from its JSON form.
-/
namespace DomainModel
open SourceTree

namespace Json

/-- Canonical values under other keys than the known ones. -/
def Others (known : List String) (t : Table String Json) : Prop :=
  ∀ e ∈ t.entries, e.1 ∉ known ∧ e.2.canonical = e.2

@[simp] theorem lookup_presentText (key key' : String) (s : Option String) :
    Table.lookup key (presentText key' s) = if key' = key then s.map text else none := by
  cases s <;> simp [presentText, Table.lookup]

@[simp] theorem lookup_presentBool (key key' : String) (b : Option Bool) :
    Table.lookup key (presentBool key' b) = if key' = key then b.map bool else none := by
  cases b <;> simp [presentBool, Table.lookup]

@[simp] theorem lookup_unless (p : Prop) [Decidable p] (key key' : String) (v : Json) :
    Table.lookup key (if p then [] else [(key', v)]) =
      if key' = key ∧ ¬ p then some v else none := by
  by_cases hp : p <;> simp [hp, Table.lookup]

theorem keys_presentText (key : String) (s : Option String) :
    ((presentText key s).map Prod.fst).Sublist [key] := by
  cases s <;> simp [presentText]

theorem keys_presentBool (key : String) (b : Option Bool) :
    ((presentBool key b).map Prod.fst).Sublist [key] := by
  cases b <;> simp [presentBool]

/-- Own entries under known keys, each at most once, followed by others. -/
structure WrittenWith (known : List String) (own : List (String × Json))
    (others : Table String Json) : Prop where
  distinct : known.Nodup
  keys : (own.map Prod.fst).Sublist known
  others : Others known others

namespace WrittenWith
variable {known : List String} {own : List (String × Json)} {others : Table String Json}
  {key : String}

theorem standsOnce (h : WrittenWith known own others) (hkey : key ∈ known) :
    SourceTree.standsOnce (own ++ others.entries) key = true := by
  have hothers : others.entries.filter (fun e => e.1 == key) = [] := by
    refine List.filter_eq_nil_iff.mpr fun e he hek => ?_
    exact (h.others e he).1 (by rwa [beq_iff_eq.mp hek])
  have hown := Table.length_filter_le_one (h.distinct.sublist h.keys) key
  simpa [SourceTree.standsOnce, hothers] using hown

theorem knownEntries? (h : WrittenWith known own others) :
    (record (own ++ others.entries)).knownEntries? known = some (own ++ others.entries) := by
  have honce : known.all (SourceTree.standsOnce (own ++ others.entries)) = true :=
    List.all_eq_true.mpr fun _ hkey => h.standsOnce hkey
  simp only [Json.knownEntries?, honce, if_true]

theorem otherEntries (h : WrittenWith known own others) :
    Json.otherEntries known (own ++ others.entries) = others := by
  have hown : own.filter (fun e => !known.contains e.1) = [] := by
    refine List.filter_eq_nil_iff.mpr fun e he => ?_
    simpa using h.keys.subset (List.mem_map_of_mem he)
  have hothers : others.entries.filter (fun e => !known.contains e.1) = others.entries :=
    List.filter_eq_self.mpr fun e he => by simpa using (h.others e he).1
  have hcanonical : others.entries.map (fun e => (e.1, e.2.canonical)) = others.entries.map id :=
    List.map_congr_left fun e he => Prod.ext rfl (h.others e he).2
  rw [Json.otherEntries, List.filter_append, hown, hothers, List.nil_append, hcanonical,
    List.map_id]
  exact Table.ext_entries (Table.entries_ofList others.distinct)

theorem lookup (h : WrittenWith known own others) (hkey : key ∈ known) :
    Table.lookup key (own ++ others.entries) = Table.lookup key own := by
  have hnone : Table.lookup key others.entries = none := by
    refine Table.lookup_eq_none_iff.mpr fun hmem => ?_
    obtain ⟨e, he, rfl⟩ := List.mem_map.mp hmem
    exact (h.others e he).1 hkey
  rw [Table.lookup_append, hnone, Option.or_none]

theorem required_text (h : WrittenWith known own others) {s : String} (hkey : key ∈ known)
    (hs : Table.lookup key own = some (text s)) :
    SourceTree.required (own ++ others.entries) key SourceTree.text? = some s := by
  simp [SourceTree.required, h.lookup hkey, hs, SourceTree.text?, text?]

theorem optional_text (h : WrittenWith known own others) {s : Option String} (hkey : key ∈ known)
    (hs : Table.lookup key own = s.map text) :
    SourceTree.optional (own ++ others.entries) key SourceTree.text? = some s := by
  cases s <;> simp [SourceTree.optional, h.lookup hkey, hs, SourceTree.isNull, isNull,
    SourceTree.text?, text?]

theorem optional_bool (h : WrittenWith known own others) {b : Option Bool} (hkey : key ∈ known)
    (hb : Table.lookup key own = b.map bool) :
    SourceTree.optional (own ++ others.entries) key SourceTree.bool? = some b := by
  cases b <;> simp [SourceTree.optional, h.lookup hkey, hb, SourceTree.isNull, isNull,
    SourceTree.bool?, bool?]

theorem defaulted_list (h : WrittenWith known own others) {α : Type} {read : Json → Option α}
    {write : α → Json} {l : List α} (hkey : key ∈ known)
    (hl : Table.lookup key own = some (list (l.map write)))
    (hread : ∀ x ∈ l, read (write x) = some x) :
    SourceTree.defaulted (own ++ others.entries) key [] (SourceTree.listOf read) = some l := by
  have hall : readAll read (l.map write) = some (l.map id) := readAll_map hread
  rw [SourceTree.defaulted, h.lookup hkey, hl]
  simpa [SourceTree.listOf, SourceTree.items?, items?] using hall

end WrittenWith
end Json

namespace FieldDescriptor

/-- The entries under known keys. -/
def ownEntries (f : FieldDescriptor) : List (String × Json) :=
  [("fieldName", .text f.name), ("fieldType", .text f.type)] ++
    Json.presentText "javadoc" f.comment ++ Json.presentText "fieldValues" f.values ++
    Json.presentText "fieldTypeBlobContent" f.blobContent ++
    (if f.rules.isEmpty then [] else [("fieldValidateRules", .texts f.rules)])

theorem ownEntries_keys (f : FieldDescriptor) :
    (f.ownEntries.map Prod.fst).Sublist knownKeys := by
  have hrules : ((if f.rules.isEmpty then []
      else [("fieldValidateRules", Json.texts f.rules)]).map Prod.fst).Sublist
        ["fieldValidateRules"] := by
    cases f.rules <;> simp
  simp only [ownEntries, List.map_append]
  exact ((((List.Sublist.refl _).append (Json.keys_presentText _ _)).append
    (Json.keys_presentText _ _)).append (Json.keys_presentText _ _)).append hrules

theorem writtenWith {f : FieldDescriptor} (h : Json.Others knownKeys f.extra) :
    Json.WrittenWith knownKeys f.ownEntries f.extra :=
  ⟨by decide, ownEntries_keys f, h⟩

theorem ofJson?_toJson {f : FieldDescriptor} (h : Json.Others knownKeys f.extra) :
    ofJson? f.toJson = some f := by
  have hw := writtenWith h
  have hrules : defaulted (f.ownEntries ++ f.extra.entries) "fieldValidateRules" []
      (listOf text?) = some f.rules := by
    have hread : readAll text? (f.rules.map Json.text) = some (f.rules.map id) :=
      readAll_map fun _ _ => rfl
    rw [defaulted, hw.lookup (by decide)]
    cases hlist : f.rules with
    | nil => simp [ownEntries, Table.lookup_append, Table.lookup, hlist]
    | cons rule rest =>
      rw [hlist, List.map_id] at hread
      simpa [ownEntries, Table.lookup_append, Table.lookup, hlist, Json.texts, listOf, items?,
        Json.items?] using hread
  have hname := hw.required_text (by decide)
    (show Table.lookup "fieldName" f.ownEntries = some (.text f.name) by
      simp [ownEntries, Table.lookup])
  have htype := hw.required_text (by decide)
    (show Table.lookup "fieldType" f.ownEntries = some (.text f.type) by
      simp [ownEntries, Table.lookup])
  have hcomment := hw.optional_text (by decide)
    (show Table.lookup "javadoc" f.ownEntries = f.comment.map Json.text by
      simp [ownEntries, Table.lookup_append, Table.lookup])
  have hvalues := hw.optional_text (by decide)
    (show Table.lookup "fieldValues" f.ownEntries = f.values.map Json.text by
      simp [ownEntries, Table.lookup_append, Table.lookup])
  have hcontent := hw.optional_text (by decide)
    (show Table.lookup "fieldTypeBlobContent" f.ownEntries = f.blobContent.map Json.text by
      simp [ownEntries, Table.lookup_append, Table.lookup])
  change ofJson? (.record (f.ownEntries ++ f.extra.entries)) = some f
  refine reads hw.knownEntries? (reads hname (reads htype (reads hcomment (reads hvalues
    (reads hcontent (reads hrules ?_))))))
  rw [hw.otherEntries]
  rfl

end FieldDescriptor

namespace RelationshipDescriptor

/-- The entries under known keys. -/
def ownEntries (r : RelationshipDescriptor) : List (String × Json) :=
  [("relationshipType", .text r.type)] ++ Json.presentText "javadoc" r.comment ++
    [("relationshipName", .text r.name), ("otherEntityName", .text r.otherEntity)] ++
    Json.presentText "otherEntityField" r.otherField ++
    Json.presentBool "ownerSide" r.ownerSide ++
    Json.presentText "otherEntityRelationshipName" r.otherName ++
    Json.presentBool "required" r.required

theorem ownEntries_keys (r : RelationshipDescriptor) :
    (r.ownEntries.map Prod.fst).Sublist knownKeys := by
  simp only [ownEntries, List.map_append]
  exact ((((((List.Sublist.refl _).append (Json.keys_presentText _ _)).append
    (List.Sublist.refl _)).append (Json.keys_presentText _ _)).append
    (Json.keys_presentBool _ _)).append (Json.keys_presentText _ _)).append
    (Json.keys_presentBool _ _)

theorem writtenWith {r : RelationshipDescriptor} (h : Json.Others knownKeys r.extra) :
    Json.WrittenWith knownKeys r.ownEntries r.extra :=
  ⟨by decide, ownEntries_keys r, h⟩

theorem ofJson?_toJson {r : RelationshipDescriptor} (h : Json.Others knownKeys r.extra) :
    ofJson? r.toJson = some r := by
  have hw := writtenWith h
  have htype := hw.required_text (by decide)
    (show Table.lookup "relationshipType" r.ownEntries = some (.text r.type) by
      simp [ownEntries, Table.lookup])
  have hcomment := hw.optional_text (by decide)
    (show Table.lookup "javadoc" r.ownEntries = r.comment.map Json.text by
      simp [ownEntries, Table.lookup_append, Table.lookup])
  have hname := hw.required_text (by decide)
    (show Table.lookup "relationshipName" r.ownEntries = some (.text r.name) by
      simp [ownEntries, Table.lookup_append, Table.lookup])
  have hentity := hw.required_text (by decide)
    (show Table.lookup "otherEntityName" r.ownEntries = some (.text r.otherEntity) by
      simp [ownEntries, Table.lookup_append, Table.lookup])
  have hfield := hw.optional_text (by decide)
    (show Table.lookup "otherEntityField" r.ownEntries = r.otherField.map Json.text by
      simp [ownEntries, Table.lookup_append, Table.lookup])
  have howner := hw.optional_bool (by decide)
    (show Table.lookup "ownerSide" r.ownEntries = r.ownerSide.map Json.bool by
      simp [ownEntries, Table.lookup_append, Table.lookup])
  have hother := hw.optional_text (by decide)
    (show Table.lookup "otherEntityRelationshipName" r.ownEntries = r.otherName.map Json.text by
      simp [ownEntries, Table.lookup_append, Table.lookup])
  have hrequired := hw.optional_bool (by decide)
    (show Table.lookup "required" r.ownEntries = r.required.map Json.bool by
      simp [ownEntries, Table.lookup_append, Table.lookup])
  change ofJson? (.record (r.ownEntries ++ r.extra.entries)) = some r
  refine reads hw.knownEntries? (reads htype (reads hcomment (reads hname (reads hentity
    (reads hfield (reads howner (reads hother (reads hrequired ?_))))))))
  rw [hw.otherEntries]
  rfl

end RelationshipDescriptor

theorem Owners.ofJson?_toJson (o : Owners) : ofJson? o.toJson = some o := by
  cases o with
  | all => rfl
  | named applications =>
    have hread : readAll Json.text? (applications.map Json.text) = some (applications.map id) :=
      readAll_map fun _ _ => rfl
    simpa [toJson, Json.texts, ofJson?] using hread

namespace EntityDescriptor

/-- Nowhere in the descriptor does another key repeat a known one. -/
structure Clean (d : EntityDescriptor) : Prop where
  fields : ∀ f ∈ d.fields, Json.Others FieldDescriptor.knownKeys f.extra
  relationships : ∀ r ∈ d.relationships, Json.Others RelationshipDescriptor.knownKeys r.extra
  others : Json.Others knownKeys d.extra

/-- The entries under known keys. -/
def ownEntries (d : EntityDescriptor) : List (String × Json) :=
  [("fields", .list (d.fields.map FieldDescriptor.toJson)),
      ("relationships", .list (d.relationships.map RelationshipDescriptor.toJson))] ++
    Json.presentText "changelogDate" d.changelogDate ++ Json.presentText "javadoc" d.comment ++
    Json.presentText "entityTableName" d.tableName ++ Json.presentText "dto" d.dto ++
    Json.presentText "pagination" d.pagination ++ Json.presentText "service" d.service ++
    Json.presentText "searchEngine" d.searchEngine ++
    Json.presentBool "jpaMetamodelFiltering" d.filtering ++
    Json.presentBool "fluentMethods" d.fluentMethods ++
    Json.presentText "clientRootFolder" d.clientRootFolder ++ ownersEntry d.owners ++
    Json.presentText "microserviceName" d.microserviceName ++
    Json.presentText "angularSuffix" d.angularSuffix ++
    Json.presentBool "skipClient" d.skipClient ++ Json.presentBool "skipServer" d.skipServer

private theorem keys_ownersEntry (o : Option Owners) :
    ((ownersEntry o).map Prod.fst).Sublist ["applications"] := by
  cases o <;> simp [ownersEntry]

@[simp] theorem lookup_ownersEntry (key : String) (o : Option Owners) :
    Table.lookup key (ownersEntry o) =
      if "applications" = key then o.map Owners.toJson else none := by
  cases o <;> simp [ownersEntry, Table.lookup]

theorem ownEntries_keys (d : EntityDescriptor) :
    (d.ownEntries.map Prod.fst).Sublist knownKeys := by
  simp only [ownEntries, List.map_append]
  rw [show knownKeys = ["fields", "relationships"] ++ ["changelogDate"] ++ ["javadoc"] ++
    ["entityTableName"] ++ ["dto"] ++ ["pagination"] ++ ["service"] ++ ["searchEngine"] ++
    ["jpaMetamodelFiltering"] ++ ["fluentMethods"] ++ ["clientRootFolder"] ++ ["applications"] ++
    ["microserviceName"] ++ ["angularSuffix"] ++ ["skipClient"] ++ ["skipServer"] from rfl]
  have htext := Json.keys_presentText
  have hbool := Json.keys_presentBool
  exact (((((((((((((((List.Sublist.refl _).append (htext _ _)).append (htext _ _)).append
    (htext _ _)).append (htext _ _)).append (htext _ _)).append (htext _ _)).append
    (htext _ _)).append (hbool _ _)).append (hbool _ _)).append (htext _ _)).append
    (keys_ownersEntry _)).append (htext _ _)).append (htext _ _)).append (hbool _ _)).append
    (hbool _ _)

theorem writtenWith {d : EntityDescriptor} (h : d.Clean) :
    Json.WrittenWith knownKeys d.ownEntries d.extra :=
  ⟨by decide, ownEntries_keys d, h.others⟩

private theorem optional_owners {d : EntityDescriptor} (h : d.Clean) :
    SourceTree.optional (d.ownEntries ++ d.extra.entries) "applications" Owners.ofJson? =
      some d.owners := by
  rw [SourceTree.optional, (writtenWith h).lookup (by decide)]
  cases ho : d.owners with
  | none => simp [ownEntries, Table.lookup_append, Table.lookup, ho]
  | some o =>
    have hread := Owners.ofJson?_toJson o
    cases o <;> simpa [ownEntries, Table.lookup_append, Table.lookup, ho, SourceTree.isNull,
      Json.isNull, Owners.toJson, Json.texts] using hread

theorem ofJson?_toJson {d : EntityDescriptor} (h : d.Clean) : ofJson? d.toJson = some d := by
  have hw := writtenWith h
  have hfields := hw.defaulted_list (by decide)
    (show Table.lookup "fields" d.ownEntries =
        some (.list (d.fields.map FieldDescriptor.toJson)) by
      simp [ownEntries, Table.lookup])
    fun f hf => FieldDescriptor.ofJson?_toJson (h.fields f hf)
  have hrelationships := hw.defaulted_list (by decide)
    (show Table.lookup "relationships" d.ownEntries =
        some (.list (d.relationships.map RelationshipDescriptor.toJson)) by
      simp [ownEntries, Table.lookup])
    fun r hr => RelationshipDescriptor.ofJson?_toJson (h.relationships r hr)
  have hdate := hw.optional_text (by decide)
    (show Table.lookup "changelogDate" d.ownEntries = d.changelogDate.map Json.text by
      simp [ownEntries, Table.lookup_append, Table.lookup])
  have hcomment := hw.optional_text (by decide)
    (show Table.lookup "javadoc" d.ownEntries = d.comment.map Json.text by
      simp [ownEntries, Table.lookup_append, Table.lookup])
  have htable := hw.optional_text (by decide)
    (show Table.lookup "entityTableName" d.ownEntries = d.tableName.map Json.text by
      simp [ownEntries, Table.lookup_append, Table.lookup])
  have hdto := hw.optional_text (by decide)
    (show Table.lookup "dto" d.ownEntries = d.dto.map Json.text by
      simp [ownEntries, Table.lookup_append, Table.lookup])
  have hpagination := hw.optional_text (by decide)
    (show Table.lookup "pagination" d.ownEntries = d.pagination.map Json.text by
      simp [ownEntries, Table.lookup_append, Table.lookup])
  have hservice := hw.optional_text (by decide)
    (show Table.lookup "service" d.ownEntries = d.service.map Json.text by
      simp [ownEntries, Table.lookup_append, Table.lookup])
  have hsearch := hw.optional_text (by decide)
    (show Table.lookup "searchEngine" d.ownEntries = d.searchEngine.map Json.text by
      simp [ownEntries, Table.lookup_append, Table.lookup])
  have hfiltering := hw.optional_bool (by decide)
    (show Table.lookup "jpaMetamodelFiltering" d.ownEntries = d.filtering.map Json.bool by
      simp [ownEntries, Table.lookup_append, Table.lookup])
  have hfluent := hw.optional_bool (by decide)
    (show Table.lookup "fluentMethods" d.ownEntries = d.fluentMethods.map Json.bool by
      simp [ownEntries, Table.lookup_append, Table.lookup])
  have hfolder := hw.optional_text (by decide)
    (show Table.lookup "clientRootFolder" d.ownEntries = d.clientRootFolder.map Json.text by
      simp [ownEntries, Table.lookup_append, Table.lookup])
  have hmicroservice := hw.optional_text (by decide)
    (show Table.lookup "microserviceName" d.ownEntries = d.microserviceName.map Json.text by
      simp [ownEntries, Table.lookup_append, Table.lookup])
  have hsuffix := hw.optional_text (by decide)
    (show Table.lookup "angularSuffix" d.ownEntries = d.angularSuffix.map Json.text by
      simp [ownEntries, Table.lookup_append, Table.lookup])
  have hclient := hw.optional_bool (by decide)
    (show Table.lookup "skipClient" d.ownEntries = d.skipClient.map Json.bool by
      simp [ownEntries, Table.lookup_append, Table.lookup])
  have hserver := hw.optional_bool (by decide)
    (show Table.lookup "skipServer" d.ownEntries = d.skipServer.map Json.bool by
      simp [ownEntries, Table.lookup_append, Table.lookup])
  change ofJson? (.record (d.ownEntries ++ d.extra.entries)) = some d
  refine reads hw.knownEntries? (reads hfields (reads hrelationships (reads hdate (reads hcomment
    (reads htable (reads hdto (reads hpagination (reads hservice (reads hsearch (reads hfiltering
    (reads hfluent (reads hfolder (reads (optional_owners h) (reads hmicroservice (reads hsuffix
    (reads hclient (reads hserver ?_)))))))))))))))))
  rw [hw.otherEntries]
  rfl

end EntityDescriptor
end DomainModel
