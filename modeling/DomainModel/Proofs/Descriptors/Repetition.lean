import DomainModel.Proofs.Entities.RoundTrip
import DomainModel.Proofs.Json.Equality
import DomainModel.Proofs.Models.Runs
import DomainModel.Proofs.Options.RoundTrip
import DomainModel.Proofs.Relationships.Sequence
/-!
# Descriptors written again

A model that descriptors tell in full is written, read back and written again. The second
descriptors state the same entities, only the entries of relationships may stand in another order.
That order is final: reading and writing once more changes nothing.
-/
namespace DomainModel

namespace Model

theorem Reachable.read {m m' : Model} {entities : Descriptors} (h : m.Reachable)
    (hread : entities.toModelFrom m = .ok m') : m'.Reachable := by
  obtain ⟨_, -, hread⟩ := Outcome.bind_eq_ok.mp hread
  obtain ⟨k, hdescribed, hread⟩ := Outcome.bind_eq_ok.mp hread
  obtain ⟨k', hrelationships, hoptions⟩ := Outcome.bind_eq_ok.mp hread
  have hk : k.Reachable := by
    apply Outcome.foldlM_keeps Reachable _ h hdescribed
    intro e _ b b' hb hstep
    obtain ⟨c, henumerations, hadd⟩ := Outcome.bind_eq_ok.mp hstep
    exact .entity (Outcome.foldlM_keeps Reachable
      (fun _ _ _ _ hb hstep => .enumeration hb hstep) hb henumerations) hadd
  have hk' : k'.Reachable := Outcome.foldlM_keeps Reachable
    (fun _ _ _ _ hb hstep => .relationship hb hstep) hk hrelationships
  apply Outcome.foldlM_keeps Reachable _ hk' hoptions
  intro e _ b b' hb hstep
  obtain ⟨c, hbinary, hunary⟩ := Outcome.bind_eq_ok.mp hstep
  have hc : c.Reachable := by
    apply Outcome.foldlM_keeps Reachable _ hb hbinary
    intro o _ b b' hb hstep
    obtain ⟨p, hp, hadd⟩ := Outcome.bind_eq_ok.mp hstep
    exact .option hb ((GeneratorOption.Built.value hp).withScope _) hadd
  apply Outcome.foldlM_keeps Reachable _ hc hunary
  intro name _ b b' hb hstep
  obtain ⟨p, hp, hadd⟩ := Outcome.bind_eq_ok.mp hstep
  exact .option hb ((GeneratorOption.Built.flag hp).withScope _) hadd

/-- The models that descriptors tell in full: relationships, fields and options. -/
structure Tellable (m : Model) : Prop where
  reachable : m.Reachable
  relationships : m.Describable
  fields : m.Restorable
  options : m.OptionsRestorable

private theorem relationships_describe (m : Model) (e : Entity) (date : String) :
    (m.describe e date).relationships =
      m.relationships.toList.flatMap fun r => r.entriesFor e.name := rfl

/-- The model that is read back from the descriptors of a model. -/
def reread (m : Model) (start : Int) : Model := (m.toDescriptors start).readInto ∅

section Reread
open Relationship
variable {m : Model} (h : m.Tellable) (start : Int)
include h

theorem Tellable.toModel_eq : (m.toDescriptors start).toModel = .ok (m.reread start) := by
  obtain ⟨m', hread⟩ :=
    toModel_toDescriptors_succeeds h.reachable.wellFormed h.fields.user start
  rw [hread, Descriptors.toModelFrom_eq_readInto hread]
  rfl

theorem Tellable.reread_reachable : (m.reread start).Reachable :=
  .read .empty (h.toModel_eq start)

theorem Tellable.reread_entities : (m.reread start).entities = m.entities :=
  readInto_entities h.reachable h.fields start

private theorem nodup_normalized : (m.relationships.toList.map normalized).Nodup := by
  have hids : (m.relationships.toList.map Relationship.id).Nodup :=
    h.reachable.wellFormed.keyed.ids_nodup
  exact hids.of_map.map_on fun r hr s hs heq =>
    h.relationships.eq_of_normalized_id_eq hr hs (congrArg Relationship.id heq)

private theorem source_mem : ∀ r ∈ m.relationships.toList.map normalized,
    r.source ∈ m.entities.keys := by
  rintro _ hnormal
  obtain ⟨r, hr, rfl⟩ := List.mem_map.mp hnormal
  exact ((h.relationships.regular r hr).normalized rfl).source

/-- The relationships that are read stand as pairing finds them, by their cardinalities. -/
theorem Tellable.reread_relationships : (m.reread start).relationships.toList =
    grouped (paired m.entities.keys (m.relationships.toList.map normalized)) := by
  have hpairs := pairRelationships_toDescriptors h.reachable.wellFormed h.relationships start
  have hread : (m.reread start).relationships = (∅ : RelationshipTable).addAll
      (paired m.entities.keys (m.relationships.toList.map normalized)) := by rw [← hpairs]; rfl
  rw [hread]
  have hkeys : m.entities.keys.Nodup := m.entities.distinct
  refine RelationshipTable.toList_addAll ((nodup_paired hkeys (nodup_normalized h)).map_on ?_)
  intro _ hpaired _ hpaired' hid
  obtain ⟨r, hr, rfl⟩ := List.mem_map.mp ((mem_paired (source_mem h)).mp hpaired)
  obtain ⟨s, hs, rfl⟩ := List.mem_map.mp ((mem_paired (source_mem h)).mp hpaired')
  rw [h.relationships.eq_of_normalized_id_eq hr hs hid]

theorem Tellable.reread_perm :
    (m.reread start).relationships.toList.Perm (m.relationships.toList.map normalized) := by
  have hkeyed : (m.reread start).relationships.Keyed := (h.reread_reachable start).wellFormed.keyed
  have hids : ((m.reread start).relationships.toList.map Relationship.id).Nodup := hkeyed.ids_nodup
  refine (List.perm_ext_iff_of_nodup hids.of_map (nodup_normalized h)).mpr fun r => ?_
  rw [(h.reread_relationships start), mem_grouped, mem_paired (source_mem h)]

private theorem mem_reread_enumerations {name : String} {e : Enumeration}
    (he : (name, e) ∈ (m.reread start).enumerations.entries) :
    ∃ held, (name, held) ∈ m.enumerations.entries ∧ e = { held with comment := none } := by
  rw [reread, readInto_enumerations h.reachable h.fields start] at he
  obtain ⟨held, hused, heq⟩ := List.mem_map.mp he
  obtain ⟨rfl, rfl⟩ := Prod.mk.inj heq
  obtain ⟨other, -, hfind⟩ := List.mem_filterMap.mp hused
  have hheld := Table.find?_eq_some_iff.mp hfind
  obtain rfl := h.reachable.enumeration_name other held hheld
  exact ⟨held, hheld, rfl⟩

private theorem find?_reread_enumerations {type : String} (htype : type ∈ m.fieldTypes) :
    (m.reread start).enumerations.find? type =
      (m.enumerations.find? type).map fun e => { e with comment := none } := by
  refine Option.ext fun e => ?_
  rw [Table.find?_eq_some_iff, Option.map_eq_some_iff]
  constructor
  · intro he
    obtain ⟨held, hheld, rfl⟩ := mem_reread_enumerations h start he
    exact ⟨held, Table.find?_eq_some_iff.mpr hheld, rfl⟩
  · rintro ⟨held, hfind, rfl⟩
    rw [reread, readInto_enumerations h.reachable h.fields start, List.mem_map]
    refine ⟨held, List.mem_filterMap.mpr ⟨type, NameSet.mem_ofList.mpr htype, hfind⟩, ?_⟩
    rw [h.reachable.enumeration_name type held (Table.find?_eq_some_iff.mp hfind)]

private theorem describeField_reread {e : Entity} (he : e ∈ m.entities.values) {f : Field}
    (hf : f ∈ e.fields.values) : (m.reread start).describeField f = m.describeField f := by
  have htype : f.type ∈ m.fieldTypes :=
    List.mem_flatMap.mpr ⟨e, he, List.mem_map_of_mem hf⟩
  have hvalues : ((m.reread start).enumerations.find? f.type).map
      (fun e => joinWith "," e.values.names) =
        (m.enumerations.find? f.type).map fun e => joinWith "," e.values.names := by
    rw [find?_reread_enumerations h start htype, Option.map_map]
    rfl
  rw [describeField, describeField, hvalues]

section Options
variable {entity name : String} (he : entity ∈ m.entities.keys)
include he

private theorem optionValue?_reread (hbinary : OptionName.isBinary name = true) :
    (m.reread start).optionValue? name entity = m.optionValue? name entity := by
  have happlying : (((m.readOptions start).named name).filter fun o => o.appliesTo entity).map
      GeneratorOption.value? = (m.optionValue? name entity).toList.map some :=
    filter_readOptions h.reachable.wellFormed h.options he hbinary
  have hfirst := congrArg List.head? happlying
  rw [List.head?_map, List.head?_filter, List.head?_map] at hfirst
  have hvalue : (m.reread start).optionValue? name entity =
      ((((m.readOptions start).named name).find? fun o => o.appliesTo entity).map
        GeneratorOption.value?).join := by
    rw [← Option.bind_id_eq_join, Option.bind_map]
    rfl
  rw [hvalue, hfirst]
  cases m.optionValue? name entity <;> rfl

private theorem optionEnabled_reread (hflag : name ∈ OptionName.describedFlags) :
    (m.reread start).optionEnabled name entity = m.optionEnabled name entity := by
  rw [Bool.eq_iff_iff]
  exact any_readOptions h.reachable.wellFormed h.options he hflag

end Options

/-- The descriptors of an entity before and after reading differ in the entries of relationships, in
owners and in dates. -/
theorem Tellable.describe_reread {e : Entity} (he : e ∈ m.entities.values) (date date' : String) :
    (m.reread start).describe e date' =
      { m.describe e date with
        relationships := ((m.reread start).describe e date').relationships
        changelogDate := some date'
        owners := some .all } := by
  have hentity : e.name ∈ m.entities.keys := by
    obtain ⟨name, hname⟩ := Table.mem_values.mp he
    rw [(h.reachable.wellFormed.entities name e hname).1]
    exact Table.mem_keys.mpr ⟨e, hname⟩
  have hfields : e.fields.values.map (m.reread start).describeField =
      e.fields.values.map m.describeField :=
    List.map_congr_left fun f hf => describeField_reread h start he hf
  have hbinary : ∀ name, OptionName.isBinary name = true →
      (m.reread start).optionValue? name e.name = m.optionValue? name e.name :=
    fun _ => optionValue?_reread h start hentity
  have hflag : ∀ name ∈ OptionName.describedFlags,
      (m.reread start).optionEnabled name e.name = m.optionEnabled name e.name :=
    fun _ => optionEnabled_reread h start hentity
  have howners : (m.reread start).ownersOf e.name = .all := rfl
  simp only [describe, valueOrNo, hfields, howners, hbinary OptionName.dto rfl,
    hbinary OptionName.service rfl, hbinary OptionName.pagination rfl,
    hbinary OptionName.searchEngine rfl, hbinary OptionName.microservice rfl,
    hbinary OptionName.angularSuffix rfl, hbinary OptionName.clientRootFolder rfl,
    hflag OptionName.filter (by decide), hflag OptionName.noFluentMethod (by decide),
    hflag OptionName.skipClient (by decide), hflag OptionName.skipServer (by decide)]

private theorem reread_describable : (m.reread start).Describable := by
  have hkeys : (m.reread start).entities.keys = m.entities.keys := by rw [(h.reread_entities start)]
  refine ⟨hkeys ▸ h.relationships.names, fun r hr => ?_, ?_⟩
  · obtain ⟨r, hheld, rfl⟩ := List.mem_map.mp ((h.reread_perm start).mem_iff.mp hr)
    exact (h.relationships.regular r hheld).normalized hkeys
  · have hperm : ((m.reread start).relationships.toList.flatMap endNames).Perm
        (m.relationships.toList.flatMap endNames) := by
      refine ((h.reread_perm start).flatMap_right _).trans ?_
      rw [List.flatMap_map]
      exact List.Perm.flatMap_left _ fun r hr =>
        (h.relationships.regular r hr).endNames_normalized
    exact hperm.nodup_iff.mpr h.relationships.distinct

private theorem reread_restorable : (m.reread start).Restorable where
  user := (h.reread_entities start) ▸ h.fields.user
  built := (h.reread_entities start) ▸ h.fields.built
  plain := (h.reread_entities start) ▸ h.fields.plain
  unmistaken name hname := by
    obtain ⟨e, he⟩ := Table.mem_keys.mp hname
    obtain ⟨held, hheld, -⟩ := mem_reread_enumerations h start he
    exact h.fields.unmistaken name (Table.mem_keys.mpr ⟨held, hheld⟩)
  listed e he := by
    obtain ⟨name, he⟩ := Table.mem_values.mp he
    obtain ⟨held, hheld, rfl⟩ := mem_reread_enumerations h start he
    exact h.fields.listed held (Table.mem_values.mpr ⟨name, hheld⟩)

private theorem reread_optionsRestorable : (m.reread start).OptionsRestorable where
  user := (h.reread_entities start) ▸ h.options.user
  wildcard := (h.reread_entities start) ▸ h.options.wildcard
  told p hp := by
    obtain ⟨entity, -, hset⟩ := sets_of_mem_readOptions h.reachable.wellFormed h.options hp
    cases p with
    | unary name scope => exact ⟨by simp [GeneratorOption.value?], by simp [GeneratorOption.value?]⟩
    | binary name value scope =>
      obtain ⟨o, hfind, ho⟩ := Option.bind_eq_some_iff.mp hset
      have htold := h.options.told o (List.mem_filter.mp (List.mem_of_find?_eq_some hfind)).1
      rwa [ho] at htold

theorem Tellable.reread_tellable : (m.reread start).Tellable :=
  ⟨(h.reread_reachable start), reread_describable h start, reread_restorable h start,
    reread_optionsRestorable h start⟩

/-- The first reading puts relationships in an order that the second keeps. -/
theorem Tellable.reread_reread (start' : Int) :
    ((m.reread start).reread start').relationships.toList =
      (m.reread start).relationships.toList := by
  have hnormal : (m.reread start).relationships.toList.map normalized =
      (m.reread start).relationships.toList := by
    refine (List.map_congr_left fun r hr => ?_).trans (List.map_id _)
    obtain ⟨held, hheld, rfl⟩ := List.mem_map.mp ((h.reread_perm start).mem_iff.mp hr)
    exact (h.relationships.regular held hheld).normalized_normalized
  rw [(h.reread_tellable start).reread_relationships start', hnormal, (h.reread_entities start),
    (h.reread_relationships start)]
  refine grouped_paired m.entities.distinct ?_ (source_mem h)
  intro _ hmem
  obtain ⟨r, hr, rfl⟩ := List.mem_map.mp hmem
  exact (h.relationships.regular r hr).normalized_oriented

/-- Reading changes at most the order of the entries of relationships. -/
theorem Tellable.entries_perm (e : Entity) (date date' : String) :
    ((m.reread start).describe e date').relationships.Perm (m.describe e date).relationships := by
  rw [relationships_describe, relationships_describe]
  refine ((h.reread_perm start).flatMap_right _).trans ?_
  rw [List.flatMap_map]
  exact List.Perm.flatMap_left _ fun r hr =>
    (h.relationships.regular r hr).entriesFor_normalized e.name

private theorem sameEntity_reread_reread {e : Entity} (he : e ∈ m.entities.values) (start' : Int)
    (date date' : String) :
    (((m.reread start).reread start').describe e date').sameEntity
      ((m.reread start).describe e date) = true := by
  have he' : e ∈ (m.reread start).entities.values := by rwa [h.reread_entities start]
  have hentries : (((m.reread start).reread start').describe e date').relationships =
      ((m.reread start).describe e date).relationships := by
    rw [relationships_describe, relationships_describe, h.reread_reread]
  rw [(h.reread_tellable start).describe_reread start' he' date, hentries]
  exact ((m.reread start).describe e date).sameEntity_restated (some date') (some .all)

end Reread

variable {m : Model}

/-- Read back and written again, every entity is stated as before but for the order of its entries
of relationships; read back and written once more, it is stated as it then was. -/
theorem toDescriptors_repeated (h : m.Reachable) (hrelationships : m.Describable)
    (hfields : m.Restorable) (hoptions : m.OptionsRestorable) (start start' start'' : Int) :
    ∃ m' m'', (m.toDescriptors start).toModel = .ok m' ∧
      (m'.toDescriptors start').toModel = .ok m'' ∧
      (m'.toDescriptors start').keys = (m.toDescriptors start).keys ∧
      ∀ name ∈ m.entities.keys, ∃ d d' d'', (m.toDescriptors start).find? name = some d ∧
        (m'.toDescriptors start').find? name = some d' ∧
        (m''.toDescriptors start'').find? name = some d'' ∧
        d'.relationships.Perm d.relationships ∧
        { d' with relationships := d.relationships }.sameEntity d = true ∧
        d''.sameEntity d' = true := by
  have hm : m.Tellable := ⟨h, hrelationships, hfields, hoptions⟩
  have hm' := hm.reread_tellable start
  have hm'' := hm'.reread_tellable start'
  refine ⟨m.reread start, (m.reread start).reread start', hm.toModel_eq start,
    hm'.toModel_eq start', ?_, fun name hname => ?_⟩
  · rw [keys_toDescriptors hm'.reachable.wellFormed, keys_toDescriptors h.wellFormed,
      hm.reread_entities]
  · obtain ⟨e, he⟩ := Table.mem_keys.mp hname
    have hvalue : e ∈ m.entities.values := Table.mem_values.mpr ⟨name, he⟩
    have he' : (name, e) ∈ (m.reread start).entities.entries := by rwa [hm.reread_entities]
    have he'' : (name, e) ∈ ((m.reread start).reread start').entities.entries := by
      rwa [hm'.reread_entities]
    obtain ⟨date, hd⟩ := exists_toDescriptors h.wellFormed start he
    obtain ⟨date', hd'⟩ := exists_toDescriptors hm'.reachable.wellFormed start' he'
    obtain ⟨date'', hd''⟩ := exists_toDescriptors hm''.reachable.wellFormed start'' he''
    refine ⟨_, _, _, Table.find?_eq_some_iff.mpr hd, Table.find?_eq_some_iff.mpr hd',
      Table.find?_eq_some_iff.mpr hd'', hm.entries_perm start e date date', ?_,
      sameEntity_reread_reread hm start hvalue start' date' date''⟩
    rw [hm.describe_reread start hvalue date]
    exact (m.describe e date).sameEntity_restated (some date') (some .all)

/-- A node and its parent, told from the child. -/
def descent : Relationship :=
  { Relationship.between .manyToOne "Node" "Node" with
    injectedInSource := some "parent", injectedInDestination := some "child" }

def lineage : Model :=
  { (∅ : Model) with
    entities := (∅ : Table String Entity).insert "Node" (.named "Node")
    relationships := (∅ : RelationshipTable).addAll [descent] }

theorem lineage_tellable : lineage.Tellable := by
  have hnode : Reachable _ := .entity .empty
    (addEntity_eq_ok.mpr ⟨(by decide : (Entity.named "Node").problems = []), rfl⟩)
  have hentity : ∀ e ∈ lineage.entities.values, e = .named "Node" := by decide
  have hrelationship : ∀ r ∈ lineage.relationships.toList, r = descent := by decide
  have hdescribable : lineage.Describable := by
    refine ⟨by decide, fun r hr => ?_, by decide⟩
    obtain rfl := hrelationship r hr
    exact ⟨by decide, .inl (by decide), ⟨_, rfl, ⟨"parent", none⟩, by decide, rfl⟩,
      by rintro _ ⟨⟩; exact ⟨⟨"child", none⟩, by decide, rfl⟩, by decide⟩
  have hrestorable : lineage.Restorable := by
    refine ⟨by decide, fun e he => ?_, fun e he => ?_, by rintro _ ⟨⟩, by rintro _ ⟨⟩⟩
    · exact hentity e he ▸ .named "Node"
    · rw [hentity e he]
      rintro _ ⟨⟩
  exact ⟨hnode.relationships (by decide), hdescribable, hrestorable, by decide, by decide,
    by rintro _ ⟨⟩⟩

theorem lineage_repeated : lineage.Reachable ∧ lineage.Describable ∧ lineage.Restorable ∧
    lineage.OptionsRestorable ∧ ∃ m' m'', (lineage.toDescriptors 0).toModel = .ok m' ∧
      (m'.toDescriptors 60).toModel = .ok m'' ∧
      (m'.toDescriptors 60).keys = (lineage.toDescriptors 0).keys ∧
      ∀ name ∈ lineage.entities.keys, ∃ d d' d'', (lineage.toDescriptors 0).find? name = some d ∧
        (m'.toDescriptors 60).find? name = some d' ∧
        (m''.toDescriptors 120).find? name = some d'' ∧
        d'.relationships.Perm d.relationships ∧
        { d' with relationships := d.relationships }.sameEntity d = true ∧
        d''.sameEntity d' = true := by
  obtain ⟨hreach, hrelationships, hfields, hoptions⟩ := lineage_tellable
  exact ⟨hreach, hrelationships, hfields, hoptions,
    toDescriptors_repeated hreach hrelationships hfields hoptions 0 60 120⟩

/-- Read back, the node tells of its children first: the order of entries is not kept. -/
theorem lineage_reordered : ¬ ∀ m : Model, m.Reachable → m.Describable → m.Restorable →
    m.OptionsRestorable → ∀ start start', ∃ m', (m.toDescriptors start).toModel = .ok m' ∧
      ∀ name ∈ m.entities.keys, ∃ d d', (m.toDescriptors start).find? name = some d ∧
        (m'.toDescriptors start').find? name = some d' ∧ d'.sameEntity d = true := by
  intro hclaim
  obtain ⟨hreach, hrelationships, hfields, hoptions⟩ := lineage_tellable
  obtain ⟨m', hread, hsame⟩ := hclaim lineage hreach hrelationships hfields hoptions 0 0
  obtain ⟨d, d', hd, hd', heq⟩ := hsame "Node" (by decide)
  have hdiffer : (lineage.toDescriptors 0).toModel.map (fun m' =>
      ((m'.toDescriptors 0).find? "Node").bind fun d' =>
        ((lineage.toDescriptors 0).find? "Node").map fun d => d'.sameEntity d) =
          .ok (some false) := by decide +kernel
  simp [hread, Except.map, hd, hd', heq] at hdiffer

end Model
end DomainModel
