import DomainModel.Proofs.Descriptors.Reading
import DomainModel.Proofs.Documents.Additions
import DomainModel.Proofs.Models.Reachable
import DomainModel.Proofs.Options.Additions
import DomainModel.Proofs.Relationships.FirstAdded
/-!
# What a model keeps

A document or descriptors may be read into a model that already holds parts. What is then written
under a name takes the place of what stood there, a relationship whose identity is held is not
added, and an option widens the one under its key. All else of the model stays as it was.
-/
namespace DomainModel

namespace Table
variable {κ α : Type} [DecidableEq κ]

/-- The second table is the first with something written under the keys of a list: new keys follow
the old ones, and under all other keys nothing changes. -/
structure KeepsBut (t u : Table κ α) (written : List κ) : Prop where
  keys : ∃ new, u.keys = t.keys ++ new ∧ ∀ k, k ∈ new ↔ k ∈ written ∧ k ∉ t.keys
  values : ∀ k, k ∉ written → u.find? k = t.find? k

theorem keepsBut_insertAll (t : Table κ α) (l : List (κ × α)) :
    t.KeepsBut (t.insertAll l) (l.map Prod.fst) where
  keys := keys_foldl_append keys (fun t e => keys_insert t e.1 e.2) t l
  values := by
    intro k hk
    have hnone : lookup k l.reverse = none := lookup_eq_none_iff.mpr (by simpa using hk)
    rw [find?_insertAll, hnone, Option.none_or]

theorem getElem?_entries_iff {t : Table κ α} {i : Nat} {k : κ} {v : α} :
    t.entries[i]? = some (k, v) ↔ t.keys[i]? = some k ∧ t.find? k = some v := by
  rw [keys, List.getElem?_map, Option.map_eq_some_iff]
  constructor
  · intro h
    exact ⟨⟨(k, v), h, rfl⟩, find?_eq_some_iff.mpr (List.mem_of_getElem? h)⟩
  · rintro ⟨⟨e, he, rfl⟩, hv⟩
    have hfound : t.find? e.1 = some e.2 := find?_eq_some_iff.mpr (List.mem_of_getElem? he)
    obtain rfl := Option.some.inj (hfound.symm.trans hv)
    exact he

end Table

theorem NameSet.names_prefix_insertAll (s : NameSet) (l : List String) :
    s.names <+: (s.insertAll l).names := by
  obtain ⟨new, hnames, -⟩ := keys_foldl_append names names_insert s l
  exact ⟨new, hnames.symm⟩

theorem Scope.union_cons (s : Scope) (rest : List Scope) :
    union (s :: rest) = ⟨s.included.insertAll (rest.flatMap fun s => s.included.names),
      s.excluded.insertAll (rest.flatMap fun s => s.excluded.names)⟩ := by
  simp [union, NameSet.ofList_names_append]

namespace GeneratorOption

/-- The second option is the first with further names on both sides of its scope. -/
structure Widens (o p : GeneratorOption) : Prop where
  key : p.key = o.key
  isUnary : p.isUnary = o.isUnary
  name : p.name = o.name
  value : p.value? = o.value?
  included : o.scope.included.names <+: p.scope.included.names
  excluded : o.scope.excluded.names <+: p.scope.excluded.names

theorem widens_gathered {o p : GeneratorOption} {l : List GeneratorOption}
    (h : gathered (o :: l) = some p) : o.Widens p := by
  obtain rfl := Option.some.inj h
  refine ⟨key_withScope o _, ?_, name_withScope o _, value?_withScope o _, ?_, ?_⟩
  · rw [isUnary_eq_isNone, isUnary_eq_isNone, value?_withScope]
  · rw [scope_withScope, List.map_cons, Scope.union_cons]
    exact NameSet.names_prefix_insertAll _ _
  · rw [scope_withScope, List.map_cons, Scope.union_cons]
    exact NameSet.names_prefix_insertAll _ _

end GeneratorOption

namespace OptionTable

theorem keys_prefix_addAll (t : OptionTable) (l : List GeneratorOption) :
    t.table.keys <+: (t.addAll l).table.keys := by
  obtain ⟨new, hkeys, -⟩ := keys_foldl_append (fun t : OptionTable => t.table.keys) keys_add t l
  exact ⟨new, hkeys.symm⟩

/-- Every option keeps its place, and additions widen it. -/
theorem widens_addAll {t : OptionTable} (l : List GeneratorOption) {i : Nat} {key : String}
    {o : GeneratorOption} (h : t.table.entries[i]? = some (key, o)) :
    ∃ p, (t.addAll l).table.entries[i]? = some (key, p) ∧ o.Widens p := by
  obtain ⟨hkey, hheld⟩ := Table.getElem?_entries_iff.mp h
  have hget := get?_addAll t l key
  rw [get?, get?, hheld, Option.toList_some, List.singleton_append] at hget
  obtain ⟨p, hp⟩ := Option.isSome_iff_exists.mp
    (GeneratorOption.gathered_isSome_iff.mpr (List.cons_ne_nil o (l.filter fun p => p.key == key)))
  obtain ⟨hi, rfl⟩ := List.getElem?_eq_some_iff.mp hkey
  have hplace := List.prefix_iff_getElem?.mp (keys_prefix_addAll t l) i hi
  exact ⟨p, Table.getElem?_entries_iff.mpr ⟨hplace, hget.trans hp⟩,
    GeneratorOption.widens_gathered hp⟩

end OptionTable

/-- The names of the enumerations that the fields of the descriptors declare. -/
def Descriptors.enumerationNames (entities : Descriptors) : List String :=
  (entities.entries.flatMap fun e => e.2.enumerations).map Enumeration.name

namespace Model

/-- What is left of `j` in a model that was read into it from declarations of these applications,
entities and enumerations. -/
structure Retained (j k : Model) (applications entities enumerations : List String) : Prop where
  applications : j.applications.KeepsBut k.applications applications
  entities : j.entities.KeepsBut k.entities entities
  enumerations : j.enumerations.KeepsBut k.enumerations enumerations
  relationships : ∀ r ∈ j.relationships.toList,
    r ∈ k.relationships.toList ∧ k.relationships.get? r.id = some r
  options : ∀ (i : Nat) (key : String) (o : GeneratorOption),
    j.options.table.entries[i]? = some (key, o) →
    ∃ p, k.options.table.entries[i]? = some (key, p) ∧ o.Widens p

variable {j k : Model}

/-- Writing and adding parts in turn leaves the rest of a reachable model as it was. -/
theorem Retained.of_additions {applications : List (String × Application)}
    {entities : List (String × Entity)} {enumerations : List (String × Enumeration)}
    {relationships : List Relationship} {options : List GeneratorOption} (hj : j.Reachable)
    (happlications : k.applications = j.applications.insertAll applications)
    (hentities : k.entities = j.entities.insertAll entities)
    (henumerations : k.enumerations = j.enumerations.insertAll enumerations)
    (hrelationships : k.relationships = j.relationships.addAll relationships)
    (hoptions : k.options = j.options.addAll options) :
    j.Retained k (applications.map Prod.fst) (entities.map Prod.fst)
      (enumerations.map Prod.fst) where
  applications := happlications ▸ Table.keepsBut_insertAll _ _
  entities := hentities ▸ Table.keepsBut_insertAll _ _
  enumerations := henumerations ▸ Table.keepsBut_insertAll _ _
  relationships := by
    intro r hr
    have hkept := RelationshipTable.mem_toList_addAll_of_mem relationships hr
    have hkeyed := hj.wellFormed.keyed.addAll relationships
    rw [hrelationships]
    exact ⟨hkept, hkeyed.get?_eq_some_iff.mpr ⟨hkept, rfl⟩⟩
  options := by
    intro i key o hheld
    rw [hoptions]
    exact OptionTable.widens_addAll options hheld

theorem retained_of_document {d : Document} {target : Target} {draw : Nat → Secrets}
    (hj : j.Reachable) (h : d.toModelFrom target draw j = .ok k) :
    j.Retained k d.applicationNames d.entityNames d.enumerationNames := by
  have hadds := Document.toModelFrom_adds h
  obtain ⟨l, hoptions⟩ := hadds.options
  have hkept := Retained.of_additions hj hadds.applications hadds.entities hadds.enumerations
    hadds.relationships hoptions
  rwa [d.keys_filedApplications, List.map_map, List.map_map] at hkept

theorem retained_of_descriptors {entities : Descriptors} (hj : j.Reachable)
    (h : entities.toModelFrom j = .ok k) :
    j.Retained k [] entities.keys entities.enumerationNames := by
  obtain rfl := Descriptors.toModelFrom_eq_readInto h
  have hnone : j.applications = j.applications.insertAll [] := rfl
  have hkept := Retained.of_additions (k := entities.readInto j) hj hnone rfl rfl rfl rfl
  rwa [List.map_map, List.map_map] at hkept

/-- Whatever is read into a model, what the input does not name stays as it was and in its place. -/
theorem Reachable.retained (hj : j.Reachable) :
    (∀ (d : Document) target draw k, d.toModelFrom target draw j = .ok k →
      j.Retained k d.applicationNames d.entityNames d.enumerationNames) ∧
    ∀ (entities : Descriptors) k, entities.toModelFrom j = .ok k →
      j.Retained k [] entities.keys entities.enumerationNames :=
  ⟨fun _ _ _ _ => retained_of_document hj, fun _ _ => retained_of_descriptors hj⟩

/-- The books of a stall. -/
def stall : Document :=
  { Document.empty with
    applications := [⟨Table.ofList [("baseName", .text "stall")], none⟩]
    entities :=
      [⟨"Book", none, none, [.field ⟨"genre", "Genre", []⟩]⟩, ⟨"Author", none, none, []⟩]
    enumerations := [⟨"Genre", ["NOVEL"], none⟩]
    relationships :=
      [⟨.manyToOne, ⟨"Book", none, some "who wrote it", false⟩, ⟨"Author", none, none, false⟩⟩]
    options := [⟨"dto", some "mapstruct", ["Book"], []⟩] }

/-- A delivery that describes the books anew and states their relationship once more. -/
def delivery : Document :=
  { Document.empty with
    applications := [⟨Table.ofList [("baseName", .text "depot")], none⟩]
    entities := [⟨"Book", some "volume", none, []⟩, ⟨"Crate", none, none, []⟩]
    relationships := [⟨.manyToOne, ⟨"Book", none, none, true⟩, ⟨"Author", none, none, true⟩⟩]
    options := [⟨"dto", some "mapstruct", ["Crate"], ["Author"]⟩] }

/-- A descriptor of the authors. -/
def authorFile : Descriptors :=
  Table.ofList [("Author", { EntityDescriptor.empty with dto := some "mapstruct" })]

theorem stall_retained : ∃ j k k', j.Reachable ∧
    (delivery.toModelFrom .any (fun _ => ⟨"secret", "key"⟩) j = .ok k ∧
      j.Retained k ["depot"] ["Book", "Crate"] []) ∧
    authorFile.toModelFrom j = .ok k' ∧ j.Retained k' [] ["Author"] [] := by
  have hruns : (do
      let j ← stall.toModel .any (fun _ => ⟨"secret", "key"⟩)
      let k ← delivery.toModelFrom .any (fun _ => ⟨"secret", "key"⟩) j
      return (k, ← authorFile.toModelFrom j) : Outcome (Model × Model)).toOption.isSome = true := by
    decide +kernel
  cases hj : stall.toModel .any (fun _ => ⟨"secret", "key"⟩) with
  | error f => simp [hj, bind, Except.bind, Except.toOption] at hruns
  | ok j =>
    have hreach : j.Reachable := Document.toModelFrom_reachable hj .empty
    cases hk : delivery.toModelFrom .any (fun _ => ⟨"secret", "key"⟩) j with
    | error f => simp [hj, hk, bind, Except.bind, Except.toOption] at hruns
    | ok k =>
      cases hk' : authorFile.toModelFrom j with
      | error f => simp [hj, hk, hk', bind, Except.bind, Except.toOption] at hruns
      | ok k' =>
        exact ⟨j, k, k', hreach, ⟨hk, hreach.retained.1 delivery _ _ k hk⟩, hk',
          hreach.retained.2 authorFile k' hk'⟩

end Model
end DomainModel
