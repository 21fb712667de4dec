import DomainModel.Proofs.Documents.Entities
import DomainModel.Proofs.Models.Settings
/-!
# Databases of entities

The last declared application that selects an entity decides its database, unless the target names
one. Field types and options are checked against it. Where no two applications with different
databases select the same entity, every application of the model therefore owns entities whose
fields and options suit its own database.
-/
namespace DomainModel

namespace DeclaredApplication

/-- The database that a declared application names; SQL where it names none that is known. -/
def database (a : DeclaredApplication) : DatabaseType :=
  (((a.settings.find? "databaseType").bind Json.text?).bind DatabaseType.ofWord?).getD .sql

/-- The names that a declared application selects among those of the entities. -/
def selected (a : DeclaredApplication) (names : List String) : List String :=
  match a.selection with
  | none => []
  | some s => s.choose names

theorem mem_entityNames_application {a : DeclaredApplication} {names : List String}
    {secrets : Secrets} {n : String} :
    n ∈ (a.application names secrets).entityNames ↔ n ∈ a.selected names := by
  unfold application selected
  cases a.selection with
  | none => exact iff_of_false List.not_mem_nil List.not_mem_nil
  | some s => exact NameSet.mem_insertAll.trans (or_iff_right List.not_mem_nil)

theorem settings_application (a : DeclaredApplication) (names : List String) (secrets : Secrets) :
    (a.application names secrets).settings = a.settings.withDefaults secrets := by
  unfold application
  split <;> rfl

theorem database_of_databaseType? {a : DeclaredApplication} {names : List String}
    {secrets : Secrets} {t : DatabaseType}
    (h : (a.application names secrets).settings.databaseType? = some t) : a.database = t := by
  rw [settings_application, Settings.databaseType?, Settings.text?,
    Settings.find?_databaseType] at h
  unfold database
  cases hstated : a.settings.find? "databaseType" with
  | none =>
    rw [hstated] at h
    exact Option.some.inj h
  | some v =>
    rw [hstated, Option.getD_some] at h
    split at h
    · next word hword =>
      obtain rfl := Option.some.inj hword
      split at h
      · simp at h
      · exact congrArg (Option.getD · DatabaseType.sql) h
    · simp at h

end DeclaredApplication

namespace Document
variable {d : Document} {target : Target} {draw : Nat → Secrets} {m m' : Model}

/-- The database of the last declared application that selects the entity. -/
def lastDatabase? (d : Document) (entity : String) : Option DatabaseType :=
  (d.applications.filter fun a => (a.selected d.entityNames).contains entity).getLast?.map
    DeclaredApplication.database

theorem ownedDatabases_eq (d : Document) :
    d.ownedDatabases = d.applications.flatMap fun a =>
      (a.selected d.entityNames).map fun n => (n, a.database) := by
  unfold ownedDatabases
  congr 1
  funext a
  simp only [DeclaredApplication.selected]
  cases a.selection <;> rfl

theorem lookup_ownedDatabases (d : Document) (n : String) :
    Table.lookup n d.ownedDatabases.reverse = d.lastDatabase? n := by
  rw [ownedDatabases_eq, lastDatabase?]
  induction d.applications using List.reverseRecOn with
  | nil => rfl
  | append_singleton l a ih =>
    have hlast : Table.lookup n ((a.selected d.entityNames).map fun n => (n, a.database)).reverse =
        if n ∈ a.selected d.entityNames then some a.database else none := by
      rw [← List.map_reverse, Table.lookup_map_const]
      simp only [List.mem_reverse]
    simp only [List.flatMap_append, List.reverse_append, List.flatMap_singleton,
      Table.lookup_append, List.filter_append, List.getLast?_append, ih, hlast]
    by_cases hn : n ∈ a.selected d.entityNames <;> simp [hn]

theorem databaseOf_eq (d : Document) (target : Target) (n : String) :
    d.databaseOf target n = target.databaseType.getD ((d.lastDatabase? n).getD .sql) := by
  unfold databaseOf
  rw [lookup_ownedDatabases]
  cases target.databaseType <;> rfl

/-- No entity is selected by two declared applications with different databases. -/
def OneDatabaseEach (d : Document) : Prop :=
  ∀ n ∈ d.entityNames, ∀ a ∈ d.applications, ∀ b ∈ d.applications,
    n ∈ a.selected d.entityNames → n ∈ b.selected d.entityNames → a.database = b.database

instance (d : Document) : Decidable d.OneDatabaseEach :=
  inferInstanceAs (Decidable (∀ n ∈ d.entityNames, ∀ a ∈ d.applications, ∀ b ∈ d.applications,
    n ∈ a.selected d.entityNames → n ∈ b.selected d.entityNames → a.database = b.database))

theorem OneDatabaseEach.lastDatabase? (h : d.OneDatabaseEach) {a : DeclaredApplication} {n : String}
    (hn : n ∈ d.entityNames) (ha : a ∈ d.applications) (hselected : n ∈ a.selected d.entityNames) :
    d.lastDatabase? n = some a.database := by
  unfold Document.lastDatabase?
  cases hlast : (d.applications.filter fun a =>
      (a.selected d.entityNames).contains n).getLast? with
  | none =>
    rw [List.getLast?_eq_none_iff, List.filter_eq_nil_iff] at hlast
    exact absurd (by simpa using hselected) (hlast a ha)
  | some b =>
    obtain ⟨hb, hcontains⟩ := List.mem_filter.mp (List.mem_of_getLast? hlast)
    exact congrArg some (h n hn b hb a ha (by simpa using hcontains) hselected)

/-- Every field of the model has a type that its entity may use. -/
def FieldsFit (d : Document) (target : Target) (m : Model) : Prop :=
  ∀ name e, (name, e) ∈ m.entities.entries → ∀ f ∈ e.fields.values, d.Fits target m name f.type

/-- No option of the model is refused by the database of an entity that it applies to. -/
def OptionsHonoured (d : Document) (target : Target) (m : Model) : Prop :=
  ∀ o ∈ m.options.toList, ∀ n ∈ m.entities.keys, o.appliesTo n = true →
    OptionName.refusal? o.name (d.databaseOf target n) = none

theorem FieldsFit.of_within (h : d.FieldsFit target m) (hm : m.Within m')
    (hentities : m'.entities = m.entities) : d.FieldsFit target m' := by
  intro name e he f hf
  rw [hentities] at he
  exact (h name e he f hf).mono hm

theorem declare_fieldsFit {x : Declaration} (hm : d.FieldsFit target m)
    (h : d.declare target m x = .ok m') : d.FieldsFit target m' := by
  obtain ⟨p, hp, -, hdemands, rfl⟩ := declare_eq_ok.mp h
  have hphase := phase_of_addition hp
  have hother : p.phase ≠ 1 → d.FieldsFit target (m.put p) :=
    fun hne => hm.of_within (m.within_put p) (Model.entities_put hne)
  cases x with
  | enumeration e => exact hother (by simp [hphase, Declaration.phase])
  | relationship r => exact hother (by simp [hphase, Declaration.phase])
  | option o => exact hother (by simp [hphase, Declaration.phase])
  | entity declared =>
    obtain rfl := Except.ok.inj hp
    intro name e he f hf
    rcases Table.mem_entries_insert.mp he with ⟨rfl, rfl⟩ | ⟨-, hold⟩
    · rcases Table.mem_values_insertAll hf with hnone | hdeclared
      · exact absurd hnone List.not_mem_nil
      · obtain ⟨_, hentry, rfl⟩ := List.mem_map.mp hdeclared
        obtain ⟨x, hx, rfl⟩ := List.mem_map.mp hentry
        dsimp only
        rw [(buildField_describes x).type]
        exact (hdemands x hx).mono (m.within_put _)
    · exact (hm name e hold f hf).mono (m.within_put _)

theorem OptionsHonoured.addOption (h : d.OptionsHonoured target m) (hm : m.Reachable)
    {o : GeneratorOption} (ho : o.Legal)
    (hfree : ∀ n ∈ m.entities.keys, o.appliesTo n = true →
      OptionName.refusal? o.name (d.databaseOf target n) = none) :
    d.OptionsHonoured target { m with options := m.options.add o } := by
  intro p hp n hn happlies
  obtain ⟨q, hq, hname, hqn⟩ :=
    OptionTable.exists_appliesTo_of_add hm.wellFormed.options ho hp happlies
  rw [← hname]
  rcases hq with hold | rfl
  · exact h q hold n hn hqn
  · exact hfree n hn hqn

/-- A declared option is checked against the databases of the entities that it applies to, and of
those that it lists by name although it excludes them. -/
theorem mem_optionTargets_iff {o : DeclaredOption} {n : String} (hn : n ∈ m.entities.keys) :
    n ∈ optionTargets m o ↔ o.scope.appliesTo n = true ∨
      n ∈ o.listed ∧ n ∈ o.excluded ∧ allEntities ∉ o.listed := by
  rw [DeclaredOption.appliesTo_scope_iff]
  unfold optionTargets
  by_cases hall : o.listed = [] ∨ allEntities ∈ o.listed
  · have hunlisted : ¬ (n ∈ o.listed ∧ n ∈ o.excluded ∧ allEntities ∉ o.listed) := by
      rintro ⟨hlisted, -, hexplicit⟩
      exact hexplicit (hall.resolve_left (List.ne_nil_of_mem hlisted))
    rw [if_pos (by simpa using hall), or_iff_left hunlisted, and_iff_left (.inl hall),
      List.mem_filter]
    exact (and_iff_right hn).trans (by simp)
  · rw [if_neg (by simpa using hall), or_iff_right hall]
    have hexplicit : allEntities ∉ o.listed := fun h => hall (.inr h)
    by_cases hexcluded : n ∈ o.excluded <;> simp [hexcluded, hexplicit]

theorem mem_optionDatabases_iff {o : DeclaredOption} (h : optionTargets m o ≠ [])
    {t : DatabaseType} :
    t ∈ d.optionDatabases target m o ↔ ∃ n ∈ optionTargets m o, d.databaseOf target n = t := by
  unfold optionDatabases
  split
  · next hnone => exact absurd hnone h
  · exact List.mem_map

theorem declare_optionsHonoured {o : DeclaredOption} (hm : m.Reachable)
    (h : d.OptionsHonoured target m) (hadd : d.declare target m (.option o) = .ok m') :
    d.OptionsHonoured target m' := by
  by_cases hleft : LeftOut target o
  · obtain rfl := Except.ok.inj ((addOption_leftOut hleft).symm.trans hadd)
    exact h
  · obtain ⟨built, hbuilt, -, hdatabases, -, rfl⟩ := (addOption_eq_ok hleft).mp hadd
    obtain ⟨hlegal, hname, hscope⟩ := buildOption_spec hbuilt
    refine h.addOption hm hlegal.legal ?_
    intro n hn happlies
    rw [GeneratorOption.appliesTo, hscope] at happlies
    rw [hname]
    have htarget := (mem_optionTargets_iff hn).mpr (.inl happlies)
    exact hdatabases _
      ((mem_optionDatabases_iff (List.ne_nil_of_mem htarget)).mpr ⟨n, htarget, rfl⟩)

theorem assignMicroservice_optionsHonoured (hm : m.Reachable) (h : d.OptionsHonoured target m)
    (hadd : d.assignMicroservice target m = .ok m') : d.OptionsHonoured target m' := by
  rcases assignMicroservice_spec hadd with rfl | ⟨name, plain, hplain, hadd⟩
  · exact h
  · obtain ⟨-, rfl⟩ := Model.addOption_eq_ok.mp hadd
    have hname : (plain.withIncluded m.entityNames).name = OptionName.microservice := by
      obtain ⟨-, rfl⟩ := GeneratorOption.ofValue_eq_ok.mp hplain
      rfl
    have hlegal := ((GeneratorOption.Built.value hplain).withScope
      { plain.scope with included := NameSet.ofList m.entityNames }).legal
    refine h.addOption hm hlegal ?_
    intro n _ _
    rw [hname]
    exact OptionName.refusal?_eq_none (by decide) _

/-- Fields and options of a resolved document suit the databases of their entities. -/
theorem toModel_suits (h : d.toModel target draw = .ok m) :
    d.FieldsFit target m ∧ d.OptionsHonoured target m := by
  obtain ⟨k, k', hrun, hmicroservice, happlications⟩ := toModelFrom_eq_ok.mp h
  rw [declarations, List.foldlM_append, Outcome.bind_eq_ok] at hrun
  obtain ⟨k₀, hparts, hoptions⟩ := hrun
  -- Options are checked against all entities, since these are declared before.
  have hbefore : k₀.Reachable ∧ d.FieldsFit target k₀ ∧ k₀.options = ∅ := by
    apply Outcome.foldlM_keeps (fun k => k.Reachable ∧ d.FieldsFit target k ∧ k.options = ∅) _
      ⟨.empty, by rintro _ _ ⟨⟩, rfl⟩ hparts
    rintro x hx b b' ⟨hreach, hfit, hnone⟩ hadd
    refine ⟨declare_reachable hadd hreach, declare_fieldsFit hfit hadd, ?_⟩
    obtain ⟨p, hp, -, -, rfl⟩ := declare_eq_ok.mp hadd
    have hphase : x.phase ≠ 3 := by
      simp only [List.mem_append, List.mem_map] at hx
      rcases hx with (⟨_, -, rfl⟩ | ⟨_, -, rfl⟩) | ⟨_, -, rfl⟩ <;> simp [Declaration.phase]
    rw [Model.options_put (by rwa [phase_of_addition hp]), hnone]
  have hafter : k.Reachable ∧ d.FieldsFit target k ∧ d.OptionsHonoured target k := by
    apply Outcome.foldlM_keeps
      (fun k => k.Reachable ∧ d.FieldsFit target k ∧ d.OptionsHonoured target k) _
      ⟨hbefore.1, hbefore.2.1, ?_⟩ hoptions
    · rintro x hx b b' ⟨hreach, hfit, hhonoured⟩ hadd
      obtain ⟨o, -, rfl⟩ := List.mem_map.mp hx
      exact ⟨declare_reachable hadd hreach, declare_fieldsFit hfit hadd,
        declare_optionsHonoured hreach hhonoured hadd⟩
    · intro o ho
      rw [hbefore.2.2] at ho
      exact absurd ho List.not_mem_nil
  have hhonoured : d.OptionsHonoured target k' :=
    assignMicroservice_optionsHonoured hafter.1 hafter.2.2 hmicroservice
  have hfit : d.FieldsFit target k' := by
    obtain ⟨_, rfl⟩ := assignMicroservice_frame hmicroservice
    exact hafter.2.1
  obtain ⟨rfl, -⟩ := addApplications_spec happlications
  exact ⟨hfit, hhonoured⟩

theorem enumeration_declared (h : d.toModel target draw = .ok m) {name : String}
    (hname : m.hasEnumeration name = true) :
    name ∈ d.enumerations.map DeclaredEnumeration.name := by
  obtain ⟨k, k', hrun, hmicroservice, happlications⟩ := toModelFrom_eq_ok.mp h
  have hall : ∀ n ∈ k.enumerations.keys, n ∈ d.enumerations.map DeclaredEnumeration.name := by
    apply Outcome.foldlM_keeps
      (fun k : Model => ∀ n ∈ k.enumerations.keys, n ∈ d.enumerations.map DeclaredEnumeration.name)
      _ (by rintro _ ⟨⟩) hrun
    intro x hx b b' hb hadd n hn
    obtain ⟨p, hp, -, -, rfl⟩ := declare_eq_ok.mp hadd
    have hother : x.phase ≠ 0 → n ∈ b.enumerations.keys := by
      intro hne
      rwa [Model.enumerations_put (by rwa [phase_of_addition hp])] at hn
    cases x with
    | enumeration e =>
      obtain rfl := Except.ok.inj hp
      rcases Table.mem_keys_insert.mp hn with rfl | hold
      · exact List.mem_map_of_mem (by simpa [declarations] using hx)
      · exact hb n hold
    | entity e => exact hb n (hother (by simp [Declaration.phase]))
    | relationship r => exact hb n (hother (by simp [Declaration.phase]))
    | option o => exact hb n (hother (by simp [Declaration.phase]))
  obtain ⟨rfl, -⟩ := addApplications_spec happlications
  have hkept : k'.enumerations = k.enumerations := by
    obtain ⟨_, rfl⟩ := assignMicroservice_frame hmicroservice
    rfl
  exact hall name (hkept ▸ Table.contains_iff.mp hname)

theorem mem_selected_congr {a : DeclaredApplication} {names names' : List String}
    (h : ∀ n, n ∈ names ↔ n ∈ names') {n : String} :
    n ∈ a.selected names ↔ n ∈ a.selected names' := by
  unfold DeclaredApplication.selected
  cases a.selection with
  | none => exact Iff.rfl
  | some s =>
    simp only [Selection.choose, List.mem_filter]
    split
    · rw [h]
    · exact Iff.rfl

/-- Every application of a resolved document owns entities whose options and field types suit its
own database, if no two applications with different databases select the same entity. -/
theorem toModel_databaseRules (hshared : d.OneDatabaseEach) (htarget : target.databaseType = none)
    (h : d.toModel target draw = .ok m) {a : Application} (ha : a ∈ m.applications.values)
    {t : DatabaseType} (ht : a.settings.databaseType? = some t) {n : String}
    (hn : n ∈ a.entityNames) :
    (t = .cassandra → ∀ o ∈ m.options.named OptionName.pagination, o.appliesTo n = false) ∧
      ∃ e, m.entities.find? n = some e ∧ (target.applicationType ≠ some .gateway →
        ∀ f ∈ e.fields.values, FieldType.isLegal t f.type = true ∨
          f.type ∈ d.enumerations.map DeclaredEnumeration.name) := by
  obtain ⟨i, declared, hat⟩ := (toModel_resolved h).applications a ha
  have hentity := hat.owned n hn
  have hselected : n ∈ declared.selected d.entityNames := by
    have hchosen : n ∈ declared.selected m.entityNames :=
      DeclaredApplication.mem_entityNames_application.mp (hat.made ▸ hn)
    exact (mem_selected_congr (keys_toModel h)).mp hchosen
  have hdatabase : d.databaseOf target n = t := by
    have hlast := hshared.lastDatabase? ((keys_toModel h n).mp hentity)
      (List.mem_of_getElem? hat.position) hselected
    rw [databaseOf_eq, htarget, hlast]
    exact DeclaredApplication.database_of_databaseType? (hat.made ▸ ht)
  obtain ⟨hfit, hhonoured⟩ := toModel_suits h
  constructor
  · rintro rfl o ho
    obtain ⟨hheld, hname⟩ := List.mem_filter.mp ho
    by_contra happlies
    have hfree := hhonoured o hheld n hentity (by simpa using happlies)
    rw [hdatabase, beq_iff_eq.mp hname] at hfree
    exact absurd hfree (by decide)
  · obtain ⟨e, he⟩ := (Table.mem_keys_iff m.entities n).mp hentity
    refine ⟨e, he, ?_⟩
    intro hgateway f hf
    have hfits := hfit n e (Table.find?_eq_some_iff.mp he) f hf
    rcases hfits.resolve_left hgateway with hlegal | hdeclared
    · exact .inl (hdatabase ▸ hlegal)
    · exact .inr (enumeration_declared h hdeclared)

/-- A newsroom with an archive that has a database of its own for all but the articles. -/
def newsroom : Document :=
  { empty with
    applications :=
      [⟨Table.ofList [("baseName", .text "desk")], some ⟨["Article"], []⟩⟩,
        ⟨Table.ofList [("baseName", .text "archive"), ("databaseType", .text "cassandra")],
          some ⟨[allEntities], ["Article"]⟩⟩]
    entities :=
      [⟨"Article", none, none, [.field ⟨"body", "TextBlob", []⟩]⟩,
        ⟨"Event", none, none,
          [.field ⟨"key", "UUID", []⟩, .separator, .field ⟨"kind", "Kind", []⟩]⟩]
    enumerations := [⟨"Kind", ["READ", "PRINTED"], none⟩]
    options :=
      [⟨"paginate", some "pager", ["Article"], []⟩, ⟨"pagination", some "pager", [], ["Event"]⟩] }

theorem newsroom_databaseRules : newsroom.OneDatabaseEach ∧
    ∃ m, newsroom.toModel .any (fun _ => ⟨"secret", "key"⟩) = .ok m ∧
      ∃ a ∈ m.applications.values, a.settings.databaseType? = some .cassandra ∧
        "Event" ∈ a.entityNames ∧
        (∀ o ∈ m.options.named OptionName.pagination, o.appliesTo "Event" = false) ∧
        ∃ e, m.entities.find? "Event" = some e ∧ ∀ f ∈ e.fields.values,
          FieldType.isLegal .cassandra f.type = true ∨
            f.type ∈ newsroom.enumerations.map DeclaredEnumeration.name := by
  have hshared : newsroom.OneDatabaseEach := by decide +kernel
  have hrun : (newsroom.toModel .any (fun _ => ⟨"secret", "key"⟩)).map
      (fun m => m.applications.values.any fun a =>
        decide (a.settings.databaseType? = some .cassandra ∧ "Event" ∈ a.entityNames)) =
        .ok true := by decide +kernel
  cases hresult : newsroom.toModel .any (fun _ => ⟨"secret", "key"⟩) with
  | error f => simp [hresult, Except.map] at hrun
  | ok m =>
    rw [hresult] at hrun
    obtain ⟨a, ha, harchive⟩ := List.any_eq_true.mp (Except.ok.inj hrun)
    obtain ⟨hdatabase, hevent⟩ := of_decide_eq_true harchive
    obtain ⟨hpaging, e, he, hfields⟩ :=
      toModel_databaseRules hshared rfl hresult ha hdatabase hevent
    exact ⟨hshared, m, rfl, a, ha, hdatabase, hevent, hpaging rfl, e, he, hfields nofun⟩

end Document
end DomainModel
