import DomainModel.Proofs.Documents.Databases
/-!
# What a document adds to a model

Where resolving succeeds, its result is the model with the declared applications, entities and
enumerations written in turn, and with the declared relationships and further options added in turn.
-/
namespace DomainModel

/-- The enumeration that a declaration means. -/
def DeclaredEnumeration.enumeration (e : DeclaredEnumeration) : Enumeration :=
  { Enumeration.named e.name e.values with comment := e.comment }

/-- The base name under which a declared application is filed. -/
def DeclaredApplication.baseName (a : DeclaredApplication) : String :=
  ((a.settings.find? "baseName").getD (.text "simlife")).text?.getD ""

theorem DeclaredApplication.baseName?_application (a : DeclaredApplication) (names : List String)
    (secrets : Secrets) : (a.application names secrets).baseName?.getD "" = a.baseName := by
  have hdefault : Table.lookup "baseName" (baseDefaults ++ lateDefaults) =
      some (.text "simlife") := by decide
  have hfound : (a.application names secrets).settings.find? "baseName" =
      some ((a.settings.find? "baseName").getD (.text "simlife")) := by
    rw [settings_application, Settings.find?_withDefaults_plain secrets a.settings (by decide),
      hdefault]
    cases a.settings.find? "baseName" <;> rfl
  rw [Application.baseName?, Settings.baseName?, Settings.text?, hfound, baseName]
  generalize (a.settings.find? "baseName").getD (.text "simlife") = v
  cases htext : v.text? with
  | none =>
    split
    · next name hname =>
      obtain rfl := Option.some.inj hname
      cases htext
    · rfl
  | some name =>
    obtain rfl : v = .text name := by
      unfold Json.text? at htext
      split at htext <;> simp_all
    by_cases hname : name = "" <;> simp [hname]

namespace Document
variable {d : Document} {target : Target} {draw : Nat → Secrets} {m m' : Model}

def applicationNames (d : Document) : List String := d.applications.map DeclaredApplication.baseName

def enumerationNames (d : Document) : List String := d.enumerations.map DeclaredEnumeration.name

theorem keys_filedApplications (d : Document) (names : List String) (draw : Nat → Secrets) :
    (filedApplications names draw d.applications.zipIdx).map Prod.fst = d.applicationNames := by
  have hnames : ∀ l : List (DeclaredApplication × Nat),
      (filedApplications names draw l).map Prod.fst =
        (l.map Prod.fst).map DeclaredApplication.baseName := by
    intro l
    simp [filedApplications, DeclaredApplication.baseName?_application]
  rw [hnames, List.zipIdx_map_fst, applicationNames]

theorem addEnumerations_adds (h : d.addEnumerations m = .ok m') :
    m' = { m with enumerations :=
      m.enumerations.insertAll (d.enumerations.map fun e => (e.name, e.enumeration)) } := by
  rw [Table.insertAll, List.foldl_map]
  apply Outcome.foldlM_rewrites
    (fun t => Model.mk m.applications m.entities t m.relationships m.options) h
  intro e _ t k hadd
  exact (Model.addEnumeration_eq_ok.mp hadd).2

theorem addRelationships_adds (h : d.addRelationships m = .ok m') :
    m' = { m with relationships :=
      m.relationships.addAll (d.relationships.map buildRelationship) } := by
  rw [RelationshipTable.addAll, List.foldl_map]
  apply Outcome.foldlM_rewrites
    (fun t => Model.mk m.applications m.entities m.enumerations t m.options) h
  intro r _ t k hstep
  obtain ⟨_, -, hstep⟩ := Outcome.bind_eq_ok.mp hstep
  obtain ⟨_, -, hadd⟩ := Outcome.bind_eq_ok.mp hstep
  exact (Model.addRelationship_eq_ok.mp hadd).2

/-- Which options are added depends on the target and on what the model holds. -/
theorem addOptions_adds (h : d.addOptions target m = .ok m') :
    ∃ l, m' = { m with options := m.options.addAll l } := by
  apply Outcome.foldlM_keeps (fun k => ∃ l, k = { m with options := m.options.addAll l }) _
    ⟨[], rfl⟩ h
  rintro o _ k k' ⟨l, rfl⟩ hstep
  by_cases hleft : LeftOut target o
  · obtain rfl := Except.ok.inj ((addOption_leftOut hleft).symm.trans hstep)
    exact ⟨l, rfl⟩
  · obtain ⟨built, -, -, -, -, rfl⟩ := (addOption_eq_ok hleft).mp hstep
    exact ⟨l ++ [built], by rw [OptionTable.addAll_append]; rfl⟩

theorem assignMicroservice_adds (h : d.assignMicroservice target m = .ok m') :
    ∃ l, m' = { m with options := m.options.addAll l } := by
  rcases assignMicroservice_spec h with rfl | ⟨_, plain, -, hadd⟩
  · exact ⟨[], rfl⟩
  · exact ⟨[plain.withIncluded m.entityNames], (Model.addOption_eq_ok.mp hadd).2⟩

/-- The second model is the first with what the document adds. -/
structure Adds (d : Document) (draw : Nat → Secrets) (m m' : Model) : Prop where
  applications : m'.applications = m.applications.insertAll
    (filedApplications m'.entityNames draw d.applications.zipIdx)
  entities : m'.entities = m.entities.insertAll (d.entities.map fun e => (e.name, d.entityOf e))
  enumerations : m'.enumerations =
    m.enumerations.insertAll (d.enumerations.map fun e => (e.name, e.enumeration))
  relationships : m'.relationships =
    m.relationships.addAll (d.relationships.map buildRelationship)
  options : ∃ l, m'.options = m.options.addAll l

theorem toModelFrom_adds (h : d.toModelFrom target draw m = .ok m') : d.Adds draw m m' := by
  obtain ⟨_, henumerations, h⟩ := Outcome.bind_eq_ok.mp h
  obtain rfl := addEnumerations_adds henumerations
  obtain ⟨_, hentities, h⟩ := Outcome.bind_eq_ok.mp h
  obtain rfl := addEntities_adds hentities
  obtain ⟨_, hrelationships, h⟩ := Outcome.bind_eq_ok.mp h
  obtain rfl := addRelationships_adds hrelationships
  obtain ⟨_, hoptions, h⟩ := Outcome.bind_eq_ok.mp h
  obtain ⟨declared, rfl⟩ := addOptions_adds hoptions
  obtain ⟨_, hmicroservice, happlications⟩ := Outcome.bind_eq_ok.mp h
  obtain ⟨assigned, rfl⟩ := assignMicroservice_adds hmicroservice
  obtain ⟨rfl, -⟩ := addApplications_spec happlications
  exact ⟨rfl, rfl, rfl, rfl, declared ++ assigned, by rw [OptionTable.addAll_append]⟩

end Document
end DomainModel
