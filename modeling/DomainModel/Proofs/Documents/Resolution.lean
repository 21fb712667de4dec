import DomainModel.Document.ToModel
import DomainModel.Proofs.Models.Closed
/-!
# Resolved documents

Every phase of resolving keeps a reachable and closed model so, and all but the last leave the
applications alone. The model of a document is therefore valid and closed, and each of its
applications is that of the last declaration of its base name.
-/
namespace DomainModel

/-- The application that a declaration means among the named entities. -/
def DeclaredApplication.application (declared : DeclaredApplication) (entityNames : List String)
    (secrets : Secrets) : Application :=
  match declared.selection with
  | none => .new secrets declared.settings
  | some s => (Application.new secrets declared.settings).addEntityNames (s.choose entityNames)

/-- The scope that a declared option states: the listed names, or every entity where none is. -/
def DeclaredOption.scope (o : DeclaredOption) : Scope where
  included :=
    if o.listed.isEmpty then NameSet.singleton allEntities else NameSet.ofList o.listed
  excluded := NameSet.ofList o.excluded

theorem DeclaredOption.mem_included_scope {o : DeclaredOption} {n : String} :
    n ∈ o.scope.included ↔ o.listed = [] ∧ n = allEntities ∨ n ∈ o.listed := by
  unfold scope
  cases hlisted : o.listed with
  | nil =>
    change n ∈ [allEntities] ↔ _
    simp
  | cons first rest =>
    change n ∈ NameSet.ofList (first :: rest) ↔ _
    simp [NameSet.mem_ofList]

theorem DeclaredOption.mem_excluded_scope {o : DeclaredOption} {n : String} :
    n ∈ o.scope.excluded ↔ n ∈ o.excluded :=
  NameSet.mem_ofList

/-- A declared option applies to what it does not exclude: to every entity with the wildcard or
without a list, and else to those listed. -/
theorem DeclaredOption.appliesTo_scope_iff {o : DeclaredOption} {n : String} :
    o.scope.appliesTo n = true ↔
      n ∉ o.excluded ∧ ((o.listed = [] ∨ allEntities ∈ o.listed) ∨ n ∈ o.listed) := by
  rw [Scope.appliesTo_iff, mem_excluded_scope, mem_included_scope, mem_included_scope]
  refine and_congr_right fun _ => ?_
  constructor
  · rintro ((⟨hnil, -⟩ | hall) | (⟨hnil, -⟩ | hlisted))
    · exact .inl (.inl hnil)
    · exact .inl (.inr hall)
    · exact .inl (.inl hnil)
    · exact .inr hlisted
  · rintro ((hnil | hall) | hlisted)
    · exact .inl (.inl ⟨hnil, rfl⟩)
    · exact .inl (.inr hall)
    · exact .inr (.inr hlisted)

namespace Document
variable {d : Document} {target : Target} {draw : Nat → Secrets} {m m' : Model}

/-- What the phases before the last do to a model. -/
structure Keeps (m m' : Model) : Prop where
  reachable : m.Reachable → m'.Reachable
  closed : m.Closed → m'.Closed
  applications : m'.applications = m.applications

theorem Keeps.refl (m : Model) : Keeps m m := ⟨id, id, rfl⟩

theorem Keeps.trans {m₁ m₂ m₃ : Model} (h : Keeps m₁ m₂) (h' : Keeps m₂ m₃) : Keeps m₁ m₃ :=
  ⟨h'.reachable ∘ h.reachable, h'.closed ∘ h.closed, h'.applications.trans h.applications⟩

theorem addEnumerations_keeps (h : d.addEnumerations m = .ok m') :
    Keeps m m' ∧ m'.entities = m.entities := by
  apply Outcome.foldlM_keeps (fun k => Keeps m k ∧ k.entities = m.entities) _ ⟨Keeps.refl m, rfl⟩ h
  intro e _ k k' hk hadd
  have hframe := (Model.addEnumeration_eq_ok.mp hadd).2
  refine ⟨hk.1.trans ⟨fun hr => hr.enumeration hadd, fun hc => hc.addEnumeration hadd, ?_⟩, ?_⟩
  · rw [hframe]
  · rw [hframe, hk.2]

theorem buildEntity_name {declared : DeclaredEntity} {e : Entity}
    (h : d.buildEntity target m declared = .ok e) : e.name = declared.name := by
  apply Outcome.foldlM_keeps (fun e => e.name = declared.name) _ rfl h
  rintro ⟨f, comment⟩ _ b b' hb hstep
  dsimp only at hstep
  split at hstep
  · exact Except.ok.inj hstep ▸ hb
  · obtain ⟨_, -, hadd⟩ := Outcome.bind_eq_ok.mp hstep
    exact Except.ok.inj hadd ▸ hb

theorem addEntities_keeps (h : d.addEntities target m = .ok m') : Keeps m m' := by
  apply Outcome.foldlM_keeps (Keeps m) _ (Keeps.refl m) h
  intro declared _ k k' hk hstep
  obtain ⟨e, -, hadd⟩ := Outcome.bind_eq_ok.mp hstep
  refine hk.trans ⟨fun hr => hr.entity hadd, fun hc => hc.addEntity hadd, ?_⟩
  rw [(Model.addEntity_eq_ok.mp hadd).2]

theorem addEntities_keys (h : d.addEntities target m = .ok m') (n : String) :
    n ∈ m'.entities.keys ↔ n ∈ m.entities.keys ∨ n ∈ d.entityNames := by
  unfold addEntities at h
  unfold entityNames
  generalize d.entities = l at h ⊢
  induction l generalizing m with
  | nil =>
    have hm : m = m' := by simpa [pure, Except.pure] using h
    simp [hm]
  | cons declared rest ih =>
    obtain ⟨k, hstep, hrest⟩ := Outcome.foldlM_cons_ok.mp h
    obtain ⟨e, he, hadd⟩ := Outcome.bind_eq_ok.mp hstep
    have hkeys : n ∈ k.entities.keys ↔ n ∈ m.entities.keys ∨ n = declared.name := by
      rw [(Model.addEntity_eq_ok.mp hadd).2, Table.mem_keys_insert, buildEntity_name he, or_comm]
    rw [ih hrest, hkeys, List.map_cons, List.mem_cons, or_assoc]

theorem checkEnd_eq_ok {r : DeclaredRelationship} {name : String} {u : Unit} :
    checkEnd m r name = .ok u ↔ m.HasEnd name := by
  simp [checkEnd, Model.HasEnd, Model.hasEntity, Table.contains_iff, Entity.isUser,
    or_iff_not_imp_left]

theorem addRelationships_keeps (h : d.addRelationships m = .ok m') :
    Keeps m m' ∧ m'.entities = m.entities := by
  apply Outcome.foldlM_keeps (fun k => Keeps m k ∧ k.entities = m.entities) _ ⟨Keeps.refl m, rfl⟩ h
  intro r _ k k' hk hstep
  obtain ⟨_, hsource, hstep⟩ := Outcome.bind_eq_ok.mp hstep
  obtain ⟨_, hdestination, hadd⟩ := Outcome.bind_eq_ok.mp hstep
  have hends := And.intro (checkEnd_eq_ok.mp hsource) (checkEnd_eq_ok.mp hdestination)
  have hframe := (Model.addRelationship_eq_ok.mp hadd).2
  refine ⟨hk.1.trans ⟨fun hr => hr.relationship hadd,
    fun hc => hc.addRelationship hends rfl hadd, ?_⟩, ?_⟩
  · rw [hframe]
  · rw [hframe, hk.2]

private theorem find?_undeclared_eq_none {l : List String} :
    (l.find? fun n => n != allEntities && !m.hasEntity n) = none ↔
      ∀ n ∈ l, n = allEntities ∨ n ∈ m.entities.keys := by
  simp only [List.find?_eq_none, Model.hasEntity, Bool.and_eq_true, bne_iff_ne, ne_eq,
    Bool.not_eq_true', not_and, Bool.not_eq_false, Table.contains_iff]
  exact forall₂_congr fun n _ => or_iff_not_imp_left.symm

theorem checkOptionEntities_eq_ok {name : String} {o : DeclaredOption} {u : Unit} :
    checkOptionEntities m name o = .ok u ↔
      ∀ n ∈ o.listed ++ o.excluded, n = allEntities ∨ n ∈ m.entities.keys := by
  rw [← find?_undeclared_eq_none]
  unfold checkOptionEntities
  split
  · next hfind => simp [hfind]
  · next hfind => simp [hfind]

theorem checkSelection_eq_ok {application : String} {s : Selection} {u : Unit} :
    checkSelection m application s = .ok u ↔
      ∀ n ∈ s.listed ++ s.excluded, n = allEntities ∨ n ∈ m.entities.keys := by
  rw [← find?_undeclared_eq_none]
  unfold checkSelection
  split
  · next hfind => simp [hfind]
  · next hfind => simp [hfind]

theorem buildOption_spec {name : String} {o : DeclaredOption} {built : GeneratorOption}
    (h : buildOption name o = .ok built) :
    built.Built ∧ built.name = name ∧ built.scope = o.scope := by
  have hspec : ∀ plain : GeneratorOption, plain.Built → plain.name = name →
      plain.scope = Scope.all →
      built = (if o.listed.isEmpty then plain else plain.withIncluded o.listed).withExcluded
        o.excluded →
      built.Built ∧ built.name = name ∧ built.scope = o.scope := by
    intro plain hplain hname hall hbuilt
    unfold DeclaredOption.scope
    subst hbuilt
    split
    · exact ⟨hplain.withScope _, by simp [GeneratorOption.withExcluded, hname],
        by simp [GeneratorOption.withExcluded, hall, Scope.all]⟩
    · exact ⟨(hplain.withScope _).withScope _,
        by simp [GeneratorOption.withExcluded, GeneratorOption.withIncluded, hname],
        by simp [GeneratorOption.withExcluded, GeneratorOption.withIncluded]⟩
  unfold buildOption at h
  dsimp only at h
  split at h
  · obtain ⟨plain, hplain, hbuilt⟩ := Outcome.bind_eq_ok.mp h
    have hflag := (GeneratorOption.ofFlag_eq_ok.mp hplain).2
    exact hspec plain (.flag hplain) (by rw [hflag]; rfl) (by rw [hflag]; rfl)
      (Except.ok.inj hbuilt).symm
  · split at h
    · obtain ⟨plain, hplain, hbuilt⟩ := Outcome.bind_eq_ok.mp h
      have hvalue := (GeneratorOption.ofValue_eq_ok.mp hplain).2
      exact hspec plain (.value hplain) (by rw [hvalue]; rfl) (by rw [hvalue]; rfl)
        (Except.ok.inj hbuilt).symm
    · obtain ⟨plain, hplain, -⟩ := Outcome.bind_eq_ok.mp h
      simp at hplain

theorem addOption_keeps {o : DeclaredOption} (h : d.addOption target m o = .ok m') :
    Keeps m m' ∧ m'.entities = m.entities := by
  unfold addOption at h
  dsimp only at h
  split at h
  · obtain rfl := Except.ok.inj h
    exact ⟨Keeps.refl m, rfl⟩
  · obtain ⟨built, hbuilt, h⟩ := Outcome.bind_eq_ok.mp h
    obtain ⟨_, hnames, h⟩ := Outcome.bind_eq_ok.mp h
    obtain ⟨_, -, hadd⟩ := Outcome.bind_eq_ok.mp h
    obtain ⟨hlegal, -, hscope⟩ := buildOption_spec hbuilt
    have hdeclared := checkOptionEntities_eq_ok.mp hnames
    have hcovers : m.Covers built.scope := by
      intro n hn
      rw [hscope, DeclaredOption.mem_included_scope, DeclaredOption.mem_excluded_scope] at hn
      rcases hn with (⟨-, hall⟩ | hlisted) | hexcluded
      · exact .inl hall
      · exact hdeclared n (List.mem_append_left _ hlisted)
      · exact hdeclared n (List.mem_append_right _ hexcluded)
    have hframe := (Model.addOption_eq_ok.mp hadd).2
    exact ⟨⟨fun hr => hr.option hlegal hadd, fun hc => hc.addOption hcovers hadd, by rw [hframe]⟩,
      by rw [hframe]⟩

theorem addOptions_keeps (h : d.addOptions target m = .ok m') :
    Keeps m m' ∧ m'.entities = m.entities := by
  apply Outcome.foldlM_keeps (fun k => Keeps m k ∧ k.entities = m.entities) _ ⟨Keeps.refl m, rfl⟩ h
  intro o _ k k' hk hstep
  obtain ⟨hkeeps, hentities⟩ := addOption_keeps hstep
  exact ⟨hk.1.trans hkeeps, hentities.trans hk.2⟩

/-- If anything, the microservice is assigned by one option over the entities of the model. -/
theorem assignMicroservice_spec (h : d.assignMicroservice target m = .ok m') :
    m' = m ∨ ∃ name plain, GeneratorOption.ofValue OptionName.microservice name = .ok plain ∧
      m.addOption (plain.withIncluded m.entityNames) = .ok m' := by
  unfold assignMicroservice at h
  split at h
  · exact .inl (Except.ok.inj h).symm
  · split at h
    · simp at h
    · next name _ =>
      obtain ⟨plain, hplain, hadd⟩ := Outcome.bind_eq_ok.mp h
      exact .inr ⟨name, plain, hplain, hadd⟩

theorem assignMicroservice_frame (h : d.assignMicroservice target m = .ok m') :
    ∃ options, m' = { m with options := options } := by
  rcases assignMicroservice_spec h with rfl | ⟨_, _, -, hadd⟩
  · exact ⟨m'.options, rfl⟩
  · exact ⟨_, (Model.addOption_eq_ok.mp hadd).2⟩

theorem assignMicroservice_keeps (h : d.assignMicroservice target m = .ok m') :
    Keeps m m' ∧ m'.entities = m.entities := by
  rcases assignMicroservice_spec h with rfl | ⟨name, plain, hplain, hadd⟩
  · exact ⟨Keeps.refl m', rfl⟩
  · have hcovers : m.Covers (plain.withIncluded m.entityNames).scope := by
      obtain ⟨-, rfl⟩ := GeneratorOption.ofValue_eq_ok.mp hplain
      intro n hn
      rcases hn with hn | hn
      · exact .inr (NameSet.mem_ofList.mp hn)
      · exact absurd hn List.not_mem_nil
    have hframe := (Model.addOption_eq_ok.mp hadd).2
    exact ⟨⟨fun hr => hr.option ((GeneratorOption.Built.value hplain).withScope _) hadd,
      fun hc => hc.addOption hcovers hadd, by rw [hframe]⟩, by rw [hframe]⟩

theorem buildApplication_eq_ok {names : List String} {secrets : Secrets}
    {declared : DeclaredApplication} {a : Application} :
    buildApplication m names secrets declared = .ok a ↔
      (∀ s, declared.selection = some s →
        ∀ n ∈ s.listed ++ s.excluded, n = allEntities ∨ n ∈ m.entities.keys) ∧
      a = declared.application names secrets := by
  unfold buildApplication DeclaredApplication.application
  cases declared.selection with
  | none => simp [eq_comm]
  | some s =>
    simp only [Outcome.bind_eq_ok, checkSelection_eq_ok, Option.some.injEq, forall_eq']
    simp [pure, Except.pure, eq_comm]

/-- The applications of numbered declarations, each under its base name. -/
def filedApplications (entityNames : List String) (draw : Nat → Secrets)
    (l : List (DeclaredApplication × Nat)) : List (String × Application) :=
  l.map fun x =>
    let a := x.1.application entityNames (draw x.2)
    (a.baseName?.getD "", a)

private theorem fileApplications_spec {l : List (DeclaredApplication × Nat)} {k : Model}
    (hentities : k.entities = m.entities)
    (h : (l.foldlM (fun k (a, i) => do
      k.addApplication (← buildApplication k m.entityNames (draw i) a)) k) = .ok m') :
    m' = { k with applications :=
      k.applications.insertAll (filedApplications m.entityNames draw l) } ∧
      ∀ x ∈ l, ∀ s, x.1.selection = some s →
        ∀ n ∈ s.listed ++ s.excluded, n = allEntities ∨ n ∈ m.entities.keys := by
  induction l generalizing k with
  | nil => exact ⟨(Except.ok.inj h).symm, by simp⟩
  | cons x rest ih =>
    obtain ⟨k', hstep, hrest⟩ := Outcome.foldlM_cons_ok.mp h
    obtain ⟨a, ha, hadd⟩ := Outcome.bind_eq_ok.mp hstep
    obtain ⟨hnames, rfl⟩ := buildApplication_eq_ok.mp ha
    have hframe := (Model.addApplication_eq_ok.mp hadd).2
    obtain ⟨hresult, hall⟩ := ih (by rw [hframe, hentities]) hrest
    refine ⟨by rw [hresult, hframe]; rfl, ?_⟩
    intro y hy
    rcases List.mem_cons.mp hy with rfl | hy
    · exact hentities ▸ hnames
    · exact hall y hy

theorem addApplications_spec (h : d.addApplications draw m = .ok m') :
    m' = { m with applications :=
      m.applications.insertAll (filedApplications m.entityNames draw d.applications.zipIdx) } ∧
      ∀ declared ∈ d.applications, ∀ s, declared.selection = some s →
        ∀ n ∈ s.listed ++ s.excluded, n = allEntities ∨ n ∈ m.entities.keys := by
  obtain ⟨hresult, hall⟩ := fileApplications_spec rfl h
  refine ⟨hresult, ?_⟩
  intro declared hdeclared
  obtain ⟨i, hi⟩ := List.mem_iff_getElem?.mp hdeclared
  exact hall (declared, i) (List.mem_zipIdx_iff_getElem?.mpr hi)

/-- The application is that of declaration `i`, the last one of its base name, and owns declared
entities that the declaration does not exclude. -/
structure DeclaredAt (d : Document) (draw : Nat → Secrets) (m : Model) (a : Application) (i : Nat)
    (declared : DeclaredApplication) : Prop where
  position : d.applications[i]? = some declared
  made : a = declared.application m.entityNames (draw i)
  last : ∀ j later, i < j → d.applications[j]? = some later →
    (later.application m.entityNames (draw j)).baseName? ≠ a.baseName?
  owned : ∀ n ∈ a.entityNames, n ∈ m.entities.keys
  kept : ∀ s, declared.selection = some s → ∀ n ∈ a.entityNames, n ∉ s.excluded

theorem mem_choose {s : Selection} {names : List String} {n : String} (h : n ∈ s.choose names) :
    n ∉ s.excluded ∧ (n ∈ names ∨ n ∈ s.listed ∧ n ≠ allEntities) := by
  obtain ⟨hchosen, hkept⟩ := List.mem_filter.mp h
  refine ⟨by simpa using hkept, ?_⟩
  split at hchosen
  · exact .inl hchosen
  · next hall =>
    refine .inr ⟨hchosen, ?_⟩
    rintro rfl
    exact hall (by simpa using hchosen)

theorem mem_application {declared : DeclaredApplication} {names : List String}
    {secrets : Secrets} {n : String} (h : n ∈ (declared.application names secrets).entityNames) :
    ∃ s, declared.selection = some s ∧ n ∈ s.choose names := by
  unfold DeclaredApplication.application at h
  cases hselection : declared.selection with
  | none =>
    rw [hselection] at h
    exact absurd h List.not_mem_nil
  | some s =>
    rw [hselection] at h
    exact ⟨s, rfl, (NameSet.mem_insertAll.mp h).resolve_left List.not_mem_nil⟩

theorem getElem?_filedApplications {names : List String} {i : Nat} {e : String × Application} :
    (filedApplications names draw d.applications.zipIdx)[i]? = some e ↔
      ∃ declared, d.applications[i]? = some declared ∧
        e = ((declared.application names (draw i)).baseName?.getD "",
          declared.application names (draw i)) := by
  simp only [filedApplications, List.getElem?_map, List.getElem?_zipIdx, Option.map_map,
    Option.map_eq_some_iff, Function.comp_apply, Nat.zero_add, eq_comm (b := e)]

theorem addApplications_declaredAt (h : d.addApplications draw m = .ok m') {key : String}
    {a : Application} (ha : m'.applications.find? key = some a) :
    (∃ i declared, d.DeclaredAt draw m' a i declared) ∨ m.applications.find? key = some a := by
  obtain ⟨rfl, hnames⟩ := addApplications_spec h
  rw [Table.find?_insertAll, Option.or_eq_some_iff] at ha
  rcases ha with hfiled | ⟨-, hold⟩
  · obtain ⟨i, hi, hlast⟩ := Table.lookup_reverse_eq_some hfiled
    obtain ⟨declared, hdeclared, hentry⟩ := getElem?_filedApplications.mp hi
    obtain ⟨hkey, hmade⟩ := Prod.mk.inj hentry
    refine .inl ⟨i, declared, hdeclared, hmade, ?_, ?_, ?_⟩
    · intro j later hj hlater hname
      refine hlast j _ hj (getElem?_filedApplications.mpr ⟨later, hlater, rfl⟩) ?_
      rw [hkey, ← hmade]
      exact congrArg (Option.getD · "") hname
    · intro n hn
      obtain ⟨s, hs, hchosen⟩ := mem_application (hmade ▸ hn)
      rcases (mem_choose hchosen).2 with hentity | ⟨hlisted, hne⟩
      · exact hentity
      · exact (hnames declared (List.mem_of_getElem? hdeclared) s hs n
          (List.mem_append_left _ hlisted)).resolve_left hne
    · intro s hs n hn
      obtain ⟨s', hs', hchosen⟩ := mem_application (hmade ▸ hn)
      obtain rfl := Option.some.inj (hs.symm.trans hs')
      exact (mem_choose hchosen).1
  · exact .inr hold

/-- A resolved model is what its document declares: nothing in it has a problem, its entities are
those declared, and whatever names an entity names one of them. -/
structure Resolved (d : Document) (draw : Nat → Secrets) (m : Model) : Prop where
  valid : m.Valid
  entities : ∀ n, n ∈ m.entities.keys ↔ n ∈ d.entityNames
  closed : m.Closed
  legal : ∀ o ∈ m.options.toList, o.Legal
  applications : ∀ a ∈ m.applications.values, ∃ i declared, d.DeclaredAt draw m a i declared

theorem toModelFrom_entityPhase (h : d.toModelFrom target draw m = .ok m') :
    ∃ before after k, before.entities = m.entities ∧ d.addEntities target before = .ok after ∧
      k.entities = after.entities ∧ Keeps m k ∧ d.addApplications draw k = .ok m' := by
  obtain ⟨m₁, henumerations, h⟩ := Outcome.bind_eq_ok.mp h
  obtain ⟨m₂, hentities, h⟩ := Outcome.bind_eq_ok.mp h
  obtain ⟨m₃, hrelationships, h⟩ := Outcome.bind_eq_ok.mp h
  obtain ⟨m₄, hoptions, h⟩ := Outcome.bind_eq_ok.mp h
  obtain ⟨m₅, hmicroservice, h⟩ := Outcome.bind_eq_ok.mp h
  obtain ⟨hkeeps₁, hentities₁⟩ := addEnumerations_keeps henumerations
  obtain ⟨hkeeps₃, hentities₃⟩ := addRelationships_keeps hrelationships
  obtain ⟨hkeeps₄, hentities₄⟩ := addOptions_keeps hoptions
  obtain ⟨hkeeps₅, hentities₅⟩ := assignMicroservice_keeps hmicroservice
  refine ⟨m₁, m₂, m₅, hentities₁, hentities, ?_, ?_, h⟩
  · rw [hentities₅, hentities₄, hentities₃]
  · exact hkeeps₁.trans ((addEntities_keeps hentities).trans
      (hkeeps₃.trans (hkeeps₄.trans hkeeps₅)))

theorem toModelFrom_phases (h : d.toModelFrom target draw m = .ok m') :
    ∃ k, Keeps m k ∧ (∀ n, n ∈ k.entities.keys ↔ n ∈ m.entities.keys ∨ n ∈ d.entityNames) ∧
      d.addApplications draw k = .ok m' := by
  obtain ⟨before, after, k, hbefore, hentities, hafter, hkeeps, happlications⟩ :=
    toModelFrom_entityPhase h
  refine ⟨k, hkeeps, fun n => ?_, happlications⟩
  rw [hafter, addEntities_keys hentities, hbefore]

/-- Resolving a document keeps models reachable. -/
theorem toModelFrom_reachable (h : d.toModelFrom target draw m = .ok m') (hm : m.Reachable) :
    m'.Reachable := by
  obtain ⟨k, hkeeps, -, happlications⟩ := toModelFrom_phases h
  apply Outcome.foldlM_keeps Model.Reachable _ (hkeeps.reachable hm) happlications
  rintro ⟨a, i⟩ _ b b' hb hstep
  obtain ⟨_, -, hadd⟩ := Outcome.bind_eq_ok.mp hstep
  exact hb.application hadd

theorem keys_toModel (h : d.toModel target draw = .ok m) (n : String) :
    n ∈ m.entities.keys ↔ n ∈ d.entityNames := by
  obtain ⟨k, -, hkeys, happlications⟩ := toModelFrom_phases h
  obtain ⟨rfl, -⟩ := addApplications_spec happlications
  exact (hkeys n).trans (or_iff_right List.not_mem_nil)

/-- The model of a document is valid and closed, and each of its applications owns declared
entities that its declaration does not exclude. -/
theorem toModel_resolved (h : d.toModel target draw = .ok m) : d.Resolved draw m := by
  have hreach := toModelFrom_reachable h .empty
  obtain ⟨k, hkeeps, hkeys, happlications⟩ := toModelFrom_phases h
  have hk := hkeeps.closed Model.closed_empty
  obtain ⟨rfl, -⟩ := addApplications_spec happlications
  refine ⟨hreach.valid, ?_, ⟨hk.ends, hk.injected, hk.scopes⟩, ?_, ?_⟩
  · intro n
    exact (hkeys n).trans (or_iff_right List.not_mem_nil)
  · intro o ho
    obtain ⟨key, hkey⟩ := Table.mem_values.mp ho
    exact (hreach.wellFormed.options key o hkey).2
  · intro a ha
    obtain ⟨key, hkey⟩ := Table.mem_values.mp ha
    rcases addApplications_declaredAt happlications (Table.find?_eq_some_iff.mpr hkey) with
      hdeclared | hold
    · exact hdeclared
    · rw [hkeeps.applications] at hold
      cases hold

/-- A shop of two entities for books and authors, whose second application takes the place of the
first and leaves out what it excludes. -/
def bookshop : Document where
  constants := ∅
  applications :=
    [⟨Table.ofList [("baseName", .text "shop")], some ⟨["Book"], []⟩⟩,
      ⟨Table.ofList [("baseName", .text "shop")], some ⟨[allEntities], ["Author"]⟩⟩]
  entities :=
    [⟨"Book", none, none, [.field ⟨"title", "String", [⟨"required", none⟩]⟩]⟩,
      ⟨"Author", none, none, [.field ⟨"genre", "Genre", []⟩]⟩]
  enumerations := [⟨"Genre", ["NOVEL", "POEM"], none⟩]
  relationships := [⟨.manyToOne, ⟨"Book", none, none, true⟩, ⟨userEntityName, none, none, false⟩⟩]
  options :=
    [⟨"dto", some "mapstruct", [], ["Author"]⟩, ⟨"dto", some "mapstruct", ["Book"], []⟩,
      ⟨"skipServer", none, ["Author"], []⟩]

theorem bookshop_resolved : ∃ m,
    bookshop.toModel ⟨some .microservice, some "shop", none⟩ (fun _ => ⟨"secret", "key"⟩) = .ok m ∧
      bookshop.Resolved (fun _ => ⟨"secret", "key"⟩) m := by
  have hrun : (bookshop.toModel ⟨some .microservice, some "shop", none⟩
      (fun _ => ⟨"secret", "key"⟩)).toOption.isSome = true := by decide +kernel
  cases hresult : bookshop.toModel ⟨some .microservice, some "shop", none⟩
      (fun _ => ⟨"secret", "key"⟩) with
  | error f => simp [hresult, Except.toOption] at hrun
  | ok m => exact ⟨m, rfl, toModel_resolved hresult⟩

end Document
end DomainModel
