import DomainModel.Proofs.Descriptors.Acceptance
/-!
# Descriptors that are rejected

Reading descriptors fails for three grounds, each with a category of its own: the user entity is
reserved, an enumeration, an entity or a field that is kept is malformed, or an option is set to a
value that it cannot have. An earlier ground hides the later ones, and the ends of relationships
play no part.
-/
namespace DomainModel

namespace EntityDescriptor

/-- The options whose values are catalogued, with what the descriptor says about each. -/
def cataloguedOptions (d : EntityDescriptor) : List (String × Option String) :=
  [(OptionName.dto, d.dto), (OptionName.service, d.service),
    (OptionName.pagination, d.pagination), (OptionName.searchEngine, d.searchEngine)]

/-- The options that may have any value but the empty one. -/
def freeOptions (d : EntityDescriptor) : List (String × Option String) :=
  [(OptionName.microservice, d.microserviceName), (OptionName.angularSuffix, d.angularSuffix),
    (OptionName.clientRootFolder, d.clientRootFolder)]

/-- An option is set to a value that the catalogue does not list for it. -/
def Uncatalogued (d : EntityDescriptor) : Prop :=
  ∃ option value, (option, some value) ∈ d.cataloguedOptions ∧ value ≠ "" ∧ value ≠ noValue ∧
    value ≠ "false" ∧ OptionName.isLegalValue option value = false

theorem mem_binaryOptions {d : EntityDescriptor} {option value : String} :
    (option, value) ∈ d.binaryOptions ↔
      (option, some value) ∈ d.cataloguedOptions ++ d.freeOptions ∧ value ≠ "" ∧
        value ≠ noValue ∧ value ≠ "false" := by
  change (option, value) ∈ (d.cataloguedOptions ++ d.freeOptions).filterMap _ ↔ _
  simp only [List.mem_filterMap, setValue, Option.map_eq_some_iff, Option.filter_eq_some_iff,
    Bool.and_eq_true, bne_iff_ne, Prod.mk.injEq]
  constructor
  · rintro ⟨⟨_, _⟩, hmem, _, ⟨rfl, ⟨hempty, hno⟩, hfalse⟩, rfl, rfl⟩
    exact ⟨hmem, hempty, hno, hfalse⟩
  · rintro ⟨hmem, hempty, hno, hfalse⟩
    exact ⟨(option, some value), hmem, value, ⟨rfl, ⟨hempty, hno⟩, hfalse⟩, rfl, rfl⟩

theorem isBinary_of_mem {d : EntityDescriptor} {option : String} {stated : Option String}
    (h : (option, stated) ∈ d.cataloguedOptions ++ d.freeOptions) :
    OptionName.isBinary option = true := by
  simp only [cataloguedOptions, freeOptions, List.cons_append, List.nil_append, List.mem_cons,
    Prod.mk.injEq, List.not_mem_nil, or_false] at h
  rcases h with ⟨rfl, -⟩ | ⟨rfl, -⟩ | ⟨rfl, -⟩ | ⟨rfl, -⟩ | ⟨rfl, -⟩ | ⟨rfl, -⟩ | ⟨rfl, -⟩ <;> rfl

theorem isLegalValue_of_mem_freeOptions {d : EntityDescriptor} {option value : String}
    {stated : Option String} (h : (option, stated) ∈ d.freeOptions) (hvalue : value ≠ "") :
    OptionName.isLegalValue option value = true := by
  simp only [freeOptions, List.mem_cons, Prod.mk.injEq, List.not_mem_nil, or_false] at h
  rcases h with ⟨rfl, -⟩ | ⟨rfl, -⟩ | ⟨rfl, -⟩ <;> exact bne_iff_ne.mpr hvalue

theorem binaryOptions_legal_iff {d : EntityDescriptor} :
    (∀ o ∈ d.binaryOptions,
      OptionName.isBinary o.1 = true ∧ OptionName.isLegalValue o.1 o.2 = true) ↔
        ¬ d.Uncatalogued := by
  constructor
  · rintro h ⟨option, value, hmem, hempty, hno, hfalse, hillegal⟩
    have hset := mem_binaryOptions.mpr ⟨List.mem_append_left _ hmem, hempty, hno, hfalse⟩
    exact absurd (h _ hset).2 (Bool.not_eq_true _ ▸ hillegal)
  · rintro h ⟨option, value⟩ hset
    obtain ⟨hmem, hempty, hno, hfalse⟩ := mem_binaryOptions.mp hset
    refine ⟨isBinary_of_mem hmem, ?_⟩
    rcases List.mem_append.mp hmem with hcatalogued | hfree
    · by_contra hillegal
      exact h ⟨option, value, hcatalogued, hempty, hno, hfalse, Bool.eq_false_iff.mpr hillegal⟩
    · exact isLegalValue_of_mem_freeOptions hfree hempty

end EntityDescriptor

namespace GeneratorOption

theorem ofValue_failsOnlyAs (name value : String) :
    (ofValue name value).FailsOnlyAs .illegalOption := by
  unfold ofValue
  exact .ite (.of_error rfl) (.ite (.of_error rfl) (.of_ok ⟨_, rfl⟩))

theorem ofFlag_failsOnlyAs (name : String) : (ofFlag name).FailsOnlyAs .illegalOption := by
  unfold ofFlag
  exact .ite (.of_ok ⟨_, rfl⟩) (.of_error rfl)

end GeneratorOption

namespace Model

theorem addDescribed_failsOnlyAs (m : Model) (name : String) (d : EntityDescriptor) :
    (m.addDescribed name d).FailsOnlyAs .validation := by
  have hadd : ∀ kind problems (m' : Model),
      Outcome.FailsOnlyAs .validation (do check kind problems; return m') :=
    fun kind problems m' => (check_failsOnlyAs kind problems).bind fun _ _ => .of_ok ⟨m', rfl⟩
  exact .bind (.foldlM (fun e _ b => hadd _ _ _) m) fun _ _ => hadd _ _ _

/-- A legal option can always be added, so what fails here is a value or a name. -/
theorem foldOptions_failsOnlyAs (m : Model) (name : String) (d : EntityDescriptor) :
    (m.foldOptions name d).FailsOnlyAs .illegalOption := by
  refine .bind (.foldlM (fun o _ b => ?_) m) fun m₁ _ => .foldlM (fun flag _ b => ?_) m₁
  · refine (GeneratorOption.ofValue_failsOnlyAs o.1 o.2).bind fun p hp => .of_ok ?_
    obtain ⟨hlegal, rfl⟩ := GeneratorOption.ofValue_eq_ok.mp hp
    exact addOptionFor_succeeds b name hlegal
  · refine (GeneratorOption.ofFlag_failsOnlyAs flag).bind fun p hp => .of_ok ?_
    obtain ⟨hlegal, rfl⟩ := GeneratorOption.ofFlag_eq_ok.mp hp
    exact addOptionFor_succeeds b name hlegal

end Model

namespace Descriptors
variable {entities : Descriptors} {m : Model}

/-- The user entity is declared where user management is not left out. -/
def Reserved (entities : Descriptors) (m : Model) : Prop :=
  userEntityName ∈ entities.keys ∧ m.options.named OptionName.skipUserManagement = []

/-- An enumeration or an entity has no name, or a field that its entity keeps is faulty. -/
inductive Malformed (entities : Descriptors) : Prop
  | enumeration {name : String} {d : EntityDescriptor} {f : FieldDescriptor}
      (hd : (name, d) ∈ entities.entries) (hf : f ∈ d.fields) (hvalues : f.values ≠ none)
      (htype : f.type = "")
  | entity (h : "" ∈ entities.keys)
  | field {name : String} {d : EntityDescriptor} {f : FieldDescriptor}
      (hd : (name, d) ∈ entities.entries) (hf : d.Keeps f) (hfaulty : f.Faulty)

def Uncatalogued (entities : Descriptors) : Prop :=
  ∃ name d, (name, d) ∈ entities.entries ∧ d.Uncatalogued

/-- The descriptors are rejected under the category: only the first ground counts. -/
inductive Rejected (entities : Descriptors) (m : Model) : Category → Prop
  | reserved (h : entities.Reserved m) : Rejected entities m .illegalName
  | malformed (huser : ¬ entities.Reserved m) (h : entities.Malformed) :
      Rejected entities m .validation
  | uncatalogued (huser : ¬ entities.Reserved m) (hparts : ¬ entities.Malformed)
      (h : entities.Uncatalogued) : Rejected entities m .illegalOption

theorem checkUser_succeeds_iff : (∃ u, checkUser entities m = .ok u) ↔ ¬ entities.Reserved m := by
  simp only [checkUser_eq_ok, exists_const, Reserved, not_and, ne_eq]

theorem not_malformed_iff :
    ¬ entities.Malformed ↔ ∀ e ∈ entities.entries,
      (∀ x ∈ e.2.enumerations, x.problems = []) ∧ (e.2.toEntity e.1).problems = [] := by
  simp only [EntityDescriptor.enumerations_problems_iff, EntityDescriptor.toEntity_problems_iff]
  constructor
  · rintro h ⟨name, d⟩ hd
    refine ⟨fun f hf hvalues htype => h (.enumeration hd hf hvalues htype), ?_, ?_⟩
    · rintro rfl
      exact h (.entity (Table.mem_keys.mpr ⟨d, hd⟩))
    · exact fun f hf hfaulty => h (.field hd hf hfaulty)
  · rintro h (⟨hd, hf, hvalues, htype⟩ | hempty | ⟨hd, hf, hfaulty⟩)
    · exact (h _ hd).1 _ hf hvalues htype
    · obtain ⟨d, hd⟩ := Table.mem_keys.mp hempty
      exact (h _ hd).2.1 rfl
    · exact (h _ hd).2.2 _ hf hfaulty

theorem addAllDescribed_succeeds_iff :
    (∃ m', entities.entries.foldlM (fun m e => m.addDescribed e.1 e.2) m = .ok m') ↔
      ¬ entities.Malformed := by
  rw [not_malformed_iff]
  exact Outcome.foldlM_succeeds_iff (fun e _ b => Model.addDescribed_succeeds_iff b e.1 e.2) m

theorem foldAllOptions_succeeds_iff :
    (∃ m', entities.entries.foldlM (fun m e => m.foldOptions e.1 e.2) m = .ok m') ↔
      ¬ entities.Uncatalogued := by
  have hfold := Outcome.foldlM_succeeds_iff (l := entities.entries) (fun e _ b =>
    (Model.foldOptions_succeeds_iff b e.1 e.2).trans EntityDescriptor.binaryOptions_legal_iff) m
  simp only [hfold, Uncatalogued, not_exists, not_and, Prod.forall]

theorem checkUser_failsOnlyAs : (checkUser entities m).FailsOnlyAs .illegalName := by
  unfold checkUser
  exact .ite (.of_error rfl) (.of_ok ⟨_, rfl⟩)

theorem rejected_of_eq_error {f : Failure} (h : entities.toModelFrom m = .error f) :
    entities.Rejected m f.report.category := by
  -- phase by phase: one is only reached where the grounds of all earlier ones are absent
  rcases Outcome.bind_eq_error.mp h with hcheck | ⟨_, hcheck, h⟩
  · rw [checkUser_failsOnlyAs f hcheck]
    exact .reserved (Outcome.of_eq_error checkUser_succeeds_iff hcheck)
  have huser := checkUser_succeeds_iff.mp ⟨_, hcheck⟩
  rcases Outcome.bind_eq_error.mp h with hparts | ⟨m₁, hparts, h⟩
  · rw [Outcome.FailsOnlyAs.foldlM (fun e _ b => Model.addDescribed_failsOnlyAs b e.1 e.2) m f
      hparts]
    exact .malformed huser (Outcome.of_eq_error addAllDescribed_succeeds_iff hparts)
  have hformed := addAllDescribed_succeeds_iff.mp ⟨m₁, hparts⟩
  rcases Outcome.bind_eq_error.mp h with hpaired | ⟨m₂, -, hoptions⟩
  · have hnames : "" ∉ entities.keys := fun hempty => hformed (.entity hempty)
    exact absurd (addPaired_succeeds hnames m₁) (Outcome.fails_iff.mp ⟨f, hpaired⟩)
  · rw [Outcome.FailsOnlyAs.foldlM (fun e _ b => Model.foldOptions_failsOnlyAs b e.1 e.2) m₂ f
      hoptions]
    exact .uncatalogued huser hformed (Outcome.of_eq_error foldAllOptions_succeeds_iff hoptions)

theorem not_rejected_of_eq_ok {m' : Model} (h : entities.toModelFrom m = .ok m') (c : Category) :
    ¬ entities.Rejected m c := by
  obtain ⟨huser, hacceptable⟩ := toModelFrom_succeeds_iff.mp ⟨m', h⟩
  rintro (hreserved | ⟨-, hmalformed⟩ | ⟨-, -, name, d, hd, huncatalogued⟩)
  · exact huser hreserved.1 hreserved.2
  · refine not_malformed_iff.mpr (fun e he => ?_) hmalformed
    exact ⟨(hacceptable e.1 e.2 he).enumerations, (hacceptable e.1 e.2 he).entity⟩
  · exact EntityDescriptor.binaryOptions_legal_iff.mp (hacceptable name d hd).options huncatalogued

theorem Rejected.category_eq {c c' : Category} (h : entities.Rejected m c)
    (h' : entities.Rejected m c') : c = c' := by
  cases h with
  | reserved huser =>
    cases h' with
    | reserved => rfl
    | malformed hnot => exact absurd huser hnot
    | uncatalogued hnot => exact absurd huser hnot
  | malformed hnot hmalformed =>
    cases h' with
    | reserved huser => exact absurd huser hnot
    | malformed => rfl
    | uncatalogued _ hformed => exact absurd hmalformed hformed
  | uncatalogued hnot hformed =>
    cases h' with
    | reserved huser => exact absurd huser hnot
    | malformed _ hmalformed => exact absurd hmalformed hformed
    | uncatalogued => rfl

theorem rejected_iff {c : Category} :
    (∃ f, entities.toModelFrom m = .error f ∧ f.report.category = c) ↔ entities.Rejected m c := by
  constructor
  · rintro ⟨f, hf, rfl⟩
    exact rejected_of_eq_error hf
  · intro hrejected
    cases hread : entities.toModelFrom m with
    | ok m' => exact absurd hrejected (not_rejected_of_eq_ok hread c)
    | error f => exact ⟨f, rfl, (rejected_of_eq_error hread).category_eq hrejected⟩

/-- The same descriptors with other ends of relationships. -/
def withRelationships (entities : Descriptors) (ends : String → List RelationshipDescriptor) :
    Descriptors where
  entries := entities.entries.map fun e => (e.1, { e.2 with relationships := ends e.1 })
  distinct := by
    rw [List.map_map]
    exact entities.distinct

section
variable {ends : String → List RelationshipDescriptor}

theorem reserved_withRelationships :
    (entities.withRelationships ends).Reserved m ↔ entities.Reserved m := by
  have hkeys : (entities.withRelationships ends).keys = entities.keys := List.map_map
  rw [Reserved, hkeys, Reserved]

theorem malformed_withRelationships :
    (entities.withRelationships ends).Malformed ↔ entities.Malformed := by
  rw [← not_iff_not, not_malformed_iff, not_malformed_iff]
  exact List.forall_mem_map

theorem uncatalogued_withRelationships :
    (entities.withRelationships ends).Uncatalogued ↔ entities.Uncatalogued := by
  constructor
  · rintro ⟨name, _, hmem, huncatalogued⟩
    obtain ⟨⟨_, d⟩, hd, heq⟩ := List.mem_map.mp hmem
    obtain ⟨rfl, rfl⟩ := Prod.mk.inj heq
    exact ⟨_, d, hd, huncatalogued⟩
  · rintro ⟨name, d, hd, huncatalogued⟩
    exact ⟨name, _, List.mem_map.mpr ⟨(name, d), hd, rfl⟩, huncatalogued⟩

end

theorem Rejected.congr {others : Descriptors} {c : Category}
    (huser : entities.Reserved m ↔ others.Reserved m)
    (hparts : entities.Malformed ↔ others.Malformed)
    (hoptions : entities.Uncatalogued ↔ others.Uncatalogued) (h : entities.Rejected m c) :
    others.Rejected m c := by
  cases h with
  | reserved h => exact .reserved (huser.mp h)
  | malformed hfree h => exact .malformed (mt huser.mpr hfree) (hparts.mp h)
  | uncatalogued hfree hformed h =>
    exact .uncatalogued (mt huser.mpr hfree) (mt hparts.mpr hformed) (hoptions.mp h)

theorem rejected_withRelationships (ends : String → List RelationshipDescriptor) {c : Category} :
    (entities.withRelationships ends).Rejected m c ↔ entities.Rejected m c :=
  ⟨Rejected.congr reserved_withRelationships malformed_withRelationships
      uncatalogued_withRelationships,
    Rejected.congr reserved_withRelationships.symm malformed_withRelationships.symm
      uncatalogued_withRelationships.symm⟩

theorem exists_rejected_iff :
    (∃ c, entities.Rejected m c) ↔
      entities.Reserved m ∨ entities.Malformed ∨ entities.Uncatalogued := by
  constructor
  · rintro ⟨_, huser | ⟨-, hparts⟩ | ⟨-, -, hoptions⟩⟩
    · exact .inl huser
    · exact .inr (.inl hparts)
    · exact .inr (.inr hoptions)
  · intro h
    by_cases huser : entities.Reserved m
    · exact ⟨_, .reserved huser⟩
    by_cases hparts : entities.Malformed
    · exact ⟨_, .malformed huser hparts⟩
    · exact ⟨_, .uncatalogued huser hparts ((h.resolve_left huser).resolve_left hparts)⟩

/-- Descriptors are rejected for these grounds alone, under the category of the first one, whatever
their ends of relationships are. -/
theorem toModelFrom_rejected_iff (entities : Descriptors) (m : Model) :
    ((∃ f, entities.toModelFrom m = .error f) ↔
      entities.Reserved m ∨ entities.Malformed ∨ entities.Uncatalogued) ∧
    (∀ c, (∃ f, entities.toModelFrom m = .error f ∧ f.report.category = c) ↔
      entities.Rejected m c) ∧
    ∀ ends c,
      (∃ f, (entities.withRelationships ends).toModelFrom m = .error f ∧ f.report.category = c) ↔
        entities.Rejected m c := by
  refine ⟨?_, fun c => rejected_iff, fun ends c => rejected_iff.trans ?_⟩
  · rw [← exists_rejected_iff]
    simp only [← rejected_iff]
    exact ⟨fun ⟨f, hf⟩ => ⟨_, f, hf, rfl⟩, fun ⟨_, f, hf, _⟩ => ⟨f, hf⟩⟩
  · exact rejected_withRelationships ends

end Descriptors
end DomainModel
