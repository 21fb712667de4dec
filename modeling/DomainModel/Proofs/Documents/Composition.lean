import DomainModel.Proofs.Documents.Declarations
/-!
# Documents one after the other

Resolving a document and then another into the same model is resolving both as one document, as
long as no applications are declared. The one run finishes a document before it begins the next, the
other takes both through each phase: what comes later in the order of resolving is not seen by what
comes earlier, and a model that has grown meets every demand that it met before.
-/
namespace DomainModel

namespace Document
variable {d d' : Document} {target : Target} {draw : Nat → Secrets} {m m' : Model}

private theorem checked_put {kind : String} {p q : Addition} (h : q.phase < p.phase) :
    (do Model.check kind q.problems; return (m.put p).put q : Outcome Model) =
      (do Model.check kind q.problems; return m.put q : Outcome Model).map fun k => k.put p := by
  rw [Model.put_put h]
  cases Model.check kind q.problems with
  | error f => rfl
  | ok _ => rfl

/-- What is declared earlier in the order of resolving does not see what is added later. -/
theorem declare_put {x : Declaration} {p : Addition} (h : x.phase < p.phase) :
    d.declare target (m.put p) x = (d.declare target m x).map fun k => k.put p := by
  cases x with
  | enumeration e =>
    exact checked_put (q := .enumeration { Enumeration.named e.name e.values with
      comment := e.comment }) h
  | entity e =>
    have henumerations : (m.put p).enumerations = m.enumerations :=
      Model.enumerations_put (Nat.ne_of_gt (Nat.lt_trans Nat.zero_lt_one h))
    have hcheck : ∀ f, d.checkFieldType target (m.put p) e.name f =
        d.checkFieldType target m e.name f := by
      intro f
      rw [checkFieldType, Model.hasEnumeration, henumerations]
      rfl
    have hbuild : d.buildEntity target (m.put p) e = d.buildEntity target m e := by
      simp only [buildEntity, hcheck]
    simp only [declare, hbuild]
    cases d.buildEntity target m e with
    | error f => rfl
    | ok built => exact checked_put (q := .entity built) h
  | relationship r =>
    have hentities : (m.put p).entities = m.entities :=
      Model.entities_put (Nat.ne_of_gt (Nat.lt_trans (Nat.lt_succ_self 1) h))
    have hend : ∀ n, checkEnd (m.put p) r n = checkEnd m r n := by
      intro n
      rw [checkEnd, Model.hasEntity, hentities]
      rfl
    simp only [declare, hend]
    cases checkEnd m r r.source.name with
    | error f => rfl
    | ok _ =>
      cases checkEnd m r r.destination.name with
      | error f => rfl
      | ok _ => exact checked_put (q := .relationship (buildRelationship r)) h
  | option o => cases p <;> simp [Declaration.phase, Addition.phase] at h

/-- Every entity has the same database. -/
def OneDatabase (d : Document) (target : Target) (t : DatabaseType) : Prop :=
  ∀ n, d.databaseOf target n = t

theorem mem_optionDatabases {t t' : DatabaseType} (h : d.OneDatabase target t)
    {o : DeclaredOption} : t' ∈ d.optionDatabases target m o ↔ t' = t := by
  unfold optionDatabases
  split
  · next => simp [h ""]
  · next names hnames =>
    have hsome : ∃ n, n ∈ optionTargets m o := List.exists_mem_of_ne_nil _ hnames
    rw [List.mem_map]
    constructor
    · rintro ⟨n, -, rfl⟩
      exact h n
    · rintro rfl
      obtain ⟨n, hn⟩ := hsome
      exact ⟨n, hn, h n⟩

/-- A model that has grown meets the demands that it met before. -/
theorem Demands.mono {t : DatabaseType} (ht : d.OneDatabase target t) (hm : m.Within m')
    {x : Declaration} (h : d.Demands target m x) : d.Demands target m' x := by
  cases x with
  | enumeration e => trivial
  | entity e =>
    intro x hx
    exact (h x hx).mono hm
  | relationship r =>
    exact ⟨h.1.imp_left (hm.entities _), h.2.imp_left (hm.entities _)⟩
  | option o =>
    refine h.imp_right fun ⟨hnames, hdatabases⟩ => ⟨?_, ?_⟩
    · intro n hn
      exact (hnames n hn).imp_right (hm.entities n)
    · intro t' ht'
      exact hdatabases t' ((mem_optionDatabases ht).mpr ((mem_optionDatabases ht).mp ht'))

theorem declare_defers {t : DatabaseType} (ht : d.OneDatabase target t) {x y : Declaration}
    (h : x.phase < y.phase) :
    Outcome.Defers (fun k => d.declare target k y) (fun k => d.declare target k x) := by
  have hsplit : ∀ {m m'}, d.declare target m y = .ok m' → ∃ p, m' = m.put p ∧
      d.declare target m' x = (d.declare target m x).map (fun k => k.put p) ∧
      ∀ {k}, m.Within k → d.declare target k y = .ok (k.put p) := by
    intro m m' hy
    obtain ⟨p, hp, hproblems, hdemands, rfl⟩ := declare_eq_ok.mp hy
    refine ⟨p, rfl, declare_put (by rw [phase_of_addition hp]; exact h), ?_⟩
    intro k hk
    exact declare_eq_ok.mpr ⟨p, hp, hproblems, hdemands.mono ht hk, rfl⟩
  constructor
  · intro m m' k hy hx
    obtain ⟨p, rfl, hput, hlater⟩ := hsplit hy
    obtain ⟨q, -, -, -, rfl⟩ := declare_eq_ok.mp hx
    exact ⟨_, hlater (m.within_put q), by simp only [hput, hx, Except.map]⟩
  · intro m m' f hy hx
    obtain ⟨p, -, hput, -⟩ := hsplit hy
    simp only [hput, hx, Except.map]

theorem oneDatabase_of_noApplications (h : d.applications = []) :
    d.OneDatabase target (target.databaseType.getD .sql) := by
  intro n
  have howned : d.ownedDatabases = [] := by simp [ownedDatabases, h]
  unfold databaseOf
  cases target.databaseType with
  | none => simp [howned, Table.lookup]
  | some t => rfl

theorem toModelFrom_of_noApplications (h : d.applications = [])
    (htarget : target.applicationType ≠ some .microservice) :
    d.toModelFrom target draw m = d.declarations.foldlM (d.declare target) m := by
  have happlications : ∀ k, d.addApplications draw k = .ok k := by
    intro k
    simp [addApplications, h, pure, Except.pure]
  have hmicroservice : ∀ k, d.assignMicroservice target k = .ok k := fun k => if_pos (.inl htarget)
  rw [toModelFrom_eq]
  cases d.declarations.foldlM (d.declare target) m with
  | error f => rfl
  | ok k =>
    change (do d.addApplications draw (← d.assignMicroservice target k)) = .ok k
    rw [hmicroservice]
    exact happlications k

/-- The declarations of both documents in turn, with the constants of the first. -/
def append (d d' : Document) : Document where
  constants := d.constants
  applications := d.applications ++ d'.applications
  entities := d.entities ++ d'.entities
  enumerations := d.enumerations ++ d'.enumerations
  relationships := d.relationships ++ d'.relationships
  options := d.options ++ d'.options

/-- The declarations of two documents, phase by phase. -/
def phases (d d' : Document) : List (List Declaration × List Declaration) :=
  [(d.enumerations.map .enumeration, d'.enumerations.map .enumeration),
    (d.entities.map .entity, d'.entities.map .entity),
    (d.relationships.map .relationship, d'.relationships.map .relationship),
    (d.options.map .option, d'.options.map .option)]

theorem phases_ordered (d d' : Document) :
    (d.phases d').Pairwise fun p q => ∀ y ∈ q.1, ∀ x ∈ p.2, x.phase < y.phase := by
  simp [phases, Declaration.phase]

/-- Resolving two documents without applications in turn is resolving them as one, with the same
model or the same failure, if they name the same constants and no microservice is assigned. -/
theorem toModelFrom_append {d₁ d₂ : Document} {draw₁ draw₂ draw₃ : Nat → Secrets}
    (h₁ : d₁.applications = []) (h₂ : d₂.applications = [])
    (hconstants : ∀ name, d₁.constants.find? name = d₂.constants.find? name)
    (htarget : target.applicationType ≠ some .microservice)
    (h : d₁.toModelFrom target draw₁ m = .ok m') :
    d₂.toModelFrom target draw₂ m' = (d₁.append d₂).toModelFrom target draw₃ m := by
  have hboth : (d₁.append d₂).applications = [] := by simp [append, h₁, h₂]
  have hdatabase : ∀ d : Document, d.applications = [] →
      ∀ n, d₁.databaseOf target n = d.databaseOf target n := by
    intro d hd n
    rw [oneDatabase_of_noApplications h₁ n, oneDatabase_of_noApplications hd n]
  have hsecond : d₁.declare target = d₂.declare target :=
    declare_congr hconstants (hdatabase d₂ h₂)
  have hthird : d₁.declare target = (d₁.append d₂).declare target :=
    declare_congr (fun _ => rfl) (hdatabase _ hboth)
  rw [toModelFrom_of_noApplications h₁ htarget] at h
  rw [toModelFrom_of_noApplications h₂ htarget, toModelFrom_of_noApplications hboth htarget,
    ← hsecond, ← hthird]
  have hfirsts : (d₁.phases d₂).flatMap Prod.fst = d₁.declarations := by
    simp [phases, declarations]
  have hseconds : (d₁.phases d₂).flatMap Prod.snd = d₂.declarations := by
    simp [phases, declarations]
  have hall : (d₁.phases d₂).flatMap (fun p => p.1 ++ p.2) = (d₁.append d₂).declarations := by
    simp [phases, declarations, append]
  rw [← hfirsts] at h
  rw [← hseconds, ← hall]
  refine Outcome.foldlM_interleaved ((phases_ordered d₁ d₂).imp ?_) h
  intro p q hpq y hy x hx
  exact declare_defers (oneDatabase_of_noApplications h₁) (hpq y hy x hx)

/-- A library of books by genre. -/
def bookcase : Document :=
  { empty with
    constants := Table.ofList [("LONG", .int 200)]
    entities :=
      [⟨"Book", none, none,
        [.field ⟨"title", "String", [⟨"maxlength", some (.text "LONG")⟩]⟩,
          .field ⟨"genre", "Genre", []⟩]⟩]
    enumerations := [⟨"Genre", ["NOVEL", "POEM"], none⟩]
    options := [⟨"dto", some "mapstruct", [], []⟩, ⟨"skipServer", none, ["Book"], []⟩] }

/-- More of the library, which describes the books anew. -/
def annex : Document :=
  { empty with
    constants := Table.ofList [("LONG", .int 200)]
    entities :=
      [⟨"Author", none, none, [.field ⟨"name", "String", [⟨"maxlength", some (.text "LONG")⟩]⟩]⟩,
        ⟨"Book", some "volume", none, [.field ⟨"genre", "Genre", []⟩]⟩]
    enumerations := [⟨"Genre", ["ESSAY"], none⟩]
    relationships := [⟨.manyToOne, ⟨"Book", none, none, true⟩, ⟨"Author", none, none, false⟩⟩]
    options := [⟨"dto", some "mapstruct", ["Author"], ["Book"]⟩] }

theorem bookcase_annex :
    (∀ name, bookcase.constants.find? name = annex.constants.find? name) ∧
    ∃ m m', bookcase.toModel .any (fun _ => ⟨"", ""⟩) = .ok m ∧
      annex.toModelFrom .any (fun _ => ⟨"", ""⟩) m = .ok m' ∧
      (bookcase.append annex).toModel .any (fun _ => ⟨"", ""⟩) = .ok m' := by
  have hfirst : (bookcase.toModel .any (fun _ => ⟨"", ""⟩)).toOption.isSome = true := by
    decide +kernel
  have hboth : ((bookcase.append annex).toModel .any
      (fun _ => ⟨"", ""⟩)).toOption.isSome = true := by
    decide +kernel
  cases hresult : bookcase.toModel .any (fun _ => ⟨"", ""⟩) with
  | error f => simp [hresult, Except.toOption] at hfirst
  | ok m =>
    have hturns : annex.toModelFrom .any (fun _ => ⟨"", ""⟩) m =
        (bookcase.append annex).toModel .any (fun _ => ⟨"", ""⟩) :=
      toModelFrom_append rfl rfl (fun _ => rfl) (by decide) hresult
    cases hwhole : (bookcase.append annex).toModel .any (fun _ => ⟨"", ""⟩) with
    | error f => simp [hwhole, Except.toOption] at hboth
    | ok m' => exact ⟨fun _ => rfl, m, m', rfl, hturns.trans hwhole, rfl⟩

end Document
end DomainModel
