import DomainModel.Proofs.Documents.Resolution
/-!
# Declarations

Up to its applications, a document is resolved one declaration at a time. A declaration demands
something of the model so far and adds to it; what it adds depends on the document alone.
-/
namespace DomainModel

/-- The declarations that are resolved before the applications. -/
inductive Declaration where
  | enumeration (e : DeclaredEnumeration)
  | entity (e : DeclaredEntity)
  | relationship (r : DeclaredRelationship)
  | option (o : DeclaredOption)

/-- What a declaration adds to a model; an option may be left out. -/
inductive Addition where
  | enumeration (e : Enumeration)
  | entity (e : Entity)
  | relationship (r : Relationship)
  | options (l : List GeneratorOption)

/-- The place of a declaration in the order of resolving. -/
def Declaration.phase : Declaration → Nat
  | enumeration _ => 0
  | entity _ => 1
  | relationship _ => 2
  | option _ => 3

namespace Addition

def phase : Addition → Nat
  | enumeration _ => 0
  | entity _ => 1
  | relationship _ => 2
  | options _ => 3

def problems : Addition → List Problem
  | enumeration e => e.problems
  | entity e => e.problems
  | relationship r => r.problems
  | options l => l.flatMap GeneratorOption.problems

end Addition

namespace Model

/-- Writes an addition without asking for its problems. -/
def put (m : Model) : Addition → Model
  | .enumeration e => { m with enumerations := m.enumerations.insert e.name e }
  | .entity e => { m with entities := m.entities.insert e.name e }
  | .relationship r => { m with relationships := (m.relationships.add r).1 }
  | .options l => { m with options := m.options.addAll l }

variable {m : Model} {p q : Addition}

theorem enumerations_put (h : p.phase ≠ 0) : (m.put p).enumerations = m.enumerations := by
  cases p <;> simp_all [put, Addition.phase]

theorem entities_put (h : p.phase ≠ 1) : (m.put p).entities = m.entities := by
  cases p <;> simp_all [put, Addition.phase]

theorem options_put (h : p.phase ≠ 3) : (m.put p).options = m.options := by
  cases p <;> simp_all [put, Addition.phase]

theorem put_put (h : q.phase < p.phase) : (m.put p).put q = (m.put q).put p := by
  cases p <;> cases q <;> simp [Addition.phase] at h <;> rfl

/-- The second model knows the entities and enumerations of the first. -/
structure Within (m m' : Model) : Prop where
  entities : ∀ n ∈ m.entities.keys, n ∈ m'.entities.keys
  enumerations : ∀ n, m.hasEnumeration n = true → m'.hasEnumeration n = true

theorem within_put (m : Model) (p : Addition) : m.Within (m.put p) := by
  cases p with
  | enumeration e =>
    refine ⟨fun n hn => hn, fun n hn => ?_⟩
    exact Table.contains_iff.mpr (Table.mem_keys_insert.mpr (.inr (Table.contains_iff.mp hn)))
  | entity e => exact ⟨fun n hn => Table.mem_keys_insert.mpr (.inr hn), fun n hn => hn⟩
  | relationship r => exact ⟨fun n hn => hn, fun n hn => hn⟩
  | options l => exact ⟨fun n hn => hn, fun n hn => hn⟩

end Model

/-- The fields of a declared entity that are kept, each with its comment. -/
def DeclaredEntity.keptFields (e : DeclaredEntity) : List (DeclaredField × Option String) :=
  (commentedFields e.body).filter fun x => x.1.name != "id"

namespace Document
variable {d d' : Document} {target : Target} {draw : Nat → Secrets} {m m' : Model}

/-- The entity that a declaration describes. -/
def entityOf (d : Document) (declared : DeclaredEntity) : Entity :=
  { Entity.named declared.name with
    tableName := declared.tableName.getD declared.name
    comment := declared.comment
    fields := (∅ : Table String Field).insertAll
      (declared.keptFields.map fun x => ((d.buildField x.1 x.2).name, d.buildField x.1 x.2)) }

/-- A field of the entity may have this type: it is built in for the database of the entity or names
an enumeration, unless the document is read for a gateway. -/
def Fits (d : Document) (target : Target) (m : Model) (entity type : String) : Prop :=
  target.applicationType = some .gateway ∨
    FieldType.isLegal (d.databaseOf target entity) type = true ∨ m.hasEnumeration type = true

theorem Fits.mono {entity type : String} (hm : m.Within m') (h : d.Fits target m entity type) :
    d.Fits target m' entity type :=
  h.imp_right fun hfits => hfits.imp_right (hm.enumerations type)

theorem checkFieldType_eq_ok {entity : String} {f : DeclaredField} {u : Unit} :
    d.checkFieldType target m entity f = .ok u ↔ d.Fits target m entity f.type := by
  unfold checkFieldType Fits
  split
  · next hgateway => simp [hgateway]
  · next hgateway => split <;> simp_all

/-- Adds a declared field with its comment, unless it is named `id`. -/
def addDeclaredField (d : Document) (target : Target) (m : Model) (entity : String) (e : Entity)
    (x : DeclaredField × Option String) : Outcome Entity :=
  if x.1.name = "id" then .ok e
  else do
    d.checkFieldType target m entity x.1
    return e.addField (d.buildField x.1 x.2)

theorem addDeclaredField_eq_ok {entity : String} {e e' : Entity}
    {x : DeclaredField × Option String} (h : x.1.name ≠ "id") :
    d.addDeclaredField target m entity e x = .ok e' ↔
      d.Fits target m entity x.1.type ∧ e' = e.addField (d.buildField x.1 x.2) := by
  rw [addDeclaredField, if_neg h, Outcome.bind_eq_ok]
  simp only [checkFieldType_eq_ok]
  simp [pure, Except.pure, eq_comm]

private theorem addDeclaredFields_eq_ok {entity : String} {e e' : Entity}
    {l : List (DeclaredField × Option String)} :
    l.foldlM (d.addDeclaredField target m entity) e = .ok e' ↔
      (∀ x ∈ l.filter fun x => x.1.name != "id", d.Fits target m entity x.1.type) ∧
        e' = { e with fields := e.fields.insertAll ((l.filter fun x => x.1.name != "id").map
          fun x => ((d.buildField x.1 x.2).name, d.buildField x.1 x.2)) } := by
  induction l generalizing e with
  | nil => simp [pure, Except.pure, Table.insertAll, eq_comm]
  | cons x rest ih =>
    rw [Outcome.foldlM_cons_ok]
    by_cases hid : x.1.name = "id"
    · have hstep : ∀ b, d.addDeclaredField target m entity e x = .ok b ↔ e = b := by
        simp [addDeclaredField, hid]
      simp [hstep, ih, hid]
    · simp only [addDeclaredField_eq_ok hid, ih]
      simp [hid, and_assoc, Entity.addField, Table.insertAll]

theorem buildEntity_eq_ok {declared : DeclaredEntity} {e : Entity} :
    d.buildEntity target m declared = .ok e ↔
      (∀ x ∈ declared.keptFields, d.Fits target m declared.name x.1.type) ∧
        e = d.entityOf declared :=
  addDeclaredFields_eq_ok

theorem checkOptionDatabase_eq_ok {name : String} {o : DeclaredOption} {u : Unit} :
    d.checkOptionDatabase target m name o = .ok u ↔
      ∀ t ∈ d.optionDatabases target m o, OptionName.refusal? name t = none := by
  unfold checkOptionDatabase
  rw [← List.findSome?_eq_none_iff]
  split
  · next hfind => simp [hfind]
  · next hfind => simp [hfind]

/-- A microservice leaves out the client root folder. -/
def LeftOut (target : Target) (o : DeclaredOption) : Prop :=
  OptionName.ofKeyword o.name = OptionName.clientRootFolder ∧
    target.applicationType = some .microservice

instance (target : Target) (o : DeclaredOption) : Decidable (LeftOut target o) :=
  inferInstanceAs (Decidable (_ ∧ _))

theorem addOption_leftOut {o : DeclaredOption} (h : LeftOut target o) :
    d.addOption target m o = .ok m :=
  if_pos h

theorem addOption_eq_ok {o : DeclaredOption} (h : ¬ LeftOut target o) :
    d.addOption target m o = .ok m' ↔ ∃ built,
      buildOption (OptionName.ofKeyword o.name) o = .ok built ∧
      (∀ n ∈ o.listed ++ o.excluded, n = allEntities ∨ n ∈ m.entities.keys) ∧
      (∀ t ∈ d.optionDatabases target m o,
        OptionName.refusal? (OptionName.ofKeyword o.name) t = none) ∧
      built.problems = [] ∧ m' = { m with options := m.options.add built } := by
  have hrun : d.addOption target m o = (do
      let built ← buildOption (OptionName.ofKeyword o.name) o
      checkOptionEntities m (OptionName.ofKeyword o.name) o
      d.checkOptionDatabase target m (OptionName.ofKeyword o.name) o
      m.addOption built) := if_neg h
  rw [hrun]
  simp only [Outcome.bind_eq_ok, checkOptionEntities_eq_ok, checkOptionDatabase_eq_ok,
    Model.addOption_eq_ok]
  simp

/-- What a declaration adds, if anything can be made of it. -/
def addition (d : Document) (target : Target) : Declaration → Outcome Addition
  | .enumeration e =>
    .ok (.enumeration { Enumeration.named e.name e.values with comment := e.comment })
  | .entity e => .ok (.entity (d.entityOf e))
  | .relationship r => .ok (.relationship (buildRelationship r))
  | .option o =>
    if LeftOut target o then .ok (.options [])
    else (buildOption (OptionName.ofKeyword o.name) o).map fun built => .options [built]

/-- What a declaration demands of the model that it is added to. -/
def Demands (d : Document) (target : Target) (m : Model) : Declaration → Prop
  | .enumeration _ => True
  | .entity e => ∀ x ∈ e.keptFields, d.Fits target m e.name x.1.type
  | .relationship r => m.HasEnd r.source.name ∧ m.HasEnd r.destination.name
  | .option o => LeftOut target o ∨
    (∀ n ∈ o.listed ++ o.excluded, n = allEntities ∨ n ∈ m.entities.keys) ∧
      ∀ t ∈ d.optionDatabases target m o,
        OptionName.refusal? (OptionName.ofKeyword o.name) t = none

/-- Resolves one declaration. -/
def declare (d : Document) (target : Target) (m : Model) : Declaration → Outcome Model
  | .enumeration e =>
    m.addEnumeration { Enumeration.named e.name e.values with comment := e.comment }
  | .entity e => do m.addEntity (← d.buildEntity target m e)
  | .relationship r => do
    checkEnd m r r.source.name
    checkEnd m r r.destination.name
    m.addRelationship (buildRelationship r)
  | .option o => d.addOption target m o

/-- The declarations of a document in the order of resolving. -/
def declarations (d : Document) : List Declaration :=
  d.enumerations.map .enumeration ++ d.entities.map .entity ++
    d.relationships.map .relationship ++ d.options.map .option

/-- Resolving runs through the declarations and then assigns the microservice and the
applications. -/
theorem toModelFrom_eq (d : Document) (target : Target) (draw : Nat → Secrets) (m : Model) :
    d.toModelFrom target draw m = (do
      let k ← d.declarations.foldlM (d.declare target) m
      d.addApplications draw (← d.assignMicroservice target k)) := by
  simp only [declarations, List.foldlM_append, List.foldlM_map, bind_assoc]
  rfl

/-- A resolved model is what the declarations add up to, with the microservice and the applications
assigned to it. -/
theorem toModelFrom_eq_ok : d.toModelFrom target draw m = .ok m' ↔
    ∃ k k', d.declarations.foldlM (d.declare target) m = .ok k ∧
      d.assignMicroservice target k = .ok k' ∧ d.addApplications draw k' = .ok m' := by
  simp only [toModelFrom_eq, Outcome.bind_eq_ok, exists_and_left]

/-- A declaration is resolved exactly if it adds a part without problems and the model meets its
demands. -/
theorem declare_eq_ok {x : Declaration} :
    d.declare target m x = .ok m' ↔ ∃ p, d.addition target x = .ok p ∧ p.problems = [] ∧
      d.Demands target m x ∧ m' = m.put p := by
  cases x with
  | enumeration e =>
    simp [declare, addition, Demands, Model.addEnumeration_eq_ok, Addition.problems, Model.put]
  | entity e =>
    simp only [declare, Outcome.bind_eq_ok, buildEntity_eq_ok, Model.addEntity_eq_ok]
    constructor
    · rintro ⟨_, ⟨hfits, rfl⟩, hproblems, rfl⟩
      exact ⟨_, rfl, hproblems, hfits, rfl⟩
    · rintro ⟨p, hp, hproblems, hfits, rfl⟩
      obtain rfl := Except.ok.inj hp
      exact ⟨_, ⟨hfits, rfl⟩, hproblems, rfl⟩
  | relationship r =>
    simp only [declare, Outcome.bind_eq_ok, checkEnd_eq_ok, Model.addRelationship_eq_ok]
    constructor
    · rintro ⟨_, hsource, _, hdestination, hproblems, rfl⟩
      exact ⟨_, rfl, hproblems, ⟨hsource, hdestination⟩, rfl⟩
    · rintro ⟨p, hp, hproblems, ⟨hsource, hdestination⟩, rfl⟩
      obtain rfl := Except.ok.inj hp
      exact ⟨(), hsource, (), hdestination, hproblems, rfl⟩
  | option o =>
    simp only [declare, addition, Demands]
    by_cases hleft : LeftOut target o
    · have hput : m.put (.options []) = m := rfl
      simp [addOption_leftOut hleft, hleft, Addition.problems, hput, eq_comm (a := m')]
    · simp only [addOption_eq_ok hleft, hleft, if_false, false_or]
      constructor
      · rintro ⟨built, hbuilt, hnames, hdatabases, hproblems, rfl⟩
        exact ⟨.options [built], by rw [hbuilt]; rfl, by simpa [Addition.problems] using hproblems,
          ⟨hnames, hdatabases⟩, rfl⟩
      · rintro ⟨p, hp, hproblems, ⟨hnames, hdatabases⟩, rfl⟩
        cases hbuilt : buildOption (OptionName.ofKeyword o.name) o with
        | error f => simp [hbuilt, Except.map] at hp
        | ok built =>
          obtain rfl : .options [built] = p := by simpa [hbuilt, Except.map] using hp
          exact ⟨built, rfl, hnames, hdatabases, by simpa [Addition.problems] using hproblems, rfl⟩

theorem declare_reachable {x : Declaration} (h : d.declare target m x = .ok m')
    (hm : m.Reachable) : m'.Reachable := by
  cases x with
  | enumeration e => exact hm.enumeration h
  | entity e =>
    obtain ⟨_, -, hadd⟩ := Outcome.bind_eq_ok.mp h
    exact hm.entity hadd
  | relationship r =>
    obtain ⟨_, -, h⟩ := Outcome.bind_eq_ok.mp h
    obtain ⟨_, -, hadd⟩ := Outcome.bind_eq_ok.mp h
    exact hm.relationship hadd
  | option o => exact (addOption_keeps h).1.reachable hm

theorem phase_of_addition {x : Declaration} {p : Addition} (h : d.addition target x = .ok p) :
    p.phase = x.phase := by
  cases x with
  | enumeration e => exact Except.ok.inj h ▸ rfl
  | entity e => exact Except.ok.inj h ▸ rfl
  | relationship r => exact Except.ok.inj h ▸ rfl
  | option o =>
    rw [addition] at h
    split at h
    · exact Except.ok.inj h ▸ rfl
    · cases hbuilt : buildOption (OptionName.ofKeyword o.name) o with
      | error f => simp [hbuilt, Except.map] at h
      | ok built => exact Except.ok.inj (hbuilt ▸ h) ▸ rfl

theorem declare_congr (hconstants : ∀ name, d.constants.find? name = d'.constants.find? name)
    (hdatabases : ∀ n, d.databaseOf target n = d'.databaseOf target n) :
    d.declare target = d'.declare target := by
  have hresolve : d.resolveConstant = d'.resolveConstant := by
    funext v
    unfold resolveConstant
    split
    · rw [hconstants]
    · rfl
  have hdatabase : d.databaseOf target = d'.databaseOf target := funext hdatabases
  funext m x
  cases x with
  | enumeration e => rfl
  | entity e => simp only [declare, buildEntity, buildField, checkFieldType, hresolve, hdatabase]
  | relationship r => rfl
  | option o =>
    simp only [declare, addOption, checkOptionDatabase, optionDatabases, hdatabase]

end Document
end DomainModel
