import DomainModel.Descriptor.ToModel
import DomainModel.Proofs.Documents.Declarations
import DomainModel.Proofs.Relationships.Identity
/-!
# Runs of operations on a model

A caller adds parts, resolves documents and reads descriptors, in any order; an operation that fails
changes nothing. What adding a part keeps, every such run keeps: each part stands under the key that
it states, no key stands twice, and nothing is wrong with any part.
-/
namespace DomainModel

/-- What a caller may ask of a model. -/
inductive Operation where
  | addApplication (a : Application)
  | addEntity (e : Entity)
  | addEnumeration (e : Enumeration)
  | addRelationship (r : Relationship)
  | addOption (o : GeneratorOption)
  | resolve (d : Option Document) (target : Target) (draw : Nat → Secrets)
  | read (entities : Descriptors)

namespace Model

/-- The outcome of an operation. -/
def attempt (m : Model) : Operation → Outcome Model
  | .addApplication a => m.addApplication a
  | .addEntity e => m.addEntity e
  | .addEnumeration e => m.addEnumeration e
  | .addRelationship r => m.addRelationship r
  | .addOption o => m.addOption o
  | .resolve d target draw => Document.resolve d target draw m
  | .read entities => entities.toModelFrom m

/-- The model after an operation; one that fails leaves it as it was. -/
def perform (m : Model) (x : Operation) : Model :=
  match m.attempt x with
  | .ok m' => m'
  | .error _ => m

/-- The model after operations in turn, begun with the empty one. -/
def run (l : List Operation) : Model := l.foldl perform ∅

/-- A property of models that adding a part keeps. -/
structure KeptByAdding (P : Model → Prop) : Prop where
  application : ∀ {m m' a}, P m → m.addApplication a = .ok m' → P m'
  entity : ∀ {m m' e}, P m → m.addEntity e = .ok m' → P m'
  enumeration : ∀ {m m' e}, P m → m.addEnumeration e = .ok m' → P m'
  relationship : ∀ {m m' r}, P m → m.addRelationship r = .ok m' → P m'
  option : ∀ {m m' o}, P m → m.addOption o = .ok m' → P m'

namespace KeptByAdding
variable {P : Model → Prop} {m m' : Model}

theorem declare (hP : KeptByAdding P) {d : Document} {target : Target} {x : Declaration}
    (hm : P m) (h : d.declare target m x = .ok m') : P m' := by
  cases x with
  | enumeration e => exact hP.enumeration hm h
  | entity e =>
    obtain ⟨_, -, hadd⟩ := Outcome.bind_eq_ok.mp h
    exact hP.entity hm hadd
  | relationship r =>
    obtain ⟨_, -, h⟩ := Outcome.bind_eq_ok.mp h
    obtain ⟨_, -, hadd⟩ := Outcome.bind_eq_ok.mp h
    exact hP.relationship hm hadd
  | option o =>
    by_cases hleft : Document.LeftOut target o
    · rw [Document.declare, Document.addOption_leftOut hleft] at h
      exact Except.ok.inj h ▸ hm
    · obtain ⟨built, -, -, -, hproblems, hframe⟩ := (Document.addOption_eq_ok hleft).mp h
      exact hP.option hm (addOption_eq_ok.mpr ⟨hproblems, hframe⟩)

theorem resolve (hP : KeptByAdding P) {d : Option Document} {target : Target}
    {draw : Nat → Secrets} (hm : P m) (h : Document.resolve d target draw m = .ok m') : P m' := by
  cases d with
  | none => simp [Document.resolve] at h
  | some d =>
    obtain ⟨k, k', hdeclared, hmicroservice, happlications⟩ := Document.toModelFrom_eq_ok.mp h
    have hk : P k :=
      Outcome.foldlM_keeps P (fun _ _ _ _ hb hstep => hP.declare hb hstep) hm hdeclared
    have hk' : P k' := by
      rcases Document.assignMicroservice_spec hmicroservice with rfl | ⟨_, _, -, hadd⟩
      · exact hk
      · exact hP.option hk hadd
    apply Outcome.foldlM_keeps P _ hk' happlications
    rintro ⟨a, i⟩ _ b b' hb hstep
    obtain ⟨_, -, hadd⟩ := Outcome.bind_eq_ok.mp hstep
    exact hP.application hb hadd

theorem addDescribed (hP : KeptByAdding P) {entity : String} {d : EntityDescriptor} (hm : P m)
    (h : m.addDescribed entity d = .ok m') : P m' := by
  obtain ⟨k, henumerations, hadd⟩ := Outcome.bind_eq_ok.mp h
  exact hP.entity
    (Outcome.foldlM_keeps P (fun _ _ _ _ hb hstep => hP.enumeration hb hstep) hm henumerations)
    hadd

theorem foldOptions (hP : KeptByAdding P) {entity : String} {d : EntityDescriptor} (hm : P m)
    (h : m.foldOptions entity d = .ok m') : P m' := by
  obtain ⟨k, hbinary, hunary⟩ := Outcome.bind_eq_ok.mp h
  have hk : P k := by
    apply Outcome.foldlM_keeps P _ hm hbinary
    intro o _ b b' hb hstep
    obtain ⟨_, -, hadd⟩ := Outcome.bind_eq_ok.mp hstep
    exact hP.option hb hadd
  apply Outcome.foldlM_keeps P _ hk hunary
  intro name _ b b' hb hstep
  obtain ⟨_, -, hadd⟩ := Outcome.bind_eq_ok.mp hstep
  exact hP.option hb hadd

theorem read (hP : KeptByAdding P) {entities : Descriptors} (hm : P m)
    (h : entities.toModelFrom m = .ok m') : P m' := by
  obtain ⟨_, -, h⟩ := Outcome.bind_eq_ok.mp h
  obtain ⟨k, hdescribed, h⟩ := Outcome.bind_eq_ok.mp h
  obtain ⟨k', hrelationships, hoptions⟩ := Outcome.bind_eq_ok.mp h
  have hk : P k :=
    Outcome.foldlM_keeps P (fun _ _ _ _ hb hstep => hP.addDescribed hb hstep) hm hdescribed
  have hk' : P k' :=
    Outcome.foldlM_keeps P (fun _ _ _ _ hb hstep => hP.relationship hb hstep) hk hrelationships
  exact Outcome.foldlM_keeps P (fun _ _ _ _ hb hstep => hP.foldOptions hb hstep) hk' hoptions

theorem attempt (hP : KeptByAdding P) {x : Operation} (hm : P m) (h : m.attempt x = .ok m') :
    P m' := by
  cases x with
  | addApplication a => exact hP.application hm h
  | addEntity e => exact hP.entity hm h
  | addEnumeration e => exact hP.enumeration hm h
  | addRelationship r => exact hP.relationship hm h
  | addOption o => exact hP.option hm h
  | resolve d target draw => exact hP.resolve hm h
  | read entities => exact hP.read hm h

theorem perform (hP : KeptByAdding P) (hm : P m) (x : Operation) : P (m.perform x) := by
  unfold Model.perform
  split
  · next hstep => exact hP.attempt hm hstep
  · exact hm

/-- What holds of the empty model and is kept by adding a part holds after every run. -/
theorem run (hP : KeptByAdding P) (hempty : P ∅) (l : List Operation) : P (Model.run l) :=
  List.foldlRecOn l Model.perform hempty fun _ hm x _ => hP.perform hm x

theorem reachable (hP : KeptByAdding P) (hempty : P ∅) (h : m.Reachable) : P m := by
  induction h with
  | empty => exact hempty
  | application _ hadd ih => exact hP.application ih hadd
  | entity _ hadd ih => exact hP.entity ih hadd
  | enumeration _ hadd ih => exact hP.enumeration ih hadd
  | relationship _ hadd ih => exact hP.relationship ih hadd
  | option _ _ hadd ih => exact hP.option ih hadd

end KeptByAdding
end Model

namespace Table
variable {κ α : Type}

/-- Every value stands under the key that it states, and nothing is wrong with it. -/
def Files (t : Table κ α) (key : α → κ) (problems : α → List Problem) : Prop :=
  ∀ k v, (k, v) ∈ t.entries → key v = k ∧ problems v = []

theorem files_empty {key : α → κ} {problems : α → List Problem} :
    Files ∅ key problems := by
  rintro _ _ ⟨⟩

theorem Files.insert [DecidableEq κ] {t : Table κ α} {key : α → κ} {problems : α → List Problem}
    (h : t.Files key problems) {v : α} (hv : problems v = []) :
    (t.insert (key v) v).Files key problems := by
  intro k w hw
  rcases mem_entries_insert.mp hw with ⟨rfl, rfl⟩ | ⟨-, hold⟩
  · exact ⟨rfl, hv⟩
  · exact h k w hold

end Table

theorem OptionTable.files_add {t : OptionTable} {o : GeneratorOption}
    (h : t.table.Files GeneratorOption.key GeneratorOption.problems) (ho : o.problems = []) :
    (t.add o).table.Files GeneratorOption.key GeneratorOption.problems := by
  intro key p hp
  have hget : (t.add o).get? key = some p := Table.find?_eq_some_iff.mpr hp
  rw [get?_add] at hget
  split at hget
  · next hkey =>
    have hheld : ∀ q ∈ (t.get? key).toList ++ [o], q.key = key ∧ q.problems = [] := by
      intro q hq
      rcases List.mem_append.mp hq with hq | hq
      · exact h key q (Table.find?_eq_some_iff.mp (Option.mem_toList.mp hq))
      · exact List.mem_singleton.mp hq ▸ ⟨hkey, ho⟩
    obtain ⟨-, q, hq, hpq⟩ := GeneratorOption.gathered_eq_some hget
    refine ⟨?_, GeneratorOption.gathered_problems hget fun q hq => (hheld q hq).2⟩
    rw [hpq, GeneratorOption.key_withScope]
    exact (hheld q hq).1
  · exact h key p (Table.find?_eq_some_iff.mp hget)

theorem Application.baseName?_isSome {a : Application} (h : a.problems = []) :
    a.baseName? = some (a.baseName?.getD "") := by
  simp only [problems, List.append_eq_nil_iff, Problem.onlyIf_eq_nil] at h
  cases hname : a.baseName? with
  | none => simp_all [baseName?]
  | some name => rfl

namespace Model

/-- What adding a part keeps of all parts. -/
private structure Kept (m : Model) : Prop where
  applications : m.applications.Files (fun a => a.baseName?.getD "") Application.problems
  entities : m.entities.Files Entity.name Entity.problems
  enumerations : m.enumerations.Files Enumeration.name Enumeration.problems
  keyed : m.relationships.Keyed
  relationships : ∀ r ∈ m.relationships.toList, r.problems = []
  options : m.options.table.Files GeneratorOption.key GeneratorOption.problems

private theorem kept_empty : Kept ∅ :=
  ⟨Table.files_empty, Table.files_empty, Table.files_empty, RelationshipTable.keyed_empty,
    by rintro _ ⟨⟩, Table.files_empty⟩

private theorem kept_keptByAdding : KeptByAdding Kept where
  application hm hadd := by
    obtain ⟨hproblems, rfl⟩ := addApplication_eq_ok.mp hadd
    exact { hm with applications := hm.applications.insert hproblems }
  entity hm hadd := by
    obtain ⟨hproblems, rfl⟩ := addEntity_eq_ok.mp hadd
    exact { hm with entities := hm.entities.insert hproblems }
  enumeration hm hadd := by
    obtain ⟨hproblems, rfl⟩ := addEnumeration_eq_ok.mp hadd
    exact { hm with enumerations := hm.enumerations.insert hproblems }
  relationship hm hadd := by
    obtain ⟨hproblems, rfl⟩ := addRelationship_eq_ok.mp hadd
    refine { hm with keyed := hm.keyed.add _, relationships := ?_ }
    intro s hs
    rcases RelationshipTable.mem_toList_add hs with hold | rfl
    · exact hm.relationships s hold
    · exact hproblems
  option hm hadd := by
    obtain ⟨hproblems, rfl⟩ := addOption_eq_ok.mp hadd
    exact { hm with options := OptionTable.files_add hm.options hproblems }

/-- Every part is filed under what it says of itself and has no problems, and no key is used twice;
the identities of relationships are distinct across cardinalities. -/
structure Filed (m : Model) : Prop where
  applications : ∀ name a, (name, a) ∈ m.applications.entries →
    a.baseName? = some name ∧ a.problems = []
  entities : ∀ name e, (name, e) ∈ m.entities.entries → e.name = name ∧ e.problems = []
  enumerations : ∀ name e, (name, e) ∈ m.enumerations.entries → e.name = name ∧ e.problems = []
  relationships : ∀ c g, (c, g) ∈ m.relationships.groups.entries → ∀ id r, (id, r) ∈ g.entries →
    r.cardinality = c ∧ r.id = id ∧ r.problems = []
  options : ∀ key o, (key, o) ∈ m.options.table.entries → o.key = key ∧ o.problems = []
  applicationNames : m.applications.keys.Nodup
  entityNames : m.entities.keys.Nodup
  enumerationNames : m.enumerations.keys.Nodup
  cardinalities : m.relationships.groups.keys.Nodup
  identities : m.relationships.ids.Nodup
  optionKeys : m.options.table.keys.Nodup

private theorem Kept.filed {m : Model} (h : m.Kept) : m.Filed where
  applications name a ha := by
    obtain ⟨hkey, hproblems⟩ := h.applications name a ha
    exact ⟨hkey ▸ Application.baseName?_isSome hproblems, hproblems⟩
  entities := h.entities
  enumerations := h.enumerations
  relationships c g hg id r hr := by
    have hentry : (id, r) ∈ (m.relationships.group c).entries :=
      RelationshipTable.group_of_mem hg ▸ hr
    obtain ⟨hid, hcardinality⟩ := h.keyed c id r hentry
    exact ⟨hcardinality, hid.symm,
      h.relationships r (RelationshipTable.mem_toList.mpr ⟨c, id, hentry⟩)⟩
  options := h.options
  applicationNames := m.applications.distinct
  entityNames := m.entities.distinct
  enumerationNames := m.enumerations.distinct
  cardinalities := m.relationships.groups.distinct
  identities := h.keyed.ids_nodup
  optionKeys := m.options.table.distinct

theorem Reachable.filed {m : Model} (h : m.Reachable) : m.Filed :=
  (kept_keptByAdding.reachable kept_empty h).filed

/-- Whatever a caller has added, resolved and read, the model files every part under its own key,
each key once, and holds no part with a problem. -/
theorem run_filed (l : List Operation) : (run l).Filed :=
  (kept_keptByAdding.run kept_empty l).filed

end Model
end DomainModel
