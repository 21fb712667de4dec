import DomainModel.Proofs.Descriptors.Conversion
import DomainModel.Proofs.Documents.Resolution
/-!
# Reading back what a document declares

The descriptors of a resolved document are read again, with one exception: a document may declare
the user entity without more ado, while descriptors may only if user management is left out.
-/
namespace DomainModel

/-- The options with this name, and no others. -/
def OptionTable.only (t : OptionTable) (name : String) : OptionTable :=
  ⟨t.table.filter fun _ o => o.name == name⟩

theorem OptionTable.toList_only (t : OptionTable) (name : String) :
    (t.only name).toList = t.named name := by
  simp only [only, toList, named, Table.values, Table.filter, List.filter_map]
  rfl

theorem OptionTable.named_only (t : OptionTable) (name : String) :
    (t.only name).named name = t.named name := by
  rw [named, toList_only, named, List.filter_filter]
  simp

/-- A model of the options that leave out user management. -/
def Model.userManagement (m : Model) : Model :=
  { (∅ : Model) with options := m.options.only OptionName.skipUserManagement }

namespace Document
variable {d : Document} {target : Target} {draw : Nat → Secrets} {m : Model}

/-- What a document declares is read back from its descriptors exactly if the user entity is not
declared or user management is left out, and otherwise it is this that fails. -/
theorem rereading_succeeds_iff (h : d.toModel target draw = .ok m) (start : Int) :
    ((∃ m', (m.toDescriptors start).toModelFrom m.userManagement = .ok m') ↔
      (userEntityName ∈ d.entityNames →
        m.options.named OptionName.skipUserManagement ≠ [])) ∧
    (userEntityName ∈ d.entityNames → m.options.named OptionName.skipUserManagement = [] →
      (m.toDescriptors start).toModelFrom m.userManagement = .error .reservedUser) := by
  have hw := (toModelFrom_reachable h .empty).wellFormed
  have hbase : m.userManagement.options.named OptionName.skipUserManagement =
      m.options.named OptionName.skipUserManagement := OptionTable.named_only _ _
  constructor
  · rw [Model.toModelFrom_toDescriptors_iff hw, hbase, keys_toModel h]
  · intro huser hnone
    have hdeclared : (m.toDescriptors start).contains userEntityName = true := by
      rw [Table.contains_iff, Model.keys_toDescriptors hw]
      exact (keys_toModel h _).mpr huser
    have hcheck : (m.toDescriptors start).checkUser m.userManagement = .error .reservedUser := by
      simp [Descriptors.checkUser, hdeclared, hbase, hnone]
    rw [Descriptors.toModelFrom, hcheck]
    rfl

/-- A portal that declares its users itself and leaves out user management. -/
def portal : Document :=
  { empty with
    entities := [⟨userEntityName, none, none, []⟩, ⟨"Post", none, none, []⟩]
    relationships := [⟨.manyToOne, ⟨"Post", none, none, true⟩, ⟨userEntityName, none, none, false⟩⟩]
    options := [⟨"skipUserManagement", none, [allEntities], []⟩] }

theorem portal_reread : ∃ m, portal.toModel .any (fun _ => ⟨"", ""⟩) = .ok m ∧
    m.options.named OptionName.skipUserManagement ≠ [] ∧
    ((∃ m', (m.toDescriptors 0).toModelFrom m.userManagement = .ok m') ↔
      (userEntityName ∈ portal.entityNames →
        m.options.named OptionName.skipUserManagement ≠ [])) ∧
    (userEntityName ∈ portal.entityNames → m.options.named OptionName.skipUserManagement = [] →
      (m.toDescriptors 0).toModelFrom m.userManagement = .error .reservedUser) := by
  have hrun : (portal.toModel .any (fun _ => ⟨"", ""⟩)).map
      (fun m => m.options.named OptionName.skipUserManagement) =
        .ok [.unary OptionName.skipUserManagement Scope.all] := by decide +kernel
  cases hresult : portal.toModel .any (fun _ => ⟨"", ""⟩) with
  | error f => simp [hresult, Except.map] at hrun
  | ok m =>
    have hnamed : m.options.named OptionName.skipUserManagement =
        [.unary OptionName.skipUserManagement Scope.all] := by
      simpa [hresult, Except.map] using hrun
    exact ⟨m, rfl, by simp [hnamed], rereading_succeeds_iff hresult 0⟩

/-- A document that declares the user entity and nothing else. -/
def usersOnly : Document := { empty with entities := [⟨userEntityName, none, none, []⟩] }

/-- Documents may declare the user entity where descriptors may not. -/
theorem usersOnly_refused : ¬ ∀ (d : Document) (target : Target) (draw : Nat → Secrets) (m : Model),
    d.toModel target draw = .ok m → ∀ start, ∃ m',
      (m.toDescriptors start).toModelFrom m.userManagement = .ok m' := by
  intro hclaim
  have hrun : (usersOnly.toModel .any (fun _ => ⟨"", ""⟩)).map
      (fun m => (m.toDescriptors 0).toModelFrom m.userManagement) = .ok (.error .reservedUser) := by
    decide +kernel
  cases hresult : usersOnly.toModel .any (fun _ => ⟨"", ""⟩) with
  | error f => simp [hresult, Except.map] at hrun
  | ok m =>
    obtain ⟨m', hread⟩ := hclaim _ _ _ m hresult 0
    simp [hresult, Except.map, hread] at hrun

end Document
end DomainModel
