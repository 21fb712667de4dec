import DomainModel.Model.Basic
/-!
# Parts without problems

What it takes for each part of a model to have no structural problem.
-/
namespace DomainModel

namespace Problem

@[simp] theorem onlyIf_eq_nil {condition : Bool} {p : Problem} :
    onlyIf condition p = [] ↔ condition = false := by
  cases condition <;> simp [onlyIf]

theorem numbered_eq_nil {place : Nat → Problem → Problem} {parts : List (List Problem)} :
    numbered place parts = [] ↔ ∀ p ∈ parts, p = [] := by
  simp only [numbered, List.flatMap_eq_nil_iff, List.map_eq_nil_iff]
  constructor
  · intro h p hp
    obtain ⟨i, hi⟩ := List.mem_iff_getElem?.mp hp
    have hmem : (p, 1 + i) ∈ parts.zipIdx 1 := by
      simp [List.mem_zipIdx_iff_le_and_getElem?_sub, hi]
    exact h _ hmem
  · intro h p hp
    exact h p.1 (List.fst_mem_of_mem_zipIdx hp)

end Problem

theorem Validation.problems_eq_nil {v : Validation} :
    v.problems = [] ↔ v.name ≠ "" ∧ ValidationName.isKnown v.name = true ∧
      (ValidationName.needsValue v.name = true → v.valueText.isSome = true) := by
  unfold problems
  by_cases hname : v.name = ""
  · simp [hname]
  · cases ValidationName.isKnown v.name with
    | false => simp [hname]
    | true =>
      cases ValidationName.needsValue v.name <;> cases v.valueText <;> simp [hname]

theorem Validation.valueText_eq_none {v : Validation} :
    v.valueText = none ↔ ∀ value, v.value = some value → value = .null ∨ value = .text "" := by
  obtain ⟨name, value⟩ := v
  cases value with
  | none => simp [valueText]
  | some value =>
    cases value with
    | scalar s =>
      cases s with
      | text s => by_cases hs : s = "" <;> simp [valueText, hs]
      | null => simp [valueText]
      | bool b => simp [valueText]
      | int n => simp [valueText]
      | float x => simp [valueText]
    | list items => simp [valueText]
    | record entries => simp [valueText]

theorem Field.problems_eq_nil {f : Field} :
    f.problems = [] ↔ f.name ≠ "" ∧ f.type ≠ "" ∧ ∀ v ∈ f.validations.values, v.problems = [] := by
  simp [problems, Problem.numbered_eq_nil]

theorem Entity.problems_eq_nil {e : Entity} :
    e.problems = [] ↔ e.name ≠ "" ∧ e.tableName ≠ "" ∧ ∀ f ∈ e.fields.values, f.problems = [] := by
  simp [problems, Problem.numbered_eq_nil]

theorem Enumeration.problems_eq_nil {e : Enumeration} : e.problems = [] ↔ e.name ≠ "" := by
  simp [problems]

theorem Relationship.problems_eq_nil {r : Relationship} :
    r.problems = [] ↔ r.source ≠ "" ∧ r.destination ≠ "" ∧
      (r.injectedInSource.isSome = true ∨ r.injectedInDestination.isSome = true) := by
  simp only [problems, List.append_eq_nil_iff, Problem.onlyIf_eq_nil, beq_eq_false_iff_ne,
    and_assoc]
  cases r.injectedInSource <;> cases r.injectedInDestination <;> simp

theorem GeneratorOption.problems_eq_nil {o : GeneratorOption} :
    o.problems = [] ↔ o.name ≠ "" ∧ o.scope.included.isEmpty = false ∧ o.value? ≠ some "" := by
  simp [problems]

end DomainModel
