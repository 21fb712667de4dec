import DomainModel.Proofs.Options.Collection
import DomainModel.Proofs.Outcomes
import DomainModel.Proofs.Relationships.Collection
/-!
# Reachable models

A model is reachable if it is built from the empty model by adding parts. What adding checks, and
the keys under which it files a part, then hold of every part of the model.
-/
namespace DomainModel

namespace Model

/-- The models that adding parts makes of the empty one. -/
inductive Reachable : Model → Prop where
  | empty : Reachable ∅
  | application {m m' : Model} {a : Application} (h : Reachable m)
      (hadd : m.addApplication a = .ok m') : Reachable m'
  | entity {m m' : Model} {e : Entity} (h : Reachable m)
      (hadd : m.addEntity e = .ok m') : Reachable m'
  | enumeration {m m' : Model} {e : Enumeration} (h : Reachable m)
      (hadd : m.addEnumeration e = .ok m') : Reachable m'
  | relationship {m m' : Model} {r : Relationship} (h : Reachable m)
      (hadd : m.addRelationship r = .ok m') : Reachable m'
  | option {m m' : Model} {o : GeneratorOption} (h : Reachable m) (ho : o.Built)
      (hadd : m.addOption o = .ok m') : Reachable m'

theorem Reachable.relationships {l : List Relationship} {m : Model} (h : m.Reachable)
    (hproblems : ∀ r ∈ l, r.problems = []) :
    Reachable { m with relationships := m.relationships.addAll l } := by
  induction l generalizing m with
  | nil => exact h
  | cons r rest ih =>
    have hadd : m.addRelationship r =
        .ok { m with relationships := (m.relationships.add r).1 } :=
      addRelationship_eq_ok.mpr ⟨hproblems r List.mem_cons_self, rfl⟩
    exact ih (.relationship h hadd) fun s hs => hproblems s (List.mem_cons_of_mem r hs)

theorem Reachable.options {l : List GeneratorOption} {m : Model} (h : m.Reachable)
    (hl : ∀ o ∈ l, o.Built ∧ o.problems = []) :
    Reachable { m with options := m.options.addAll l } := by
  induction l generalizing m with
  | nil => exact h
  | cons o rest ih =>
    obtain ⟨hbuilt, hproblems⟩ := hl o List.mem_cons_self
    have hadd : m.addOption o = .ok { m with options := m.options.add o } :=
      addOption_eq_ok.mpr ⟨hproblems, rfl⟩
    exact ih (.option h hbuilt hadd) fun p hp => hl p (List.mem_cons_of_mem o hp)

/-- Every part is filed under its own key and is what adding it demands. -/
structure WellFormed (m : Model) : Prop where
  entities : ∀ name e, (name, e) ∈ m.entities.entries → e.name = name ∧ e.problems = []
  keyed : m.relationships.Keyed
  relationships : ∀ r ∈ m.relationships.toList, r.problems = []
  options : ∀ key o, (key, o) ∈ m.options.table.entries → o.key = key ∧ o.Legal

private theorem options_add {t : OptionTable} {o : GeneratorOption} (ho : o.Legal)
    (ht : ∀ key o, (key, o) ∈ t.table.entries → o.key = key ∧ o.Legal) {key : String}
    {p : GeneratorOption} (hp : (key, p) ∈ (t.add o).table.entries) : p.key = key ∧ p.Legal := by
  have hget : (t.add o).get? key = some p := Table.find?_eq_some_iff.mpr hp
  rw [OptionTable.get?_add] at hget
  split at hget
  · next hkey =>
    obtain ⟨-, q, hq, hpq⟩ := GeneratorOption.gathered_eq_some hget
    have hheld : q.key = key ∧ q.Legal := by
      rcases List.mem_append.mp hq with hq | hq
      · exact ht key q (Table.find?_eq_some_iff.mp (Option.mem_toList.mp hq))
      · exact List.mem_singleton.mp hq ▸ ⟨hkey, ho⟩
    rw [hpq, GeneratorOption.key_withScope]
    exact ⟨hheld.1, hheld.2.withScope _⟩
  · exact ht key p (Table.find?_eq_some_iff.mp hget)

theorem Reachable.wellFormed {m : Model} (h : m.Reachable) : m.WellFormed := by
  induction h with
  | empty =>
    exact ⟨by rintro _ _ ⟨⟩, RelationshipTable.keyed_empty, by rintro _ ⟨⟩, by rintro _ _ ⟨⟩⟩
  | application _ hadd ih =>
    obtain ⟨-, rfl⟩ := addApplication_eq_ok.mp hadd
    exact ⟨ih.entities, ih.keyed, ih.relationships, ih.options⟩
  | entity _ hadd ih =>
    obtain ⟨hproblems, rfl⟩ := addEntity_eq_ok.mp hadd
    refine ⟨?_, ih.keyed, ih.relationships, ih.options⟩
    intro name e he
    rcases Table.mem_entries_insert.mp he with ⟨rfl, rfl⟩ | ⟨-, hold⟩
    · exact ⟨rfl, hproblems⟩
    · exact ih.entities name e hold
  | enumeration _ hadd ih =>
    obtain ⟨-, rfl⟩ := addEnumeration_eq_ok.mp hadd
    exact ⟨ih.entities, ih.keyed, ih.relationships, ih.options⟩
  | relationship _ hadd ih =>
    obtain ⟨hproblems, rfl⟩ := addRelationship_eq_ok.mp hadd
    refine ⟨ih.entities, ih.keyed.add _, ?_, ih.options⟩
    intro s hs
    rcases RelationshipTable.mem_toList_add hs with hold | rfl
    · exact ih.relationships s hold
    · exact hproblems
  | option _ ho hadd ih =>
    obtain ⟨-, rfl⟩ := addOption_eq_ok.mp hadd
    exact ⟨ih.entities, ih.keyed, ih.relationships,
      fun key p hp => options_add ho.legal ih.options hp⟩

theorem Reachable.enumeration_name {m : Model} (h : m.Reachable) :
    ∀ name e, (name, e) ∈ m.enumerations.entries → e.name = name := by
  induction h with
  | empty => rintro _ _ ⟨⟩
  | application _ hadd ih => exact (addApplication_eq_ok.mp hadd).2 ▸ ih
  | entity _ hadd ih => exact (addEntity_eq_ok.mp hadd).2 ▸ ih
  | enumeration _ hadd ih =>
    obtain ⟨-, rfl⟩ := addEnumeration_eq_ok.mp hadd
    intro name e he
    rcases Table.mem_entries_insert.mp he with ⟨rfl, rfl⟩ | ⟨-, hold⟩
    · rfl
    · exact ih name e hold
  | relationship _ hadd ih => exact (addRelationship_eq_ok.mp hadd).2 ▸ ih
  | option _ _ hadd ih => exact (addOption_eq_ok.mp hadd).2 ▸ ih

end Model
end DomainModel
