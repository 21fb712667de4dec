import DomainModel.Proofs.Models.Problems
import DomainModel.Proofs.Models.Reachable
/-!
# Valid and closed models

No part of a reachable model has a problem. A model is closed if its relationships and options name
declared entities only; adding a part whose names are declared keeps a closed model closed.
-/
namespace DomainModel

theorem GeneratorOption.gathered_problems {l : List GeneratorOption} {p : GeneratorOption}
    (hp : gathered l = some p) (h : ∀ o ∈ l, o.problems = []) : p.problems = [] := by
  obtain ⟨-, o, ho, hop⟩ := gathered_eq_some hp
  obtain ⟨hname, hincluded, hvalue⟩ := problems_eq_nil.mp (h o ho)
  obtain ⟨n, hn⟩ := NameSet.isEmpty_eq_false_iff.mp hincluded
  refine problems_eq_nil.mpr ⟨?_, ?_, ?_⟩
  · rwa [hop, name_withScope]
  · exact NameSet.isEmpty_eq_false_iff.mpr ⟨n, (mem_included_gathered hp).mpr ⟨o, ho, hn⟩⟩
  · rwa [hop, value?_withScope]

theorem OptionTable.mem_toList_add {t : OptionTable} {o p : GeneratorOption}
    (h : p ∈ (t.add o).toList) : p ∈ t.toList ∨
      ∃ l, GeneratorOption.gathered (l ++ [o]) = some p ∧ ∀ q ∈ l, q ∈ t.toList := by
  obtain ⟨key, hkey⟩ := mem_toList.mp h
  rw [get?_add] at hkey
  split at hkey
  · refine .inr ⟨(t.get? key).toList, hkey, ?_⟩
    intro q hq
    exact mem_toList.mpr ⟨key, Option.mem_toList.mp hq⟩
  · exact .inl (mem_toList.mpr ⟨key, hkey⟩)

namespace Model

/-- No part has a structural problem. -/
structure Valid (m : Model) : Prop where
  applications : ∀ a ∈ m.applications.values, a.problems = []
  entities : ∀ e ∈ m.entities.values, e.problems = []
  enumerations : ∀ e ∈ m.enumerations.values, e.problems = []
  relationships : ∀ r ∈ m.relationships.toList, r.problems = []
  options : ∀ o ∈ m.options.toList, o.problems = []

theorem Reachable.valid {m : Model} (h : m.Reachable) : m.Valid := by
  induction h with
  | empty => exact ⟨by rintro _ ⟨⟩, by rintro _ ⟨⟩, by rintro _ ⟨⟩, by rintro _ ⟨⟩, by rintro _ ⟨⟩⟩
  | application _ hadd ih =>
    obtain ⟨hproblems, rfl⟩ := addApplication_eq_ok.mp hadd
    exact { ih with applications := fun w hw =>
      (Table.mem_values_insert hw).elim (fun h => h ▸ hproblems) (ih.applications w) }
  | entity _ hadd ih =>
    obtain ⟨hproblems, rfl⟩ := addEntity_eq_ok.mp hadd
    exact { ih with entities := fun w hw =>
      (Table.mem_values_insert hw).elim (fun h => h ▸ hproblems) (ih.entities w) }
  | enumeration _ hadd ih =>
    obtain ⟨hproblems, rfl⟩ := addEnumeration_eq_ok.mp hadd
    exact { ih with enumerations := fun w hw =>
      (Table.mem_values_insert hw).elim (fun h => h ▸ hproblems) (ih.enumerations w) }
  | relationship _ hadd ih =>
    obtain ⟨hproblems, rfl⟩ := addRelationship_eq_ok.mp hadd
    refine { ih with relationships := ?_ }
    intro s hs
    rcases RelationshipTable.mem_toList_add hs with hold | rfl
    · exact ih.relationships s hold
    · exact hproblems
  | option _ _ hadd ih =>
    obtain ⟨hproblems, rfl⟩ := addOption_eq_ok.mp hadd
    refine { ih with options := ?_ }
    intro p hp
    rcases OptionTable.mem_toList_add hp with hold | ⟨l, hgathered, hl⟩
    · exact ih.options p hold
    · apply GeneratorOption.gathered_problems hgathered
      intro q hq
      rcases List.mem_append.mp hq with hq | hq
      · exact ih.options q (hl q hq)
      · exact List.mem_singleton.mp hq ▸ hproblems

/-- The names that an end of a relationship may bear: those of the entities and of the user. -/
def HasEnd (m : Model) (name : String) : Prop := name ∈ m.entities.keys ∨ name = userEntityName

/-- The scope names declared entities and the wildcard only. -/
def Covers (m : Model) (s : Scope) : Prop :=
  ∀ n, n ∈ s.included ∨ n ∈ s.excluded → n = allEntities ∨ n ∈ m.entities.keys

/-- Relationships and options name declared entities, and every relationship has its field in the
source. -/
structure Closed (m : Model) : Prop where
  ends : ∀ r ∈ m.relationships.toList, m.HasEnd r.source ∧ m.HasEnd r.destination
  injected : ∀ r ∈ m.relationships.toList, r.injectedInSource.isSome = true
  scopes : ∀ o ∈ m.options.toList, m.Covers o.scope

theorem closed_empty : Closed ∅ :=
  ⟨by rintro _ ⟨⟩, by rintro _ ⟨⟩, by rintro _ ⟨⟩⟩

section Add
variable {m m' : Model}

theorem Closed.addEnumeration {e : Enumeration} (h : m.Closed)
    (hadd : m.addEnumeration e = .ok m') : m'.Closed := by
  obtain ⟨-, rfl⟩ := addEnumeration_eq_ok.mp hadd
  exact ⟨h.ends, h.injected, h.scopes⟩

theorem Closed.addEntity {e : Entity} (h : m.Closed) (hadd : m.addEntity e = .ok m') :
    m'.Closed := by
  obtain ⟨-, rfl⟩ := addEntity_eq_ok.mp hadd
  have hkeep : ∀ n ∈ m.entities.keys, n ∈ (m.entities.insert e.name e).keys :=
    fun n hn => Table.mem_keys_insert.mpr (.inr hn)
  refine ⟨?_, h.injected, ?_⟩
  · intro r hr
    obtain ⟨hsource, hdestination⟩ := h.ends r hr
    exact ⟨hsource.imp_left (hkeep _), hdestination.imp_left (hkeep _)⟩
  · intro o ho n hn
    exact (h.scopes o ho n hn).imp_right (hkeep n)

theorem Closed.addRelationship {r : Relationship} (h : m.Closed)
    (hends : m.HasEnd r.source ∧ m.HasEnd r.destination)
    (hinjected : r.injectedInSource.isSome = true) (hadd : m.addRelationship r = .ok m') :
    m'.Closed := by
  obtain ⟨-, rfl⟩ := addRelationship_eq_ok.mp hadd
  refine ⟨?_, ?_, h.scopes⟩
  · intro s hs
    rcases RelationshipTable.mem_toList_add hs with hold | rfl
    · exact h.ends s hold
    · exact hends
  · intro s hs
    rcases RelationshipTable.mem_toList_add hs with hold | rfl
    · exact h.injected s hold
    · exact hinjected

theorem Closed.addOption {o : GeneratorOption} (h : m.Closed) (hscope : m.Covers o.scope)
    (hadd : m.addOption o = .ok m') : m'.Closed := by
  obtain ⟨-, rfl⟩ := addOption_eq_ok.mp hadd
  refine ⟨h.ends, h.injected, ?_⟩
  intro p hp n hn
  rcases OptionTable.mem_toList_add hp with hold | ⟨l, hgathered, hl⟩
  · exact h.scopes p hold n hn
  · -- A name of the joined scope is one of the held scope or of the added one.
    have hcovers : ∀ q ∈ l ++ [o], m.Covers q.scope := by
      intro q hq
      rcases List.mem_append.mp hq with hq | hq
      · exact h.scopes q (hl q hq)
      · exact List.mem_singleton.mp hq ▸ hscope
    rw [GeneratorOption.mem_included_gathered hgathered,
      GeneratorOption.mem_excluded_gathered hgathered] at hn
    rcases hn with ⟨q, hq, hnq⟩ | ⟨q, hq, hnq⟩
    · exact hcovers q hq n (.inl hnq)
    · exact hcovers q hq n (.inr hnq)

end Add

end Model
end DomainModel
