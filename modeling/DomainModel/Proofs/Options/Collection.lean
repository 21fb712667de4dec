import DomainModel.Proofs.Options.Legal
import DomainModel.Proofs.Tables
/-!
# Option collections

Adding an option puts it under its key or widens the scope of the option held there, and leaves
every other key alone. After options are added in turn, a key holds the first option that was added
under it, with the names of the scopes of all of them.
-/
namespace DomainModel

namespace Scope

theorem appliesTo_iff {s : Scope} {entity : String} :
    s.appliesTo entity = true ↔
      entity ∉ s.excluded ∧ (allEntities ∈ s.included ∨ entity ∈ s.included) := by
  simp [appliesTo, NameSet.contains]

/-- The names of all scopes, each in order of first occurrence. -/
def union (scopes : List Scope) : Scope where
  included := NameSet.ofList (scopes.flatMap fun s => s.included.names)
  excluded := NameSet.ofList (scopes.flatMap fun s => s.excluded.names)

theorem mem_included_union {scopes : List Scope} {n : String} :
    n ∈ (union scopes).included ↔ ∃ s ∈ scopes, n ∈ s.included := by
  rw [union, NameSet.mem_ofList, List.mem_flatMap]
  rfl

theorem mem_excluded_union {scopes : List Scope} {n : String} :
    n ∈ (union scopes).excluded ↔ ∃ s ∈ scopes, n ∈ s.excluded := by
  rw [union, NameSet.mem_ofList, List.mem_flatMap]
  rfl

@[simp] theorem union_single (s : Scope) : union [s] = s := by
  cases s
  simp [union, NameSet.ofList_names]

theorem union_merge (s t : Scope) (rest : List Scope) :
    union (s.merge t :: rest) = union (s :: t :: rest) := by
  have hnames : ∀ (a b : NameSet) (l : List String),
      NameSet.ofList ((a.insertAll b.names).names ++ l) =
        NameSet.ofList (a.names ++ (b.names ++ l)) := by
    intro a b l
    rw [NameSet.ofList_names_append, NameSet.ofList_names_append, NameSet.insertAll_append]
  simp only [union, merge, List.flatMap_cons, hnames]

end Scope

namespace GeneratorOption

/-- One option for all options under a key: the first of them, with the names of all scopes. -/
def gathered : List GeneratorOption → Option GeneratorOption
  | [] => none
  | o :: rest => some (o.withScope (Scope.union ((o :: rest).map scope)))

theorem gathered_single (o : GeneratorOption) : gathered [o] = some o := by
  cases o <;> simp [gathered, withScope, scope]

theorem gathered_merge (o p : GeneratorOption) (rest : List GeneratorOption) :
    gathered (o.withScope (o.scope.merge p.scope) :: rest) = gathered (o :: p :: rest) := by
  cases o <;> simp [gathered, withScope, scope, Scope.union_merge]

theorem gathered_eq_some {l : List GeneratorOption} {p : GeneratorOption}
    (h : gathered l = some p) :
    p.scope = Scope.union (l.map scope) ∧ ∃ o ∈ l, p = o.withScope p.scope := by
  cases l with
  | nil => simp [gathered] at h
  | cons o rest =>
    obtain rfl := Option.some.inj h
    exact ⟨scope_withScope o _, o, List.mem_cons_self, by simp⟩

theorem gathered_isSome_iff {l : List GeneratorOption} : (gathered l).isSome = true ↔ l ≠ [] := by
  cases l <;> simp [gathered]

theorem mem_included_gathered {l : List GeneratorOption} {p : GeneratorOption}
    (h : gathered l = some p) {n : String} :
    n ∈ p.scope.included ↔ ∃ o ∈ l, n ∈ o.scope.included := by
  rw [(gathered_eq_some h).1, Scope.mem_included_union]
  simp

theorem mem_excluded_gathered {l : List GeneratorOption} {p : GeneratorOption}
    (h : gathered l = some p) {n : String} :
    n ∈ p.scope.excluded ↔ ∃ o ∈ l, n ∈ o.scope.excluded := by
  rw [(gathered_eq_some h).1, Scope.mem_excluded_union]
  simp

/-- Options gathered into one apply to the names that one of them includes and none excludes. -/
theorem appliesTo_gathered_iff {l : List GeneratorOption} {p : GeneratorOption}
    (hp : gathered l = some p) (entity : String) :
    p.appliesTo entity = true ↔ (∀ o ∈ l, entity ∉ o.scope.excluded) ∧
      ∃ o ∈ l, allEntities ∈ o.scope.included ∨ entity ∈ o.scope.included := by
  rw [appliesTo, Scope.appliesTo_iff, mem_excluded_gathered hp, mem_included_gathered hp,
    mem_included_gathered hp]
  simp only [not_exists, not_and, and_or_left, exists_or]

theorem exists_appliesTo_of_gathered {l : List GeneratorOption} {p : GeneratorOption}
    (hp : gathered l = some p) {entity : String} (h : p.appliesTo entity = true) :
    ∃ o ∈ l, o.appliesTo entity = true := by
  obtain ⟨hkept, o, ho, hincluded⟩ := (appliesTo_gathered_iff hp entity).mp h
  exact ⟨o, ho, Scope.appliesTo_iff.mpr ⟨hkept o ho, hincluded⟩⟩

end GeneratorOption

namespace OptionTable

theorem mem_toList {t : OptionTable} {o : GeneratorOption} :
    o ∈ t.toList ↔ ∃ key, t.get? key = some o := by
  simp only [get?, Table.find?_eq_some_iff]
  exact Table.mem_values

theorem get?_add (t : OptionTable) (o : GeneratorOption) (key : String) :
    (t.add o).get? key =
      if o.key = key then GeneratorOption.gathered ((t.get? key).toList ++ [o])
      else t.get? key := by
  by_cases h : o.key = key
  · subst h
    rw [if_pos rfl]
    unfold add get?
    cases hheld : t.table.find? o.key with
    | none => simp [GeneratorOption.gathered_single]
    | some p => simp [← GeneratorOption.gathered_merge, GeneratorOption.gathered_single]
  · rw [if_neg h]
    unfold add get?
    cases t.table.find? o.key <;> simp [h]

/-- Where an option that is held after an addition applies, one of its name applied that was held
before or is the added one. -/
theorem exists_appliesTo_of_add {t : OptionTable}
    (ht : ∀ key p, (key, p) ∈ t.table.entries → p.key = key ∧ p.Legal) {o p : GeneratorOption}
    (ho : o.Legal) (hp : p ∈ (t.add o).toList) {entity : String} (h : p.appliesTo entity = true) :
    ∃ q, (q ∈ t.toList ∨ q = o) ∧ q.name = p.name ∧ q.appliesTo entity = true := by
  obtain ⟨key, hkey⟩ := mem_toList.mp hp
  rw [get?_add] at hkey
  split at hkey
  · next hheld =>
    have hlegal : ∀ q ∈ (t.get? key).toList ++ [o], q.key = key ∧ q.Legal := by
      intro q hq
      rcases List.mem_append.mp hq with hq | hq
      · exact ht key q (Table.find?_eq_some_iff.mp (Option.mem_toList.mp hq))
      · exact List.mem_singleton.mp hq ▸ ⟨hheld, ho⟩
    obtain ⟨-, first, hfirst, hmade⟩ := GeneratorOption.gathered_eq_some hkey
    obtain ⟨q, hq, happlies⟩ := GeneratorOption.exists_appliesTo_of_gathered hkey h
    have hsame : q.key = first.key := (hlegal q hq).1.trans (hlegal first hfirst).1.symm
    refine ⟨q, ?_, ?_, happlies⟩
    · rcases List.mem_append.mp hq with hq | hq
      · exact .inl (mem_toList.mpr ⟨key, Option.mem_toList.mp hq⟩)
      · exact .inr (List.mem_singleton.mp hq)
    · rw [hmade, GeneratorOption.name_withScope]
      exact (((hlegal q hq).2.key_eq_iff (hlegal first hfirst).2).mp hsame).1
  · exact ⟨p, .inl (mem_toList.mpr ⟨key, hkey⟩), rfl, h⟩

/-- The collection with all options of a list added in turn. -/
def addAll (t : OptionTable) (l : List GeneratorOption) : OptionTable := l.foldl add t

theorem addAll_append (t : OptionTable) (l l' : List GeneratorOption) :
    t.addAll (l ++ l') = (t.addAll l).addAll l' :=
  List.foldl_append

/-- A key holds what it held before and what was added under it, as one option. -/
theorem get?_addAll (t : OptionTable) (l : List GeneratorOption) (key : String) :
    (t.addAll l).get? key =
      GeneratorOption.gathered ((t.get? key).toList ++ l.filter fun o => o.key == key) := by
  induction l generalizing t with
  | nil =>
    change t.get? key = _
    cases t.get? key with
    | none => rfl
    | some p => simp [GeneratorOption.gathered_single]
  | cons o rest ih =>
    change ((t.add o).addAll rest).get? key = _
    rw [ih, get?_add]
    by_cases h : o.key = key
    · cases hheld : t.get? key with
      | none => simp [h, GeneratorOption.gathered_single]
      | some p =>
        simp [h, ← GeneratorOption.gathered_merge, GeneratorOption.gathered_single]
    · simp [h]

theorem get?_addAll_empty (l : List GeneratorOption) (key : String) :
    ((∅ : OptionTable).addAll l).get? key =
      GeneratorOption.gathered (l.filter fun o => o.key == key) :=
  get?_addAll ∅ l key

theorem added_of_get?_addAll {l : List GeneratorOption} {key : String} {p : GeneratorOption}
    (h : ((∅ : OptionTable).addAll l).get? key = some p) :
    p.key = key ∧ ∃ o ∈ l, p = o.withScope p.scope := by
  rw [get?_addAll_empty] at h
  obtain ⟨-, o, ho, hp⟩ := GeneratorOption.gathered_eq_some h
  obtain ⟨hmem, hkey⟩ := List.mem_filter.mp ho
  refine ⟨?_, o, hmem, hp⟩
  rw [hp, GeneratorOption.key_withScope]
  exact beq_iff_eq.mp hkey

theorem eq_of_key_eq {l : List GeneratorOption} {p q : GeneratorOption}
    (hp : p ∈ ((∅ : OptionTable).addAll l).toList) (hq : q ∈ ((∅ : OptionTable).addAll l).toList)
    (h : p.key = q.key) : p = q := by
  obtain ⟨key, hkey⟩ := mem_toList.mp hp
  obtain ⟨key', hkey'⟩ := mem_toList.mp hq
  obtain rfl := (added_of_get?_addAll hkey).1
  obtain rfl := (added_of_get?_addAll hkey').1
  exact Option.some.inj (hkey.symm.trans (h ▸ hkey'))

theorem nodup_toList_addAll (l : List GeneratorOption) :
    ((∅ : OptionTable).addAll l).toList.Nodup := by
  apply List.Nodup.of_map GeneratorOption.key
  have hkeys : ((∅ : OptionTable).addAll l).toList.map GeneratorOption.key =
      ((∅ : OptionTable).addAll l).table.keys := by
    simp only [toList, Table.values, Table.keys, List.map_map]
    refine List.map_congr_left fun e he => ?_
    exact (added_of_get?_addAll (Table.find?_eq_some_iff.mpr he)).1
  rw [hkeys]
  exact ((∅ : OptionTable).addAll l).table.distinct

end OptionTable
end DomainModel
