import DomainModel.Proofs.Relationships.Blocks
import DomainModel.Proofs.Relationships.Grouping
/-!
# Relationships that are added first

Of the relationships that are added to an empty collection in turn, it keeps the first of each
identity. All that can be asked of the collection is told by these alone: what has an identity or a
cardinality, how many relationships there are, and what their blocks show.
-/
namespace DomainModel

namespace Relationship

/-- The first relationship of each identity, in order. -/
def firsts : List Relationship → List Relationship
  | [] => []
  | r :: rest => r :: (firsts rest).filter fun s => s.id ≠ r.id

variable {l : List Relationship} {r : Relationship}

theorem mem_firsts_iff : r ∈ firsts l ↔ l.find? (fun s => s.id = r.id) = some r := by
  induction l with
  | nil => simp [firsts]
  | cons s rest ih =>
    rw [firsts, List.mem_cons, List.mem_filter, ih, List.find?_cons]
    by_cases hid : s.id = r.id
    · simp [hid, eq_comm]
    · have hne : r ≠ s := fun heq => hid (heq ▸ rfl)
      simp [hid, hne, Ne.symm hid]

theorem find?_eq_some_iff {id : String} :
    l.find? (fun s => s.id = id) = some r ↔ r ∈ firsts l ∧ r.id = id := by
  constructor
  · intro h
    have hid : r.id = id := by simpa using List.find?_some h
    exact ⟨mem_firsts_iff.mpr (hid ▸ h), hid⟩
  · rintro ⟨hmem, rfl⟩
    exact mem_firsts_iff.mp hmem

theorem firsts_concat (l : List Relationship) (r : Relationship) :
    firsts (l ++ [r]) = if r.id ∈ l.map Relationship.id then firsts l else firsts l ++ [r] := by
  induction l with
  | nil => simp [firsts]
  | cons s rest ih =>
    rw [List.cons_append, firsts, ih, firsts]
    by_cases hrest : r.id ∈ rest.map Relationship.id
    · have hheld : r.id ∈ (s :: rest).map Relationship.id := List.mem_cons_of_mem s.id hrest
      rw [if_pos hrest, if_pos hheld]
    · rw [if_neg hrest, List.filter_append]
      by_cases hid : r.id = s.id
      · simp [hid]
      · have hnew : r.id ∉ (s :: rest).map Relationship.id := by
          rw [List.map_cons, List.mem_cons, not_or]
          exact ⟨hid, hrest⟩
        rw [if_neg hnew, List.filter_singleton, decide_eq_true hid]
        rfl

theorem ids_firsts (l : List Relationship) :
    (firsts l).map Relationship.id = (l.map Relationship.id).eraseDups := by
  induction l using List.reverseRecOn with
  | nil => rfl
  | append_singleton l r ih =>
    rw [firsts_concat, List.map_append, List.map_singleton, eraseDups_concat, ← ih]
    split <;> simp

/-- Identities tell cardinalities, so those of the first relationships are all there are. -/
theorem cardinalities_firsts (l : List Relationship) :
    ((firsts l).map cardinality).eraseDups = (l.map cardinality).eraseDups := by
  induction l using List.reverseRecOn with
  | nil => rfl
  | append_singleton l r ih =>
    rw [firsts_concat, List.map_append, List.map_singleton, eraseDups_concat, ← ih]
    split
    · next hid =>
      obtain ⟨s, hs, hsame⟩ := List.mem_map.mp hid
      have hcard : r.cardinality ∈ l.map cardinality := by
        by_contra hnew
        refine RelationshipTable.id_ne_of_cardinality_ne (fun heq => hnew ?_) hsame
        exact heq ▸ List.mem_map_of_mem hs
      rw [if_pos hcard]
    · rw [List.map_append, List.map_singleton, eraseDups_concat]
      have hmem : r.cardinality ∈ (firsts l).map cardinality ↔
          r.cardinality ∈ l.map cardinality := by
        rw [← List.mem_eraseDups, ih, List.mem_eraseDups]
      simp only [hmem]

end Relationship

namespace RelationshipTable
open Relationship

theorem held_addAll_iff {l : List Relationship} {r : Relationship} :
    r.id ∈ (((∅ : RelationshipTable).addAll l).group r.cardinality).keys ↔
      r.id ∈ l.map Relationship.id := by
  have hkeyed := keyed_empty.addAll l
  constructor
  · intro hheld
    obtain ⟨s, hs⟩ := Table.mem_keys.mp hheld
    rcases mem_toList_addAll (mem_toList.mpr ⟨_, _, hs⟩) with hold | hmem
    · exact absurd hold List.not_mem_nil
    · rw [(hkeyed _ _ _ hs).1]
      exact List.mem_map_of_mem hmem
  · intro hid
    obtain ⟨s, hs, hsame⟩ := List.mem_map.mp hid
    obtain ⟨t, ht, htid⟩ := id_held_addAll keyed_empty hs
    obtain ⟨c, id, hentry⟩ := mem_toList.mp ht
    obtain ⟨rfl, rfl⟩ := hkeyed c id t hentry
    have hcard : t.cardinality = r.cardinality := by
      by_contra hne
      exact id_ne_of_cardinality_ne hne (htid.trans hsame)
    rw [← hcard, ← hsame, ← htid]
    exact Table.mem_keys.mpr ⟨t, hentry⟩

theorem add_addAll (l : List Relationship) (r : Relationship) :
    (((∅ : RelationshipTable).addAll l).add r).2 = decide (r.id ∉ l.map Relationship.id) := by
  unfold add
  simp only [Table.contains, held_addAll_iff]
  by_cases hid : r.id ∈ l.map Relationship.id <;> simp [hid]

/-- Only the first relationship of each identity counts. -/
theorem addAll_firsts (l : List Relationship) :
    (∅ : RelationshipTable).addAll (firsts l) = (∅ : RelationshipTable).addAll l := by
  induction l using List.reverseRecOn with
  | nil => rfl
  | append_singleton l r ih =>
    have hstep : ∀ before, (∅ : RelationshipTable).addAll (before ++ [r]) =
        (((∅ : RelationshipTable).addAll before).add r).1 := fun before =>
      List.foldl_concat _ _ _ _
    rw [firsts_concat, hstep]
    split
    · next hid => rw [add_of_held (held_addAll_iff.mpr hid), ih]
    · rw [hstep, ih]

theorem Full.addAll {t : RelationshipTable} (h : t.Full) (l : List Relationship) :
    (t.addAll l).Full :=
  List.foldlRecOn l _ h fun _ hb r _ => hb.add r

theorem Keyed.get?_eq_some_iff {t : RelationshipTable} (h : t.Keyed) {id : String}
    {r : Relationship} : t.get? id = some r ↔ r ∈ t.toList ∧ r.id = id := by
  have hfound : ∀ s, t.get? id = some s → s ∈ t.toList ∧ s.id = id := by
    intro s hs
    obtain ⟨g, hg, hentry⟩ := List.exists_of_findSome?_eq_some hs
    obtain ⟨c, hc⟩ := Table.mem_values.mp hg
    rw [Table.find?_eq_some_iff, ← group_of_mem hc] at hentry
    exact ⟨mem_toList.mpr ⟨c, id, hentry⟩, (h c id s hentry).1.symm⟩
  refine ⟨hfound r, ?_⟩
  rintro ⟨hr, hid⟩
  cases hget : t.get? id with
  | none =>
    obtain ⟨g, hg, hmem⟩ := List.mem_flatMap.mp hr
    obtain ⟨k, hk⟩ := Table.mem_values.mp hmem
    obtain ⟨c, hc⟩ := Table.mem_values.mp hg
    have hkey : k = id := (h c k r (group_of_mem hc ▸ hk)).1.trans hid
    have hnone := List.findSome?_eq_none_iff.mp hget g hg
    rw [Table.find?_eq_some_iff.mpr (hkey ▸ hk)] at hnone
    exact absurd hnone (Option.some_ne_none r)
  | some s =>
    obtain ⟨hs, hsid⟩ := hfound s hget
    rw [List.inj_on_of_nodup_map h.ids_nodup hs hr (hsid.trans hid.symm)]

/-- What a collection tells after the relationships of a list were added in turn. -/
structure KeepsFirsts (l : List Relationship) (t : RelationshipTable) : Prop where
  add : ∀ r, (t.add r).2 = decide (r.id ∉ l.map Relationship.id)
  ids_nodup : t.ids.Nodup
  mem_ids : ∀ id, id ∈ t.ids ↔ id ∈ l.map Relationship.id
  get? : ∀ id, t.get? id = l.find? fun r => r.id = id
  ofCardinality : ∀ c, t.ofCardinality c = (firsts l).filter fun r => r.cardinality = c
  toList : t.toList = (l.map cardinality).eraseDups.flatMap t.ofCardinality
  size : t.size = (l.map Relationship.id).eraseDups.length
  blocks : t.blocks = (l.map cardinality).eraseDups.map fun c =>
    "relationship " ++ c.word ++ " \x7b\n" ++
      ",\n".intercalate ((t.ofCardinality c).map fun r => spelledMargin r.spelledMember) ++ "\n\x7d"

/-- A run of additions keeps the first relationship of each identity. -/
theorem keepsFirsts_addAll (l : List Relationship) :
    KeepsFirsts l ((∅ : RelationshipTable).addAll l) := by
  have hdistinct : ((firsts l).map Relationship.id).Nodup := ids_firsts l ▸ nodup_eraseDups _
  obtain ⟨hkeys, hgroups⟩ := addAll_grouped hdistinct
  have htoList := toList_addAll hdistinct
  rw [addAll_firsts] at hkeys hgroups htoList
  rw [cardinalities_firsts] at hkeys
  have hkeyed : ((∅ : RelationshipTable).addAll l).Keyed := keyed_empty.addAll l
  have hmem : ∀ r, r ∈ ((∅ : RelationshipTable).addAll l).toList ↔ r ∈ firsts l := by
    intro r
    rw [htoList, mem_grouped]
  have hids : ((∅ : RelationshipTable).addAll l).ids.Perm (l.map Relationship.id).eraseDups := by
    rw [← ids_firsts]
    apply (List.perm_ext_iff_of_nodup hkeyed.ids_nodup hdistinct).mpr
    intro id
    simp only [ids, List.mem_map, hmem]
  refine ⟨add_addAll l, hkeyed.ids_nodup, ?_, ?_, ?_, ?_, ?_, ?_⟩
  · intro id
    rw [hids.mem_iff, List.mem_eraseDups]
  · intro id
    ext r
    rw [hkeyed.get?_eq_some_iff, hmem, find?_eq_some_iff]
  · intro c
    rw [ofCardinality, Table.values, hgroups, List.map_map]
    exact List.map_id _
  · rw [toList_eq_flatMap, hkeys]
  · rw [size_eq_length, ← hids.length_eq, ids, List.length_map]
  · have hfull : ((∅ : RelationshipTable).addAll l).Full :=
      Full.addAll (fun g hg => absurd hg List.not_mem_nil) l
    rw [hfull.blocks_eq, members_eq, hkeys, List.map_map]
    exact List.map_congr_left fun c _ => blockText_eq c _

end RelationshipTable
end DomainModel
