import DomainModel.Model.Relationship
import DomainModel.Proofs.Tables
/-!
# Relationship collections

A collection that keeps every relationship under its own cardinality and identity goes on doing so,
and adding relationships in turn keeps one for each identity, each of them one that was added.
-/
namespace DomainModel
namespace RelationshipTable

/-- Every relationship is held under its own cardinality and identity. -/
def Keyed (t : RelationshipTable) : Prop :=
  ∀ c id r, (id, r) ∈ (t.group c).entries → id = r.id ∧ r.cardinality = c

theorem group_of_mem {t : RelationshipTable} {c : Cardinality} {g : Table String Relationship}
    (h : (c, g) ∈ t.groups.entries) : t.group c = g := by
  simp [group, Table.find?_eq_some_iff.mpr h]

theorem mem_toList {t : RelationshipTable} {r : Relationship} :
    r ∈ t.toList ↔ ∃ c id, (id, r) ∈ (t.group c).entries := by
  simp only [toList, Table.values, List.mem_flatMap, List.mem_map]
  constructor
  · rintro ⟨g, ⟨⟨c, g'⟩, hg, rfl⟩, ⟨id, r'⟩, hr, rfl⟩
    have hfind : t.groups.find? c = some g' := Table.find?_eq_some_iff.mpr hg
    exact ⟨c, id, by simpa [group, hfind] using hr⟩
  · rintro ⟨c, id, hr⟩
    cases hfind : t.groups.find? c with
    | none => simp [group, hfind] at hr
    | some g =>
      have hr : (id, r) ∈ g.entries := by simpa [group, hfind] using hr
      exact ⟨g, ⟨(c, g), Table.find?_eq_some_iff.mp hfind, rfl⟩, (id, r), hr, rfl⟩

theorem keyed_empty : Keyed ∅ := by
  intro c id r h
  simp [group, show (∅ : RelationshipTable).groups = ∅ from rfl,
    show (∅ : Table Cardinality (Table String Relationship)).find? c = none from rfl] at h

theorem toList_empty : toList ∅ = [] := rfl

theorem add_of_held {t : RelationshipTable} {r : Relationship}
    (h : r.id ∈ (t.group r.cardinality).keys) : t.add r = (t, false) := by
  simp [add, Table.contains_iff, h]

theorem group_add (t : RelationshipTable) (r : Relationship) (c : Cardinality) :
    (t.add r).1.group c =
      if c = r.cardinality ∧ r.id ∉ (t.group c).keys then (t.group c).insert r.id r
      else t.group c := by
  by_cases hheld : r.id ∈ (t.group r.cardinality).keys
  · rw [add_of_held hheld]
    by_cases hc : c = r.cardinality
    · simp [hc, hheld]
    · simp [hc]
  · have hadd : t.add r = (⟨t.groups.insert r.cardinality
        ((t.group r.cardinality).insert r.id r)⟩, true) := by
      simp [add, Table.contains_iff, hheld]
    rw [hadd]
    by_cases hc : c = r.cardinality
    · subst hc
      simp [group, Table.find?_insert] at hheld ⊢
      simp [hheld]
    · have hc' : ¬ r.cardinality = c := fun h => hc h.symm
      simp [group, Table.find?_insert, hc, hc']

theorem mem_group_add {t : RelationshipTable} {r s : Relationship} {c : Cardinality}
    {id : String} (h : (id, s) ∈ ((t.add r).1.group c).entries) :
    (id, s) ∈ (t.group c).entries ∨ (c = r.cardinality ∧ id = r.id ∧ s = r) := by
  rw [group_add] at h
  split at h
  · next hnew =>
    rcases Table.mem_entries_insert.mp h with ⟨hid, hs⟩ | ⟨-, hold⟩
    · exact .inr ⟨hnew.1, hid, hs⟩
    · exact .inl hold
  · exact .inl h

theorem mem_group_of_mem {t : RelationshipTable} {r s : Relationship} {c : Cardinality}
    {id : String} (h : (id, s) ∈ (t.group c).entries) :
    (id, s) ∈ ((t.add r).1.group c).entries := by
  rw [group_add]
  split
  · next hnew =>
    have hid : id ≠ r.id := fun heq => hnew.2 (Table.mem_keys.mpr ⟨s, heq ▸ h⟩)
    exact Table.mem_entries_insert.mpr (.inr ⟨hid, h⟩)
  · exact h

theorem Keyed.add {t : RelationshipTable} (h : t.Keyed) (r : Relationship) : (t.add r).1.Keyed := by
  intro c id s hs
  rcases mem_group_add hs with hold | ⟨hc, hid, rfl⟩
  · exact h c id s hold
  · exact ⟨hid, hc.symm⟩

theorem mem_toList_add_of_free {t : RelationshipTable} {r : Relationship}
    (h : r.id ∉ (t.group r.cardinality).keys) : r ∈ (t.add r).1.toList := by
  refine mem_toList.mpr ⟨r.cardinality, r.id, ?_⟩
  rw [group_add, if_pos ⟨rfl, h⟩]
  exact Table.mem_entries_insert.mpr (.inl ⟨rfl, rfl⟩)

theorem id_held_add {t : RelationshipTable} (h : t.Keyed) (r : Relationship) :
    ∃ s ∈ (t.add r).1.toList, s.id = r.id := by
  by_cases hheld : r.id ∈ (t.group r.cardinality).keys
  · obtain ⟨s, hs⟩ := Table.mem_keys.mp hheld
    exact ⟨s, mem_toList.mpr ⟨_, _, mem_group_of_mem hs⟩, (h _ _ s hs).1.symm⟩
  · exact ⟨r, mem_toList_add_of_free hheld, rfl⟩

theorem mem_toList_add {t : RelationshipTable} {r s : Relationship}
    (h : s ∈ (t.add r).1.toList) : s ∈ t.toList ∨ s = r := by
  obtain ⟨c, id, hs⟩ := mem_toList.mp h
  rcases mem_group_add hs with hold | ⟨-, -, hsr⟩
  · exact .inl (mem_toList.mpr ⟨c, id, hold⟩)
  · exact .inr hsr

theorem mem_toList_of_mem {t : RelationshipTable} (r : Relationship) {s : Relationship}
    (h : s ∈ t.toList) : s ∈ (t.add r).1.toList := by
  obtain ⟨c, id, hs⟩ := mem_toList.mp h
  exact mem_toList.mpr ⟨c, id, mem_group_of_mem hs⟩

theorem mem_keys_group_add {t : RelationshipTable} {r : Relationship} {c : Cardinality}
    {id : String} : id ∈ ((t.add r).1.group c).keys ↔
      id ∈ (t.group c).keys ∨ (c = r.cardinality ∧ id = r.id) := by
  rw [group_add]
  by_cases hnew : c = r.cardinality ∧ r.id ∉ (t.group c).keys
  · rw [if_pos hnew, Table.keys_insert, if_neg hnew.2, List.mem_append, List.mem_singleton]
    exact or_congr_right (and_iff_right hnew.1).symm
  · rw [if_neg hnew]
    refine (or_iff_left_of_imp ?_).symm
    rintro ⟨hc, rfl⟩
    by_contra hfree
    exact hnew ⟨hc, hfree⟩

theorem mem_toList_add_iff {t : RelationshipTable} {r s : Relationship} :
    s ∈ (t.add r).1.toList ↔ s ∈ t.toList ∨ (s = r ∧ r.id ∉ (t.group r.cardinality).keys) := by
  by_cases hheld : r.id ∈ (t.group r.cardinality).keys
  · simp [add_of_held hheld, hheld]
  · refine ⟨fun h => (mem_toList_add h).imp_right fun hs => ⟨hs, hheld⟩, ?_⟩
    rintro (h | ⟨rfl, -⟩)
    · exact mem_toList_of_mem r h
    · exact mem_toList_add_of_free hheld

/-- The collection with all relationships of a list added in turn. -/
def addAll (t : RelationshipTable) (l : List Relationship) : RelationshipTable :=
  l.foldl (fun t r => (t.add r).1) t

theorem Keyed.addAll {t : RelationshipTable} (h : t.Keyed) (l : List Relationship) :
    (t.addAll l).Keyed :=
  List.foldlRecOn l _ h fun _ hb r _ => hb.add r

theorem mem_toList_addAll {t : RelationshipTable} {l : List Relationship} {s : Relationship}
    (h : s ∈ (t.addAll l).toList) : s ∈ t.toList ∨ s ∈ l := by
  induction l generalizing t with
  | nil => exact .inl h
  | cons r rest ih =>
    rcases ih (t := (t.add r).1) h with hadd | hrest
    · exact (mem_toList_add hadd).imp_right fun hsr => by simp [hsr]
    · exact .inr (List.mem_cons_of_mem r hrest)

theorem mem_toList_addAll_of_mem {t : RelationshipTable} (l : List Relationship)
    {s : Relationship} (h : s ∈ t.toList) : s ∈ (t.addAll l).toList := by
  induction l generalizing t with
  | nil => exact h
  | cons r rest ih => exact ih (mem_toList_of_mem r h)

theorem id_held_addAll {t : RelationshipTable} (h : t.Keyed) {l : List Relationship}
    {r : Relationship} (hr : r ∈ l) : ∃ s ∈ (t.addAll l).toList, s.id = r.id := by
  induction l generalizing t with
  | nil => simp at hr
  | cons x rest ih =>
    rcases List.mem_cons.mp hr with rfl | hrest
    · obtain ⟨s, hs, hid⟩ := id_held_add h r
      exact ⟨s, mem_toList_addAll_of_mem rest hs, hid⟩
    · exact ih (h.add x) hrest

/-- Of relationships with distinct identities, those are added whose identity is free. -/
theorem mem_toList_addAll_iff {t : RelationshipTable} {l : List Relationship} {s : Relationship}
    (hl : ∀ r ∈ l, ∀ r' ∈ l, r.id = r'.id → r = r') :
    s ∈ (t.addAll l).toList ↔
      s ∈ t.toList ∨ (s ∈ l ∧ s.id ∉ (t.group s.cardinality).keys) := by
  induction l generalizing t with
  | nil => simp [addAll]
  | cons r rest ih =>
    have hrest := ih (t := (t.add r).1) fun x hx y hy =>
      hl x (List.mem_cons_of_mem r hx) y (List.mem_cons_of_mem r hy)
    rw [show t.addAll (r :: rest) = (t.add r).1.addAll rest from rfl, hrest, mem_toList_add_iff,
      mem_keys_group_add, List.mem_cons]
    by_cases hs : s = r
    · subst hs
      simp
    · have hid : s ∈ rest → s.id ≠ r.id := fun hmem hid =>
        hs (hl s (List.mem_cons_of_mem r hmem) r List.mem_cons_self hid)
      constructor
      · rintro ((h | ⟨h, -⟩) | ⟨hmem, hfree⟩)
        · exact .inl h
        · exact absurd h hs
        · exact .inr ⟨.inr hmem, fun h => hfree (.inl h)⟩
      · rintro (h | ⟨h | hmem, hfree⟩)
        · exact .inl (.inl h)
        · exact absurd h hs
        · exact .inr ⟨hmem, fun h => h.elim hfree fun h => hid hmem h.2⟩

/-! ## Groups with members -/

/-- The relationships of each cardinality. -/
def members (t : RelationshipTable) : List (Cardinality × List Relationship) :=
  t.groups.entries.map fun g => (g.1, g.2.values)

/-- No cardinality is kept without relationships. -/
def Full (t : RelationshipTable) : Prop := ∀ g ∈ t.members, g.2 ≠ []

theorem Full.add {t : RelationshipTable} (h : t.Full) (r : Relationship) : (t.add r).1.Full := by
  unfold RelationshipTable.add
  simp only
  split
  · exact h
  · intro g hg
    obtain ⟨⟨c, u⟩, hu, rfl⟩ := List.mem_map.mp hg
    rcases Table.mem_entries_insert.mp hu with ⟨rfl, rfl⟩ | ⟨-, hold⟩
    · have hmem : r.id ∈ ((t.group r.cardinality).insert r.id r).keys :=
        Table.mem_keys_insert.mpr (.inl rfl)
      obtain ⟨s, hs⟩ := Table.mem_keys.mp hmem
      exact List.ne_nil_of_mem (Table.mem_values.mpr ⟨r.id, hs⟩)
    · exact h _ (List.mem_map.mpr ⟨_, hold, rfl⟩)

theorem mem_toList_of_mem_members {t : RelationshipTable} {g : Cardinality × List Relationship}
    (hg : g ∈ t.members) {r : Relationship} (hr : r ∈ g.2) : r ∈ t.toList := by
  obtain ⟨⟨c, u⟩, hu, rfl⟩ := List.mem_map.mp hg
  obtain ⟨id, hid⟩ := Table.mem_values.mp hr
  exact mem_toList.mpr ⟨c, id, group_of_mem hu ▸ hid⟩

theorem Full.blocks_eq {t : RelationshipTable} (h : t.Full) :
    t.blocks = t.members.map fun g =>
      Relationship.blockText g.1 (g.2.map Relationship.memberText) := by
  have hall : (t.groups.entries.filter fun g => !g.2.isEmpty) = t.groups.entries := by
    refine List.filter_eq_self.mpr fun g hg => ?_
    have hne := h _ (List.mem_map.mpr ⟨g, hg, rfl⟩)
    simpa [Table.isEmpty, Table.values] using hne
  rw [blocks, hall, members, List.map_map]
  rfl

theorem members_eq (t : RelationshipTable) :
    t.members = t.groups.keys.map fun c => (c, t.ofCardinality c) := by
  rw [members, Table.keys, List.map_map]
  refine List.map_congr_left fun g hg => ?_
  rw [Function.comp_apply, ofCardinality, group_of_mem hg]

theorem toList_eq_flatMap (t : RelationshipTable) :
    t.toList = t.groups.keys.flatMap t.ofCardinality := by
  rw [toList, Table.values, Table.keys, List.flatMap_map, List.flatMap_map]
  refine List.flatMap_congr fun g hg => ?_
  rw [ofCardinality, group_of_mem hg]

theorem size_eq_length (t : RelationshipTable) : t.size = t.toList.length := by
  have hsum : ∀ (l : List (Table String Relationship)) (n : Nat),
      l.foldl (fun n g => n + g.size) n = n + (l.flatMap Table.values).length := by
    intro l
    induction l with
    | nil => exact fun n => rfl
    | cons g rest ih =>
      intro n
      rw [List.foldl_cons, ih, List.flatMap_cons, List.length_append, Table.values, List.length_map,
        Table.size, Nat.add_assoc]
  rw [size, hsum, Nat.zero_add, toList]

theorem Full.isEmpty_eq {t : RelationshipTable} (h : t.Full) : t.isEmpty = t.members.isEmpty := by
  have hlist : t.toList = t.members.flatMap Prod.snd := by
    rw [toList_eq_flatMap, members_eq, List.flatMap_map]
  rw [isEmpty, size_eq_length, hlist, Bool.eq_iff_iff, beq_iff_eq, List.length_eq_zero_iff,
    List.flatMap_eq_nil_iff, List.isEmpty_iff]
  constructor
  · intro hnone
    exact List.eq_nil_iff_forall_not_mem.mpr fun g hg => h g hg (hnone g hg)
  · intro hnil
    simp [hnil]

end RelationshipTable
end DomainModel
