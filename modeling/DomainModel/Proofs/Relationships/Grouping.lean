import DomainModel.Proofs.Relationships.Ends
/-!
# The order of relationships in a collection

Adding relationships in turn groups them by cardinality, in the order in which cardinalities occur
first. Taking them from the groups again, entity by entity and those with fields in both ends first,
finds the cardinalities in the same order, so the groups stay as they are.
-/
namespace DomainModel

section FirstOccurrences
variable {ι κ : Type} [DecidableEq κ]

theorem nodup_eraseDups (l : List κ) : l.eraseDups.Nodup := by
  induction l using List.reverseRecOn with
  | nil => simp
  | append_singleton l a ih =>
    rw [eraseDups_concat]
    split
    · exact ih
    · next h =>
      refine List.nodup_append.mpr ⟨ih, List.nodup_singleton a, ?_⟩
      rintro x hx y hy rfl
      rw [List.mem_singleton.mp hy] at hx
      exact h (List.mem_eraseDups.mp hx)

theorem eraseDups_of_constant {l : List κ} {c : κ} (hmem : c ∈ l) (h : ∀ x ∈ l, x = c) :
    l.eraseDups = [c] := by
  obtain ⟨x, rest, rfl⟩ := List.exists_cons_of_ne_nil (List.ne_nil_of_mem hmem)
  obtain ⟨rfl, hrest⟩ := List.forall_mem_cons.mp h
  have hnil : rest.filter (fun y => !y == x) = [] := by
    simpa [List.filter_eq_nil_iff] using hrest
  rw [List.eraseDups_cons, hnil]
  rfl

theorem eraseDups_append_congr {l l' : List κ} (h : l.eraseDups = l'.eraseDups) (r : List κ) :
    (l ++ r).eraseDups = (l' ++ r).eraseDups := by
  have hmem : ∀ a, a ∈ l ↔ a ∈ l' := by
    intro a
    rw [← List.mem_eraseDups, h, List.mem_eraseDups]
  have hremove : r.removeAll l = r.removeAll l' := by
    refine List.filter_congr fun a _ => ?_
    simp [hmem a]
  rw [List.eraseDups_append, List.eraseDups_append, h, hremove]

/-- The members of a list picked out in a given order occur first in that order. -/
theorem eraseDups_flatMap_filter {order l : List κ} (horder : order.Nodup)
    (h : ∀ c ∈ order, c ∈ l) :
    (order.flatMap fun c => l.filter fun x => x = c).eraseDups = order := by
  induction order with
  | nil => rfl
  | cons c rest ih =>
    obtain ⟨hc, hrest⟩ := List.nodup_cons.mp horder
    obtain ⟨hmem, hmems⟩ := List.forall_mem_cons.mp h
    have hfirst : (l.filter fun x => x = c).eraseDups = [c] :=
      eraseDups_of_constant (List.mem_filter.mpr ⟨hmem, by simp⟩)
        fun x hx => by simpa using (List.mem_filter.mp hx).2
    have hapart : (rest.flatMap fun d => l.filter fun x => x = d).removeAll
        (l.filter fun x => x = c) = rest.flatMap fun d => l.filter fun x => x = d := by
      refine List.filter_eq_self.mpr fun x hx => ?_
      obtain ⟨d, hd, hx⟩ := List.mem_flatMap.mp hx
      obtain rfl : x = d := by simpa using (List.mem_filter.mp hx).2
      have hne : x ≠ c := fun heq => hc (heq ▸ hd)
      simp [hne]
    rw [List.flatMap_cons, List.eraseDups_append, hfirst, hapart, ih hrest hmems]
    rfl

/-- Sorting each of several lists by the order of first occurrence in all of them does not change
that order. -/
theorem eraseDups_sorted {order : List κ} (horder : order.Nodup) (f : ι → List κ) {keys : List ι}
    (h : (keys.flatMap f).eraseDups <+: order) :
    (keys.flatMap fun n => order.flatMap fun c => (f n).filter fun x => x = c).eraseDups =
      (keys.flatMap f).eraseDups := by
  induction keys using List.reverseRecOn with
  | nil => rfl
  | append_singleton keys n ih =>
    rw [List.flatMap_append, List.flatMap_singleton] at h ⊢
    rw [List.eraseDups_append] at h
    have hbefore := ih ((List.prefix_append _ _).trans h)
    rw [List.flatMap_append, List.flatMap_singleton, eraseDups_append_congr hbefore,
      List.eraseDups_append, List.eraseDups_append]
    congr 1
    -- what the list of `n` adds are the members of `order` right after those met before
    generalize keys.flatMap f = before at h
    obtain ⟨later, rfl⟩ := h
    set new := (f n).removeAll before
    have hnew : (List.flatMap (fun c => (f n).filter fun x => x = c)
        (before.eraseDups ++ new.eraseDups ++ later)).removeAll before =
          (before.eraseDups ++ new.eraseDups ++ later).flatMap fun c =>
            new.filter fun x => x = c := by
      simp only [List.removeAll, List.filter_flatMap, new]
      exact List.flatMap_congr fun c _ => List.filter_comm _ _ _
    have hmem : ∀ c ∈ new, c ∉ before := by
      intro c hc
      simpa using (List.mem_filter.mp hc).2
    have hbeforeNil : (before.eraseDups.flatMap fun c => new.filter fun x => x = c) = [] := by
      refine List.flatMap_eq_nil_iff.mpr fun c hc => List.filter_eq_nil_iff.mpr fun x hx heq => ?_
      obtain rfl : x = c := by simpa using heq
      exact hmem x hx (List.mem_eraseDups.mp hc)
    have hlaterNil : (later.flatMap fun c => new.filter fun x => x = c) = [] := by
      refine List.flatMap_eq_nil_iff.mpr fun c hc => List.filter_eq_nil_iff.mpr fun x hx heq => ?_
      obtain rfl : x = c := by simpa using heq
      exact (List.nodup_append.mp horder).2.2 x
        (List.mem_append_right _ (List.mem_eraseDups.mpr hx)) x hc rfl
    rw [hnew, List.flatMap_append, List.flatMap_append, hbeforeNil, hlaterNil, List.nil_append,
      List.append_nil]
    exact eraseDups_flatMap_filter (nodup_eraseDups new) fun c hc => List.mem_eraseDups.mp hc

end FirstOccurrences

namespace Relationship

/-- The relationships by cardinality, the cardinalities in order of first occurrence. -/
def grouped (l : List Relationship) : List Relationship :=
  (l.map cardinality).eraseDups.flatMap fun c => l.filter fun r => r.cardinality = c

/-- The relationships by their sources, in the order of `names`. -/
def bySource (names : List String) (l : List Relationship) : List Relationship :=
  names.flatMap fun n => l.filter fun r => r.source = n

/-- The relationships in the order in which pairing finds them: first those with fields in both
ends, then the others, both by their sources. -/
def paired (names : List String) (l : List Relationship) : List Relationship :=
  bySource names (l.filter fun r => r.isMutual) ++ bySource names (l.filter fun r => !r.isMutual)

/-- Fields are injected in both ends of the relationship unless it leads many to one. -/
def Oriented (r : Relationship) : Prop := r.isMutual = true ↔ r.cardinality ≠ .manyToOne

variable {names : List String} {l : List Relationship} {c : Cardinality}

private theorem filter_constant (l : List Relationship) {order : List Cardinality}
    (horder : order.Nodup) : (order.flatMap fun d => l.filter fun r => r.cardinality = d).filter
      (fun r => r.cardinality = c) =
        if c ∈ order then l.filter fun r => r.cardinality = c else [] := by
  induction order with
  | nil => rfl
  | cons d rest ih =>
    obtain ⟨hd, hrest⟩ := List.nodup_cons.mp horder
    rw [List.flatMap_cons, List.filter_append, ih hrest, List.filter_filter]
    by_cases hc : c = d
    · subst hc
      simp [hd]
    · have hnil : (l.filter fun r => decide (r.cardinality = c) && decide (r.cardinality = d)) =
          [] := by
        refine List.filter_eq_nil_iff.mpr fun r _ hr => hc ?_
        obtain ⟨hrc, hrd⟩ := Bool.and_eq_true_iff.mp hr
        exact (of_decide_eq_true hrc).symm.trans (of_decide_eq_true hrd)
      simp [hnil, hc]

theorem filter_grouped (l : List Relationship) (c : Cardinality) :
    (grouped l).filter (fun r => r.cardinality = c) = l.filter fun r => r.cardinality = c := by
  rw [grouped, filter_constant l (nodup_eraseDups _)]
  split
  · rfl
  · next hc =>
    refine (List.filter_eq_nil_iff.mpr fun r hr heq => hc ?_).symm
    exact List.mem_eraseDups.mpr (List.mem_map.mpr ⟨r, hr, of_decide_eq_true heq⟩)

theorem mem_grouped {r : Relationship} : r ∈ grouped l ↔ r ∈ l := by
  simp only [grouped, List.mem_flatMap, List.mem_eraseDups, List.mem_map, List.mem_filter,
    decide_eq_true_eq]
  constructor
  · rintro ⟨c, -, hr, -⟩
    exact hr
  · intro hr
    exact ⟨r.cardinality, ⟨r, hr, rfl⟩, hr, rfl⟩

theorem filter_bySource (names : List String) (l : List Relationship) (p : Relationship → Bool) :
    (bySource names l).filter p = bySource names (l.filter p) := by
  rw [bySource, bySource, List.filter_flatMap]
  exact List.flatMap_congr fun n _ => List.filter_comm _ _ _

theorem filter_source_bySource (hnames : names.Nodup) {n : String} (hn : n ∈ names) :
    (bySource names l).filter (fun r => r.source = n) = l.filter fun r => r.source = n := by
  have hother : ∀ m ∈ names, m ≠ n →
      (l.filter fun r => r.source = m).filter (fun r => r.source = n) = [] := by
    intro m _ hne
    refine List.filter_eq_nil_iff.mpr fun r hr heq => hne ?_
    exact (of_decide_eq_true (List.mem_filter.mp hr).2).symm.trans (of_decide_eq_true heq)
  obtain ⟨before, after, rfl⟩ := List.append_of_mem hn
  have hdistinct := List.nodup_middle.mp hnames
  obtain ⟨hnew, -⟩ := List.nodup_cons.mp hdistinct
  have hnil : ∀ part : List String, (∀ m ∈ part, m ∈ before ++ after) →
      (part.flatMap fun m => (l.filter fun r => r.source = m).filter fun r => r.source = n) =
        [] := by
    intro part hpart
    refine List.flatMap_eq_nil_iff.mpr fun m hm => hother m ?_ ?_
    · rcases List.mem_append.mp (hpart m hm) with h | h <;> simp [h]
    · rintro rfl
      exact hnew (hpart m hm)
  rw [bySource, List.filter_flatMap, List.flatMap_append, List.flatMap_cons,
    hnil before fun m hm => List.mem_append_left _ hm,
    hnil after fun m hm => List.mem_append_right _ hm, List.filter_filter]
  simp

theorem bySource_bySource (hnames : names.Nodup) (l : List Relationship) :
    bySource names (bySource names l) = bySource names l :=
  List.flatMap_congr fun _ hn => filter_source_bySource hnames hn

theorem filter_paired (h : ∀ r ∈ l, r.Oriented) :
    (paired names l).filter (fun r => r.cardinality = c) =
      bySource names (l.filter fun r => r.cardinality = c) := by
  have hside : ∀ b : Bool, (b = true ↔ c ≠ .manyToOne) →
      ∀ r ∈ l.filter (fun r => r.cardinality = c), r.isMutual = b := by
    intro b hb r hr
    obtain ⟨hr, hc⟩ := List.mem_filter.mp hr
    have horiented : r.isMutual = true ↔ r.cardinality ≠ .manyToOne := h r hr
    rw [Bool.eq_iff_iff, horiented, of_decide_eq_true hc, hb]
  rw [paired, List.filter_append, filter_bySource, filter_bySource, List.filter_comm,
    List.filter_comm _ fun r : Relationship => !r.isMutual]
  by_cases hc : c = .manyToOne
  · have hno := hside false (by simp [hc])
    rw [List.filter_eq_nil_iff.mpr fun r hr => by simp [hno r hr],
      List.filter_eq_self.mpr fun r hr => by simp [hno r hr]]
    simp [bySource]
  · have hyes := hside true (by simp [hc])
    have hnil : ((l.filter fun r => r.cardinality = c).filter fun r => !r.isMutual) = [] :=
      List.filter_eq_nil_iff.mpr fun r hr => by simp [hyes r hr]
    rw [List.filter_eq_self.mpr hyes, hnil]
    simp [bySource]

theorem mem_paired (h : ∀ r ∈ l, r.source ∈ names) {r : Relationship} :
    r ∈ paired names l ↔ r ∈ l := by
  simp only [paired, bySource, List.mem_append, List.mem_flatMap, List.mem_filter,
    decide_eq_true_eq, Bool.not_eq_true']
  constructor
  · rintro (⟨_, -, ⟨hr, -⟩, -⟩ | ⟨_, -, ⟨hr, -⟩, -⟩) <;> exact hr
  · intro hr
    cases hmutual : r.isMutual with
    | true => exact .inl ⟨r.source, h r hr, ⟨hr, rfl⟩, rfl⟩
    | false => exact .inr ⟨r.source, h r hr, ⟨hr, rfl⟩, rfl⟩

private theorem nodup_bySource (hnames : names.Nodup) (hl : l.Nodup) :
    (bySource names l).Nodup := by
  refine List.nodup_flatMap.mpr ⟨fun n _ => hl.filter _, hnames.imp fun {n k} hne r hr hr' => ?_⟩
  have hn := of_decide_eq_true (List.mem_filter.mp hr).2
  exact hne (hn.symm.trans (of_decide_eq_true (List.mem_filter.mp hr').2))

theorem nodup_paired (hnames : names.Nodup) (hl : l.Nodup) : (paired names l).Nodup := by
  refine List.nodup_append.mpr ⟨nodup_bySource hnames (hl.filter _),
    nodup_bySource hnames (hl.filter _), ?_⟩
  rintro r hr s hs rfl
  rw [← filter_bySource] at hr hs
  have hno := (List.mem_filter.mp hs).2
  rw [(List.mem_filter.mp hr).2] at hno
  exact Bool.false_ne_true hno

private theorem filter_unmutual (h : ∀ r ∈ l, r.Oriented) :
    (l.filter fun r => !r.isMutual) = l.filter fun r => r.cardinality = .manyToOne := by
  refine List.filter_congr fun r hr => ?_
  have horiented : r.isMutual = true ↔ r.cardinality ≠ .manyToOne := h r hr
  by_cases hc : r.cardinality = .manyToOne <;> simp_all

private theorem cardinalities_of_grouped (hnames : names.Nodup) (h : ∀ r ∈ l, r.Oriented)
    {n : String} (hn : n ∈ names) :
    (((grouped (paired names l)).filter fun r => r.isMutual).filter fun r => r.source = n).map
        cardinality =
      ((paired names l).map cardinality).eraseDups.flatMap fun c =>
        (((l.filter fun r => r.isMutual).filter fun r => r.source = n).map cardinality).filter
          fun d => d = c := by
  rw [grouped, List.filter_flatMap, List.filter_flatMap, List.map_flatMap]
  refine List.flatMap_congr fun c _ => ?_
  rw [filter_paired h, filter_bySource, filter_source_bySource hnames hn, List.filter_map]
  congr 1
  simp only [List.filter_filter]
  refine List.filter_congr fun r _ => ?_
  simp only [Function.comp_apply, Bool.and_comm, Bool.and_left_comm]

/-- Pairing and grouping once more changes nothing. -/
theorem grouped_paired (hnames : names.Nodup) (h : ∀ r ∈ l, r.Oriented)
    (hsource : ∀ r ∈ l, r.source ∈ names) :
    grouped (paired names (grouped (paired names l))) = grouped (paired names l) := by
  have hagain : ∀ r ∈ grouped (paired names l), r.Oriented :=
    fun r hr => h r ((mem_paired hsource).mp (mem_grouped.mp hr))
  have hfilter : ∀ c, (paired names (grouped (paired names l))).filter
      (fun r => r.cardinality = c) = (paired names l).filter fun r => r.cardinality = c := by
    intro c
    rw [filter_paired hagain, filter_grouped, filter_paired h, bySource_bySource hnames]
  have horder : ((paired names (grouped (paired names l))).map cardinality).eraseDups =
      ((paired names l).map cardinality).eraseDups := by
    have hrest : bySource names ((grouped (paired names l)).filter fun r => !r.isMutual) =
        bySource names (l.filter fun r => !r.isMutual) := by
      rw [filter_unmutual hagain, filter_unmutual h, filter_grouped, filter_paired h,
        bySource_bySource hnames]
    have hprefix : ((bySource names (l.filter fun r => r.isMutual)).map cardinality).eraseDups <+:
        ((paired names l).map cardinality).eraseDups := by
      rw [paired, List.map_append, List.eraseDups_append]
      exact List.prefix_append _ _
    rw [paired, List.map_append, hrest]
    conv_rhs => rw [paired, List.map_append]
    refine eraseDups_append_congr ?_ _
    rw [bySource, List.map_flatMap] at hprefix
    rw [bySource, bySource, List.map_flatMap, List.map_flatMap, ← eraseDups_sorted
      (nodup_eraseDups _) _ hprefix]
    exact congrArg List.eraseDups
      (List.flatMap_congr fun n hn => cardinalities_of_grouped hnames h hn)
  conv_lhs => rw [grouped, horder]
  conv_rhs => rw [grouped]
  exact List.flatMap_congr fun c _ => hfilter c

end Relationship

namespace RelationshipTable
open Relationship

theorem addAll_grouped {l : List Relationship} (hids : (l.map Relationship.id).Nodup) :
    ((∅ : RelationshipTable).addAll l).groups.keys = (l.map cardinality).eraseDups ∧
      ∀ c, (((∅ : RelationshipTable).addAll l).group c).entries =
        (l.filter fun r => r.cardinality = c).map fun r => (r.id, r) := by
  induction l using List.reverseRecOn with
  | nil => exact ⟨rfl, fun _ => rfl⟩
  | append_singleton l r ih =>
    rw [List.map_append, List.nodup_append] at hids
    obtain ⟨hl, -, hnew⟩ := hids
    obtain ⟨hkeys, hgroups⟩ := ih hl
    have hadd : (∅ : RelationshipTable).addAll (l ++ [r]) =
        (((∅ : RelationshipTable).addAll l).add r).1 := List.foldl_concat _ _ _ _
    have hfree : r.id ∉ (((∅ : RelationshipTable).addAll l).group r.cardinality).keys := by
      rw [Table.keys, hgroups, List.map_map]
      intro hheld
      obtain ⟨s, hs, hid⟩ := List.mem_map.mp hheld
      exact hnew s.id (List.mem_map_of_mem (List.mem_filter.mp hs).1) r.id (by simp) hid
    refine ⟨?_, fun c => ?_⟩
    · have hgroup : (((∅ : RelationshipTable).addAll l).add r).1.groups =
          ((∅ : RelationshipTable).addAll l).groups.insert r.cardinality
            ((((∅ : RelationshipTable).addAll l).group r.cardinality).insert r.id r) := by
        simp [add, Table.contains_iff, hfree]
      rw [hadd, hgroup, Table.keys_insert, hkeys, List.map_append, List.map_singleton,
        eraseDups_concat]
      simp only [List.mem_eraseDups]
    · rw [hadd, group_add, List.filter_append, List.map_append]
      by_cases hc : c = r.cardinality
      · subst hc
        rw [if_pos ⟨rfl, hfree⟩, Table.entries_insert_of_notMem r hfree, hgroups]
        simp
      · have hc' : ¬ r.cardinality = c := fun heq => hc heq.symm
        rw [if_neg fun hboth => hc hboth.1, hgroups]
        simp [hc']

/-- Relationships with distinct identities stand in a collection as `grouped` says. -/
theorem toList_addAll {l : List Relationship} (hids : (l.map Relationship.id).Nodup) :
    ((∅ : RelationshipTable).addAll l).toList = grouped l := by
  obtain ⟨hkeys, hgroups⟩ := addAll_grouped hids
  rw [toList_eq_flatMap, hkeys, grouped]
  refine List.flatMap_congr fun c _ => ?_
  rw [ofCardinality, Table.values, hgroups, List.map_map]
  exact List.map_id _

end RelationshipTable
end DomainModel
