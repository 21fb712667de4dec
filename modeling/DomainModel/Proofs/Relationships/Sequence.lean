import DomainModel.Proofs.Pairing.Sequence
import DomainModel.Proofs.Relationships.Normal
import Mathlib.Data.List.Perm.Subperm
/-!
# The order of relationships read back

Pairs are found by the ends from which relationships are told in normal form. Read back, the
relationships of a model therefore stand by their cardinalities, within these first those with
fields in both ends and then the others, and within these by their sources.
-/
namespace DomainModel

namespace Relationship
variable {m : Model} {r : Relationship}

/-- The end from which the relationship is told in normal form. -/
def lead (r : Relationship) : RelationshipEnd :=
  if r.isMutual = true ∧ r.cardinality = .manyToOne then r.destinationEnd else r.sourceEnd

theorem Regular.source_normalized (h : r.Regular m) : r.normalized.source = r.lead.entity := by
  rcases h.normalized_cases with ⟨hmutual, -, hnormal⟩ | ⟨-, hcard, hnormal⟩ |
    ⟨hmutual, hcard, hnormal⟩
  · simp [hnormal, lead, hmutual, plain, sourceEnd]
  · simp [hnormal, lead, hcard, plain, sourceEnd]
  · simp [hnormal, lead, hmutual, hcard, plain, flipped, destinationEnd]

theorem Regular.lead_mem (h : r.Regular m) : r.lead ∈ r.statedEnds := by
  rw [h.statedEnds_eq, lead]
  by_cases hmutual : r.isMutual = true
  · rw [if_pos hmutual]
    split <;> simp
  · simp [hmutual]

theorem sourceEnd_isSource (r : Relationship) :
    r.sourceEnd.isSource = true ↔ r.cardinality ≠ .manyToOne := by
  cases hcard : r.cardinality <;> simp [RelationshipEnd.isSource, RelationshipEnd.isOwner,
    sourceEnd, sourceEntry, hcard, Cardinality.hasOwnerSide]

theorem destinationEnd_isSource (r : Relationship) :
    r.destinationEnd.isSource = true ↔ r.cardinality = .manyToOne := by
  cases hcard : r.cardinality <;> simp [RelationshipEnd.isSource, RelationshipEnd.isOwner,
    destinationEnd, destinationEntry, hcard, Cardinality.hasOwnerSide, Cardinality.reversed]

theorem Regular.lead_isSource (h : r.Regular m) : r.lead.isSource = r.isMutual := by
  rcases h.normalized_cases with ⟨hmutual, hcard, -⟩ | ⟨hmutual, hcard, -⟩ | ⟨hmutual, hcard, -⟩
  · rw [Bool.eq_iff_iff, lead, if_neg (by simp [hmutual]), sourceEnd_isSource]
    simp [hmutual, hcard]
  · rw [Bool.eq_iff_iff, lead, if_neg (by simp [hcard]), sourceEnd_isSource]
    simp [hmutual, hcard]
  · rw [Bool.eq_iff_iff, lead, if_pos ⟨hmutual, hcard⟩, destinationEnd_isSource]
    simp [hmutual, hcard]

theorem Regular.eq_lead_of_isSource (h : r.Regular m) {e : RelationshipEnd}
    (he : e ∈ r.statedEnds) (hsource : e.isSource = true) : e = r.lead := by
  rw [h.statedEnds_eq, List.mem_cons, List.mem_ite_nil_right, List.mem_singleton] at he
  rcases he with rfl | ⟨hmutual, rfl⟩
  · rw [lead, if_neg fun hcard => (sourceEnd_isSource r).mp hsource hcard.2]
  · rw [lead, if_pos ⟨hmutual, (destinationEnd_isSource r).mp hsource⟩]

theorem sourceEnd_ne_destinationEnd (r : Relationship) : r.sourceEnd ≠ r.destinationEnd := by
  intro heq
  have hiff : r.cardinality ≠ .manyToOne ↔ r.cardinality = .manyToOne := by
    rw [← sourceEnd_isSource, heq, destinationEnd_isSource]
  exact (not_iff_self hiff).elim

theorem Regular.filter_lead_endsAt (h : r.Regular m) (name : String) :
    (r.endsAt name).filter (fun e => e = r.lead) =
      if r.lead.entity = name then [r.lead] else [] := by
  have hne := r.sourceEnd_ne_destinationEnd
  by_cases hbehind : r.isMutual = true ∧ r.cardinality = .manyToOne
  · have hentry := h.hasDestinationEntry.mpr hbehind.1
    have hlead : r.lead = r.destinationEnd := if_pos hbehind
    have hentity : r.destinationEnd.entity = r.destination := rfl
    by_cases hsource : r.source = name <;> by_cases hdestination : r.destination = name <;>
      simp [endsAt, hlead, hentity, hentry, hne, hsource, hdestination]
  · have hlead : r.lead = r.sourceEnd := if_neg hbehind
    have hentity : r.sourceEnd.entity = r.source := rfl
    by_cases hsource : r.source = name <;>
      by_cases hdestination : r.destination = name ∧ r.hasDestinationEntry = true <;>
      simp [endsAt, hlead, hentity, hne.symm, hsource, hdestination]

end Relationship

namespace Model
open Relationship
variable {m : Model} {start : Int} {r s : Relationship}

/-- The relationships with fields in both ends, or the others, by the entities of their leading
ends. -/
private def byLead (m : Model) (both : Bool) : List Relationship :=
  m.entities.keys.flatMap fun name =>
    (m.relationships.toList.filter fun r => r.isMutual = both).filter fun r =>
      r.lead.entity = name

private theorem mem_of_mem_byLead {both : Bool} (h : r ∈ m.byLead both) :
    r ∈ m.relationships.toList := by
  obtain ⟨_, -, h⟩ := List.mem_flatMap.mp h
  exact (List.mem_filter.mp (List.mem_filter.mp h).1).1

private theorem flatMap_ite {α β : Type} (l : List α) (p : α → Bool) (f : α → β) :
    (l.flatMap fun a => if p a then [f a] else []) = (l.filter p).map f := by
  induction l with
  | nil => rfl
  | cons a rest ih =>
    rw [List.flatMap_cons, ih, List.filter_cons]
    by_cases ha : p a <;> simp [ha]

private theorem lead_iff (hm : m.Describable) (hr : r ∈ m.relationships.toList)
    {e : RelationshipEnd} (he : e ∈ r.statedEnds) :
    e ∈ m.relationships.toList.map lead ↔ e = r.lead := by
  constructor
  · intro hlead
    obtain ⟨s, hs, rfl⟩ := List.mem_map.mp hlead
    rw [hm.relationship_of_end hr hs he (hm.regular s hs).lead_mem]
  · rintro rfl
    exact List.mem_map_of_mem hr

private theorem filter_leads (hw : m.WellFormed) (hm : m.Describable) (start : Int)
    (both : Bool) :
    ((allEnds (m.toDescriptors start)).filter fun e => e.isSource = both).filter
      (fun e => e ∈ m.relationships.toList.map lead) = (m.byLead both).map lead := by
  rw [allEnds_toDescriptors hw, byLead, List.filter_flatMap, List.filter_flatMap, List.map_flatMap]
  refine List.flatMap_congr fun name _ => ?_
  rw [List.filter_flatMap, List.filter_flatMap, List.filter_filter, ← flatMap_ite]
  refine List.flatMap_congr fun r hr => ?_
  have hregular := hm.regular r hr
  have hleads : ∀ e ∈ r.endsAt name, decide (e ∈ m.relationships.toList.map lead) =
      decide (e = r.lead) := by
    intro e he
    rw [decide_eq_decide]
    refine lead_iff hm hr (mem_statedEnds.mpr ?_)
    rcases mem_endsAt.mp he with ⟨-, rfl⟩ | ⟨-, hentry, rfl⟩
    · exact .inl rfl
    · exact .inr ⟨hentry, rfl⟩
  rw [List.filter_comm, List.filter_congr hleads, hregular.filter_lead_endsAt]
  by_cases hname : r.lead.entity = name <;> by_cases hboth : r.isMutual = both <;>
    simp [hname, hboth, hregular.lead_isSource]

private theorem lead_of_ledBy (hw : m.WellFormed) (hm : m.Describable) {p : PairedEnds}
    (hp : p ∈ pairEnds (m.toDescriptors start)) {e : RelationshipEnd} (he : p.LedBy e) :
    e ∈ m.relationships.toList.map lead ∧
      ∀ r ∈ m.relationships.toList, r.lead = e → p.relationship = r.normalized := by
  obtain ⟨r, hr, hrelationship, hends⟩ := relationship_of_pair hw hm hp
  have hregular := hm.regular r hr
  have hstated := (hends e).mp he.1
  have hlead : e = r.lead := by
    cases hmutual : r.isMutual with
    | false =>
      have hlead := hregular.lead_mem
      rw [hregular.statedEnds_eq, if_neg (by simp [hmutual]), List.mem_singleton] at hstated hlead
      rw [hstated, hlead]
    | true =>
      have hsource := he.2 r.lead ((hends _).mpr hregular.lead_mem)
        (by rw [hregular.lead_isSource, hmutual])
      exact hregular.eq_lead_of_isSource hstated hsource
  refine ⟨hlead ▸ List.mem_map_of_mem hr, fun s hs hsame => ?_⟩
  rw [hrelationship, hm.relationship_of_end hr hs hstated (hsame ▸ (hm.regular s hs).lead_mem)]

private theorem exists_of_mem_right {α β : Type} {R : α → β → Prop} {l : List α} {u : List β}
    (h : List.Forall₂ R l u) {b : β} (hb : b ∈ u) : ∃ a ∈ l, R a b := by
  induction h with
  | nil => simp at hb
  | cons hR _ ih =>
    rcases List.mem_cons.mp hb with rfl | hb
    · exact ⟨_, List.mem_cons_self, hR⟩
    · obtain ⟨a, ha, hR⟩ := ih hb
      exact ⟨a, List.mem_cons_of_mem _ ha, hR⟩

private theorem leads_eq (hw : m.WellFormed) (hm : m.Describable) {leads : List RelationshipEnd}
    (hsub : leads.Sublist ((allEnds (m.toDescriptors start)).filter RelationshipEnd.isSource ++
      (allEnds (m.toDescriptors start)).filter fun e => !e.isSource))
    (hled : List.Forall₂ (fun e p => PairedEnds.LedBy p e) leads
      (pairEnds (m.toDescriptors start)))
    (hleads : ∀ e ∈ leads, e ∈ m.relationships.toList.map lead) :
    leads = (m.byLead true ++ m.byLead false).map lead := by
  have hsources := filter_leads hw hm start true
  have hothers := filter_leads hw hm start false
  simp only [Bool.decide_eq_true, Bool.decide_eq_false] at hsources hothers
  have hfilter := hsub.filter fun e => e ∈ m.relationships.toList.map lead
  rw [List.filter_eq_self.mpr fun e he => decide_eq_true (hleads e he), List.filter_append,
    hsources, hothers, ← List.map_append] at hfilter
  have hnodup : ((m.byLead true ++ m.byLead false).map lead).Nodup := by
    rw [List.map_append, ← hsources, ← hothers, ← List.filter_append]
    refine List.Nodup.filter _ ((List.filter_append_perm _ _).nodup_iff.mpr ?_)
    exact (hm.tidy hw start).distinct.of_map
  refine hfilter.eq_of_length_le (List.subperm_of_subset hnodup fun e he => ?_).length_le
  obtain ⟨r, hr, rfl⟩ := List.mem_map.mp he
  have hr : r ∈ m.relationships.toList :=
    (List.mem_append.mp hr).elim mem_of_mem_byLead mem_of_mem_byLead
  obtain ⟨p, hp, -, hends⟩ := exists_pair hw hm hr
  obtain ⟨e, he, hledBy⟩ := exists_of_mem_right hled hp
  rwa [← (lead_iff hm hr ((hends e).mp hledBy.1)).mp (hleads e he)]

private theorem bySource_normalized (hm : m.Describable) (p : Relationship → Bool) (both : Bool)
    (hp : ∀ r ∈ m.relationships.toList, p r.normalized = decide (r.isMutual = both)) :
    bySource m.entities.keys ((m.relationships.toList.map normalized).filter p) =
      (m.byLead both).map normalized := by
  rw [bySource, byLead, List.map_flatMap]
  refine List.flatMap_congr fun name _ => ?_
  have hkind : m.relationships.toList.filter (p ∘ normalized) =
      m.relationships.toList.filter fun r => r.isMutual = both := List.filter_congr hp
  rw [List.filter_map, List.filter_map, hkind]
  refine congrArg _ (List.filter_congr fun r hr => ?_)
  rw [Function.comp_apply, (hm.regular r (List.mem_filter.mp hr).1).source_normalized]

/-- Pairing finds the relationships in normal form: first those with fields in both ends, then the
others, both by their sources. -/
theorem pairRelationships_toDescriptors (hw : m.WellFormed) (hm : m.Describable) (start : Int) :
    pairRelationships (m.toDescriptors start) =
      paired m.entities.keys (m.relationships.toList.map normalized) := by
  obtain ⟨leads, hsub, hled⟩ := exists_leads (m.toDescriptors start)
  have htold : List.Forall₂ (fun e p => e ∈ m.relationships.toList.map lead ∧
      ∀ r ∈ m.relationships.toList, r.lead = e → p.relationship = r.normalized) leads
        (pairEnds (m.toDescriptors start)) := by
    rw [List.forall₂_iff_zip] at hled ⊢
    exact ⟨hled.1, fun hx => lead_of_ledBy hw hm (List.of_mem_zip hx).2 (hled.2 hx)⟩
  obtain ⟨hleads, htold⟩ := (List.forall₂_and_left _ _).mp htold
  rw [leads_eq hw hm hsub hled hleads, List.forall₂_map_left_iff] at htold
  have hmutual : ∀ r ∈ m.relationships.toList, r.normalized.isMutual = r.isMutual :=
    fun r hr => (hm.regular r hr).isMutual_normalized
  rw [paired, bySource_normalized hm _ true fun r hr => by simp [hmutual r hr],
    bySource_normalized hm _ false fun r hr => by simp [hmutual r hr], ← List.map_append,
    pairRelationships, eq_comm, ← List.forall₂_eq_eq_eq, List.forall₂_map_left_iff,
    List.forall₂_map_right_iff]
  rw [List.forall₂_iff_zip] at htold ⊢
  refine ⟨htold.1, fun {r p} hx => ?_⟩
  have hr : r ∈ m.relationships.toList :=
    (List.mem_append.mp (List.of_mem_zip hx).1).elim mem_of_mem_byLead mem_of_mem_byLead
  exact (htold.2 hx r hr rfl).symm

end Model
end DomainModel
