import DomainModel.Proofs.Pairing.Run
import Mathlib.Data.List.Forall2
/-!
# The order in which pairs are found

Each pair is found by one of its ends, which leads it. The leading ends stand in the order in which
the run treats ends, and no pair is led by another end while one of its own is a source.
-/
namespace DomainModel
namespace PairingState
variable {entities : Descriptors} {ends : List RelationshipEnd} {s s' : PairingState}

/-- A pair led by a numbered end; none of its ends had been used in the given state. -/
private def Leads (ends : List RelationshipEnd) (s : PairingState) (x : RelationshipEnd × Nat)
    (p : PairedEnds) : Prop :=
  x ∈ p.members ∧ ∀ y ∈ p.members, ends[y.2]? = some y.1 ∧ y.2 ∉ s.used

private theorem Leads.of_subset {x : RelationshipEnd × Nat} {p : PairedEnds}
    (h : Leads ends s' x p) (hsub : s.used ⊆ s'.used) : Leads ends s x p :=
  ⟨h.1, fun y hy => ⟨(h.2 y hy).1, fun hused => (h.2 y hy).2 (hsub hused)⟩⟩

private theorem found_step {x : RelationshipEnd × Nat} (hx : ends[x.2]? = some x.1)
    (h : Step entities ends s x.1 x.2 s') :
    s'.found = s.found ∨ ∃ p, s'.found = s.found ++ [p] ∧ Leads ends s x p := by
  cases h with
  | passed => exact .inl rfl
  | dangling => exact .inl rfl
  | alone hnew target =>
    refine .inr ⟨.alone x.2 x.1 target, rfl, by simp [PairedEnds.members], fun y hy => ?_⟩
    rw [show y = x by simpa [PairedEnds.members] using hy]
    exact ⟨hx, hnew⟩
  | joined hnew target otherNumber other htarget hpartner =>
    obtain ⟨name, -, -, hother, hfree, -⟩ := partner?_eq_some_iff.mp hpartner
    refine .inr ⟨_, rfl, mem_members_join.mpr (.inl rfl), fun y hy => ?_⟩
    rcases mem_members_join.mp hy with rfl | rfl
    · exact ⟨hx, hnew⟩
    · exact ⟨hother, fun hused => hfree (List.mem_cons_of_mem _ hused)⟩

private theorem found_foldl {order : List (RelationshipEnd × Nat)}
    (horder : ∀ x ∈ order, ends[x.2]? = some x.1) (s : PairingState) :
    ∃ leads pairs, leads.Sublist order ∧
      (order.foldl (step entities ends) s).found = s.found ++ pairs ∧
      List.Forall₂ (fun x p => x ∈ order ∧ Leads ends s x p) leads pairs := by
  induction order generalizing s with
  | nil => exact ⟨[], [], .slnil, by simp, .nil⟩
  | cons x rest ih =>
    obtain ⟨hx, hrest⟩ := List.forall_mem_cons.mp horder
    obtain ⟨leads, pairs, hsub, hfound, hleads⟩ := ih hrest (step entities ends s x)
    have hkept := (used_step (step_spec entities ends s x.1 x.2)).2
    have hleads' : List.Forall₂ (fun y p => y ∈ x :: rest ∧ Leads ends s y p) leads pairs :=
      hleads.imp fun y p hp => ⟨List.mem_cons_of_mem x hp.1, hp.2.of_subset hkept⟩
    rcases found_step hx (step_spec entities ends s x.1 x.2) with hsame | ⟨p, hnew, hp⟩
    · exact ⟨leads, pairs, hsub.cons x, by rw [List.foldl_cons, hfound, hsame], hleads'⟩
    · refine ⟨x :: leads, p :: pairs, hsub.cons_cons x, ?_, .cons ⟨List.mem_cons_self, hp⟩ hleads'⟩
      rw [List.foldl_cons, hfound, hnew, List.append_assoc]
      rfl

end PairingState

/-- The pair contains the end, which is a source if any end of the pair is one. -/
def PairedEnds.LedBy (p : PairedEnds) (e : RelationshipEnd) : Prop :=
  e ∈ p.members.map Prod.fst ∧
    ∀ f ∈ p.members.map Prod.fst, f.isSource = true → e.isSource = true

open PairingState in
/-- Pairs are found in the order of the ends that lead them, source ends first. -/
theorem exists_leads (entities : Descriptors) : ∃ leads : List RelationshipEnd,
    leads.Sublist ((allEnds entities).filter RelationshipEnd.isSource ++
      (allEnds entities).filter fun e => !e.isSource) ∧
    List.Forall₂ (fun e p => p.LedBy e) leads (pairEnds entities) := by
  set ends := allEnds entities
  set sources := ends.zipIdx.filter fun x => x.1.isSource
  set others := ends.zipIdx.filter fun x => !x.1.isSource
  have hnumbered : ∀ x ∈ ends.zipIdx, ends[x.2]? = some x.1 :=
    fun x hx => List.mem_zipIdx_iff_getElem?.mp hx
  obtain ⟨leads, pairs, hsub, hfound, hleads⟩ := found_foldl
    (fun x (hx : x ∈ sources) => hnumbered x (List.mem_filter.mp hx).1) ⟨[], []⟩
  set s := sources.foldl (step entities ends) ⟨[], []⟩ with hs
  obtain ⟨leads', pairs', hsub', hfound', hleads'⟩ := found_foldl
    (fun x (hx : x ∈ others) => hnumbered x (List.mem_filter.mp hx).1) s
  -- all sources are used when the other ends are treated
  have hused : ∀ x : RelationshipEnd × Nat, ends[x.2]? = some x.1 → x.1.isSource = true →
      x.2 ∈ s.used := fun x hx hsource => used_foldl.2 x
    (List.mem_filter.mpr ⟨List.mem_zipIdx_iff_getElem?.mpr hx, hsource⟩)
  have hpairs : pairEnds entities = pairs ++ pairs' := by
    have hrun : pairEnds entities = (others.foldl (step entities ends) s).found := by
      rw [hs, ← List.foldl_append]
      rfl
    rw [hrun, hfound', hfound]
    rfl
  have hfst : ∀ q : RelationshipEnd → Bool,
      (ends.zipIdx.filter fun x => q x.1).map Prod.fst = ends.filter q := by
    intro q
    conv_rhs => rw [← List.zipIdx_map_fst 0 ends, List.filter_map]
    rfl
  refine ⟨(leads ++ leads').map Prod.fst, ?_, ?_⟩
  · rw [← hfst, ← hfst, ← List.map_append]
    exact (hsub.append hsub').map Prod.fst
  · rw [hpairs, List.forall₂_map_left_iff]
    refine List.rel_append (hleads.imp ?_) (hleads'.imp ?_)
    · rintro x p ⟨hx, hmember, -⟩
      exact ⟨List.mem_map_of_mem hmember, fun _ _ _ => (List.mem_filter.mp hx).2⟩
    · rintro x p ⟨-, hmember, hfree⟩
      refine ⟨List.mem_map_of_mem hmember, fun f hf hsource => ?_⟩
      obtain ⟨y, hy, rfl⟩ := List.mem_map.mp hf
      exact absurd (hused y (hfree y hy).1 hsource) (hfree y hy).2

end DomainModel
