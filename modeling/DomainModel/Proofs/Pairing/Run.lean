import DomainModel.Descriptor.Pairing
import DomainModel.Proofs.Tables
import Mathlib.Data.List.Nodup
/-!
# The run of the pairing loop

What one step can do, and what a whole run keeps: every end is treated, none stands in two pairs,
and every pair found is an end that leads somewhere, alone or with a partner that it claims.
-/
namespace DomainModel

theorem mem_allEnds {entities : Descriptors} {e : RelationshipEnd} :
    e ∈ allEnds entities ↔ ∃ d, (e.entity, d) ∈ entities.entries ∧
      e.descriptor ∈ d.relationships ∧
      Cardinality.ofDescriptorWord? e.descriptor.type = some e.cardinality := by
  simp only [allEnds, endsOf, List.mem_flatMap, List.mem_filterMap, Option.map_eq_some_iff]
  constructor
  · rintro ⟨⟨name, d⟩, hd, r, hr, c, hc, rfl⟩
    exact ⟨d, hd, hr, hc⟩
  · rintro ⟨d, hd, hr, hc⟩
    exact ⟨(e.entity, d), hd, e.descriptor, hr, e.cardinality, hc, rfl⟩

theorem entity_mem_keys {entities : Descriptors} {e : RelationshipEnd}
    (h : e ∈ allEnds entities) : e.entity ∈ entities.keys := by
  obtain ⟨d, hd, -, -⟩ := mem_allEnds.mp h
  exact Table.mem_keys.mpr ⟨d, hd⟩

theorem resolveTarget_eq_some {entities : Descriptors} {other target : String}
    (h : resolveTarget entities other = some target) :
    target = upperFirst other ∧ (target ∈ entities.keys ∨ target = userEntityName) := by
  simp only [resolveTarget] at h
  split at h
  · next hname =>
    have ht : upperFirst other = target := by simpa using h
    subst ht
    refine ⟨rfl, ?_⟩
    rcases Bool.or_eq_true_iff.mp hname with hkey | huser
    · exact .inl (Table.contains_iff.mp hkey)
    · exact .inr (by simpa [Entity.isUser] using huser)
  · simp at h

/-- `e` leads to an entity, names `f` there, and takes it for its partner. -/
def RelationshipEnd.Claims (entities : Descriptors) (e f : RelationshipEnd) : Prop :=
  ∃ target, resolveTarget entities e.descriptor.otherEntity = some target ∧
    lowerFirst f.entity = lowerFirst target ∧
    e.descriptor.otherName = some f.descriptor.name ∧ e.isPartner f = true

theorem endNumber?_eq_some {ends : List RelationshipEnd} {entity name : String} {number : Nat}
    (h : endNumber? ends entity name = some number) :
    ∃ f, ends[number]? = some f ∧ lowerFirst f.entity = lowerFirst entity ∧
      f.descriptor.name = name := by
  obtain ⟨⟨f, n⟩, hfind, hn⟩ := Option.map_eq_some_iff.mp h
  have hn : n = number := hn
  subst hn
  have hmem := List.mem_reverse.mp (List.mem_of_find?_eq_some hfind)
  have hnames := List.find?_some hfind
  rw [List.mem_zipIdx_iff_getElem?] at hmem
  simp only [Bool.and_eq_true, beq_iff_eq] at hnames
  exact ⟨f, hmem, hnames.1, hnames.2⟩

theorem endNumber?_isSome {ends : List RelationshipEnd} {entity name : String} {number : Nat}
    {f : RelationshipEnd} (hf : ends[number]? = some f)
    (hentity : lowerFirst f.entity = lowerFirst entity) (hname : f.descriptor.name = name) :
    (endNumber? ends entity name).isSome = true := by
  have hmem : (f, number) ∈ ends.zipIdx.reverse :=
    List.mem_reverse.mpr (List.mem_zipIdx_iff_getElem?.mpr hf)
  simp only [endNumber?, Option.isSome_map, List.find?_isSome]
  exact ⟨(f, number), hmem, by simp [hentity, hname]⟩

namespace PairedEnds

/-- The numbered ends of which a pair consists. -/
def members : PairedEnds → List (RelationshipEnd × Nat)
  | alone number e _ => [(e, number)]
  | joined sourceNumber source destinationNumber destination =>
    [(source, sourceNumber), (destination, destinationNumber)]

/-- An end alone leads to its target; of two joined ends one claims the other, and the source is
the one that the claiming end takes for it. -/
def Sound (entities : Descriptors) : PairedEnds → Prop
  | alone _ e target => resolveTarget entities e.descriptor.otherEntity = some target
  | joined _ source _ destination =>
    (source.Claims entities destination ∧
        PairingState.otherIsSource source destination = false) ∨
      (destination.Claims entities source ∧
        PairingState.otherIsSource destination source = true)

end PairedEnds

namespace PairingState

/-- The joined pair of a claiming end and the end it claims, in the order of the relationship. -/
def join (number : Nat) (e : RelationshipEnd) (otherNumber : Nat) (other : RelationshipEnd) :
    PairedEnds :=
  if otherIsSource e other then .joined otherNumber other number e
  else .joined number e otherNumber other

theorem mem_members_join {number otherNumber : Nat} {e other : RelationshipEnd}
    {x : RelationshipEnd × Nat} :
    x ∈ (join number e otherNumber other).members ↔ x = (e, number) ∨ x = (other, otherNumber) := by
  unfold join
  split
  · simp [PairedEnds.members, or_comm]
  · simp [PairedEnds.members]

theorem join_sound {entities : Descriptors} {number otherNumber : Nat}
    {e other : RelationshipEnd} (h : e.Claims entities other) :
    (join number e otherNumber other).Sound entities := by
  unfold join
  split
  · next hs => exact .inr ⟨h, hs⟩
  · next hs => exact .inl ⟨h, by simpa using hs⟩

theorem partner?_eq_some_iff {s : PairingState} {ends : List RelationshipEnd}
    {e other : RelationshipEnd} {target : String} {number : Nat} :
    s.partner? ends e target = some (number, other) ↔
      ∃ name, e.descriptor.otherName = some name ∧ endNumber? ends target name = some number ∧
        ends[number]? = some other ∧ number ∉ s.used ∧ e.isPartner other = true := by
  unfold partner?
  simp only [Option.bind_eq_bind, Option.bind_eq_some_iff]
  constructor
  · rintro ⟨name, hname, n, hn, f, hf, hif⟩
    split at hif
    · next hfree =>
      have heq : n = number ∧ f = other := by simpa using hif
      obtain ⟨rfl, rfl⟩ := heq
      exact ⟨name, hname, hn, hf, hfree.1, hfree.2⟩
    · simp at hif
  · rintro ⟨name, hname, hn, hf, hfree⟩
    exact ⟨name, hname, number, hn, other, hf, by simp [hfree]⟩

theorem claims_of_partner? {entities : Descriptors} {s : PairingState}
    {ends : List RelationshipEnd} {e other : RelationshipEnd} {target : String} {number : Nat}
    (htarget : resolveTarget entities e.descriptor.otherEntity = some target)
    (h : s.partner? ends e target = some (number, other)) : e.Claims entities other := by
  obtain ⟨name, hname, hn, hf, -, hpartner⟩ := partner?_eq_some_iff.mp h
  obtain ⟨f, hf', hentity, hfname⟩ := endNumber?_eq_some hn
  have hfo : f = other := by simpa [hf'] using hf
  subst hfo
  exact ⟨target, htarget, hentity, by rw [hname, hfname], hpartner⟩

/-- What one step makes of a state. -/
inductive Step (entities : Descriptors) (ends : List RelationshipEnd) (s : PairingState)
    (e : RelationshipEnd) (number : Nat) : PairingState → Prop where
  | passed (hused : number ∈ s.used) : Step entities ends s e number s
  | dangling (hnew : number ∉ s.used)
      (htarget : resolveTarget entities e.descriptor.otherEntity = none) :
      Step entities ends s e number { s with used := number :: s.used }
  | alone (hnew : number ∉ s.used) (target : String)
      (htarget : resolveTarget entities e.descriptor.otherEntity = some target)
      (hfree : { s with used := number :: s.used }.partner? ends e target = none) :
      Step entities ends s e number
        { used := number :: s.used, found := s.found ++ [.alone number e target] }
  | joined (hnew : number ∉ s.used) (target : String) (otherNumber : Nat)
      (other : RelationshipEnd)
      (htarget : resolveTarget entities e.descriptor.otherEntity = some target)
      (hpartner : { s with used := number :: s.used }.partner? ends e target =
        some (otherNumber, other)) :
      Step entities ends s e number
        { used := otherNumber :: number :: s.used
          found := s.found ++ [join number e otherNumber other] }

theorem step_spec (entities : Descriptors) (ends : List RelationshipEnd) (s : PairingState)
    (e : RelationshipEnd) (number : Nat) :
    Step entities ends s e number (step entities ends s (e, number)) := by
  by_cases hused : number ∈ s.used
  · simpa [step, hused] using Step.passed hused
  · cases htarget : resolveTarget entities e.descriptor.otherEntity with
    | none => simpa [step, hused, htarget] using Step.dangling hused htarget
    | some target =>
      cases hpartner : { s with used := number :: s.used }.partner? ends e target with
      | none =>
        simpa [step, hused, htarget, hpartner] using Step.alone hused target htarget hpartner
      | some found =>
        simpa [step, hused, htarget, hpartner, join] using
          Step.joined hused target found.1 found.2 htarget hpartner

/-- The state after all ends have been treated. -/
def final (entities : Descriptors) : PairingState :=
  (pairingOrder (allEnds entities)).foldl (step entities (allEnds entities)) ⟨[], []⟩

theorem mem_pairingOrder {ends : List RelationshipEnd} {e : RelationshipEnd} {number : Nat} :
    (e, number) ∈ pairingOrder ends ↔ ends[number]? = some e := by
  have hzip : (e, number) ∈ ends.zipIdx ↔ ends[number]? = some e := List.mem_zipIdx_iff_getElem?
  rw [← hzip]
  simp only [pairingOrder, List.mem_append, List.mem_filter, Bool.not_eq_true']
  cases e.isSource <;> simp

/-- What every step that treats a member of the order keeps, treating the order keeps. -/
theorem foldl_induction {entities : Descriptors} {ends : List RelationshipEnd}
    {order : List (RelationshipEnd × Nat)} (P : PairingState → Prop)
    (hstep : ∀ s s', ∀ x ∈ order, Step entities ends s x.1 x.2 s' → P s → P s')
    {s : PairingState} (hs : P s) : P (order.foldl (step entities ends) s) :=
  List.foldlRecOn order _ hs fun s hs x hx => hstep s _ x hx (step_spec entities ends s x.1 x.2) hs

/-- What holds at the start and is kept by every step holds after the run. -/
theorem final_induction {entities : Descriptors} (P : PairingState → Prop) (hstart : P ⟨[], []⟩)
    (hstep : ∀ s e number s', (allEnds entities)[number]? = some e →
      Step entities (allEnds entities) s e number s' → P s → P s') : P (final entities) :=
  foldl_induction P
    (fun s s' x hx h hs => hstep s x.1 x.2 s' (mem_pairingOrder.mp hx) h hs) hstart

theorem used_step {entities : Descriptors} {ends : List RelationshipEnd} {s s' : PairingState}
    {e : RelationshipEnd} {number : Nat} (h : Step entities ends s e number s') :
    number ∈ s'.used ∧ s.used ⊆ s'.used := by
  cases h with
  | passed hused => exact ⟨hused, List.Subset.refl _⟩
  | dangling => exact ⟨by simp, List.subset_cons_self _ _⟩
  | alone => exact ⟨by simp, List.subset_cons_self _ _⟩
  | joined => exact ⟨by simp, fun n hn => by simp [hn]⟩

theorem subset_found_foldl {entities : Descriptors} {ends : List RelationshipEnd}
    {s : PairingState} {order : List (RelationshipEnd × Nat)} :
    s.found ⊆ (order.foldl (step entities ends) s).found := by
  refine foldl_induction (fun s' => s.found ⊆ s'.found) ?_ (List.Subset.refl _)
  intro s₁ s₂ x _ hstep hsub
  cases hstep with
  | passed | dangling => exact hsub
  | alone | joined => exact fun p hp => List.mem_append_left _ (hsub hp)

theorem used_foldl {entities : Descriptors} {ends : List RelationshipEnd} {s : PairingState}
    {order : List (RelationshipEnd × Nat)} :
    s.used ⊆ (order.foldl (step entities ends) s).used ∧
      ∀ x ∈ order, x.2 ∈ (order.foldl (step entities ends) s).used := by
  induction order generalizing s with
  | nil => exact ⟨List.Subset.refl _, by simp⟩
  | cons x rest ih =>
    obtain ⟨hnumber, hkept⟩ := used_step (step_spec entities ends s x.1 x.2)
    obtain ⟨hlater, hrest⟩ := ih (s := step entities ends s x)
    exact ⟨fun n hn => hlater (hkept hn), List.forall_mem_cons.mpr ⟨hlater hnumber, hrest⟩⟩

theorem used_final {entities : Descriptors} {number : Nat} {e : RelationshipEnd}
    (h : (allEnds entities)[number]? = some e) : number ∈ (final entities).used :=
  used_foldl.2 (e, number) (mem_pairingOrder.mpr h)

/-- What the run has done so far: no end stands in two pairs, the ends in pairs are treated ones,
every pair is sound, and a treated end that leads somewhere stands in a pair. -/
structure Accounted (entities : Descriptors) (s : PairingState) : Prop where
  distinct : ((s.found.flatMap PairedEnds.members).map Prod.snd).Nodup
  numbered : ∀ x ∈ s.found.flatMap PairedEnds.members,
    (allEnds entities)[x.2]? = some x.1 ∧ x.2 ∈ s.used
  sound : ∀ p ∈ s.found, p.Sound entities
  kept : ∀ number ∈ s.used, ∀ e, (allEnds entities)[number]? = some e →
    (resolveTarget entities e.descriptor.otherEntity).isSome = true →
      (e, number) ∈ s.found.flatMap PairedEnds.members

private theorem accounted_push {entities : Descriptors} {s : PairingState} {p : PairedEnds}
    {used : List Nat} (hs : Accounted entities s) (hsub : s.used ⊆ used)
    (hnodup : (p.members.map Prod.snd).Nodup)
    (hmembers : ∀ x ∈ p.members, (allEnds entities)[x.2]? = some x.1 ∧ x.2 ∈ used ∧ x.2 ∉ s.used)
    (hsound : p.Sound entities)
    (hused : ∀ n ∈ used, n ∈ s.used ∨ n ∈ p.members.map Prod.snd) :
    Accounted entities { used := used, found := s.found ++ [p] } where
  distinct := by
    simp only [List.flatMap_append, List.flatMap_singleton, List.map_append]
    refine List.nodup_append.mpr ⟨hs.distinct, hnodup, ?_⟩
    intro n hn m hm hnm
    obtain ⟨x, hx, rfl⟩ := List.mem_map.mp hn
    obtain ⟨y, hy, rfl⟩ := List.mem_map.mp hm
    exact (hmembers y hy).2.2 (hnm ▸ (hs.numbered x hx).2)
  numbered := by
    intro x hx
    simp only [List.flatMap_append, List.flatMap_singleton, List.mem_append] at hx
    rcases hx with hx | hx
    · exact ⟨(hs.numbered x hx).1, hsub (hs.numbered x hx).2⟩
    · exact ⟨(hmembers x hx).1, (hmembers x hx).2.1⟩
  sound := by
    intro q hq
    rcases List.mem_append.mp hq with hq | hq
    · exact hs.sound q hq
    · rw [List.mem_singleton.mp hq]
      exact hsound
  kept := by
    intro n hn e he htarget
    simp only [List.flatMap_append, List.flatMap_singleton, List.mem_append]
    rcases hused n hn with hold | hnew
    · exact .inl (hs.kept n hold e he htarget)
    · obtain ⟨x, hx, rfl⟩ := List.mem_map.mp hnew
      have hxe : x.1 = e := by simpa [(hmembers x hx).1] using he
      exact .inr (by rw [← hxe]; exact hx)

theorem accounted_step {entities : Descriptors} {s s' : PairingState} {e : RelationshipEnd}
    {number : Nat} (he : (allEnds entities)[number]? = some e)
    (h : Step entities (allEnds entities) s e number s') (hs : Accounted entities s) :
    Accounted entities s' := by
  cases h with
  | passed => exact hs
  | dangling hnew htarget =>
    refine ⟨hs.distinct, fun x hx => ⟨(hs.numbered x hx).1, ?_⟩, hs.sound, ?_⟩
    · exact List.mem_cons_of_mem _ (hs.numbered x hx).2
    · intro n hn f hf hresolved
      rcases List.mem_cons.mp hn with rfl | hn
      · have hfe : e = f := by simpa [he] using hf
        simp [← hfe, htarget] at hresolved
      · exact hs.kept n hn f hf hresolved
  | alone hnew target htarget hfree =>
    apply accounted_push hs (List.subset_cons_self _ _)
    · simp [PairedEnds.members]
    · intro x hx
      rw [show x = (e, number) by simpa [PairedEnds.members] using hx]
      exact ⟨he, List.mem_cons_self, hnew⟩
    · exact htarget
    · intro n hn
      simpa [PairedEnds.members, or_comm] using hn
  | joined hnew target otherNumber other htarget hpartner =>
    obtain ⟨name, -, -, hother, hfree, -⟩ := partner?_eq_some_iff.mp hpartner
    have hne : otherNumber ≠ number := fun h => hfree (by simp [h])
    have hold : otherNumber ∉ s.used := fun h => hfree (by simp [h])
    apply accounted_push hs fun n hn => by simp [hn]
    · unfold join
      split <;> simp [PairedEnds.members, hne, hne.symm]
    · intro x hx
      rcases mem_members_join.mp hx with rfl | rfl
      · exact ⟨he, by simp, hnew⟩
      · exact ⟨hother, by simp, hold⟩
    · exact join_sound (claims_of_partner? htarget hpartner)
    · intro n hn
      rcases List.mem_cons.mp hn with rfl | hn
      · exact .inr (List.mem_map.mpr ⟨(other, n), mem_members_join.mpr (.inr rfl), rfl⟩)
      · rcases List.mem_cons.mp hn with rfl | hn
        · exact .inr (List.mem_map.mpr ⟨(e, n), mem_members_join.mpr (.inl rfl), rfl⟩)
        · exact .inl hn

theorem accounted_final (entities : Descriptors) : Accounted entities (final entities) := by
  apply final_induction
  · exact ⟨by simp, by simp, by simp, by simp⟩
  · exact fun s e number s' he h hs => accounted_step he h hs

end PairingState
end DomainModel
