import DomainModel.Proofs.Pairing.Accounting
import DomainModel.Proofs.Pairing.Partners
/-!
# Ends that belong together

Two ends that match are read as one relationship, whatever other ends say: an end treated earlier
can claim neither of them, so both are unused when the first of them is treated. The one-to-many end
or the only owner becomes the source, whichever is met first.
-/
namespace DomainModel

instance (r : Relationship) (e : RelationshipEnd) : Decidable (r.Represents e) :=
  inferInstanceAs (Decidable (_ ∨ _))

/-- Source ends are treated before the others, and ends of either kind in their order. -/
def TreatedBefore (x y : RelationshipEnd × Nat) : Prop :=
  (x.1.isSource = true ∧ y.1.isSource = false) ∨ (x.1.isSource = y.1.isSource ∧ x.2 < y.2)

section Schedule
variable {ends : List RelationshipEnd} {x y : RelationshipEnd × Nat}

theorem TreatedBefore.asymm (h : TreatedBefore x y) : ¬ TreatedBefore y x := by
  rintro (⟨hy, hx⟩ | ⟨hsame, hlt⟩)
  all_goals
    rcases h with ⟨hx', hy'⟩ | ⟨hsame', hlt'⟩
    · simp_all
    · first | omega | simp_all

theorem treatedBefore_total (hne : x.2 ≠ y.2) : TreatedBefore x y ∨ TreatedBefore y x := by
  unfold TreatedBefore
  rcases Nat.lt_or_gt_of_ne hne with hlt | hlt
  · cases x.1.isSource <;> cases y.1.isSource <;> simp [hlt]
  · cases x.1.isSource <;> cases y.1.isSource <;> simp [hlt]

theorem pairwise_treatedBefore : (pairingOrder ends).Pairwise TreatedBefore := by
  have hnumbers : ends.zipIdx.Pairwise fun x y => x.2 < y.2 := by
    rw [← List.pairwise_map (f := Prod.snd) (R := (· < ·)), List.zipIdx_map_snd]
    exact List.pairwise_lt_range'
  have hkind : ∀ kind : RelationshipEnd × Nat → Bool, ∀ b, (∀ x, kind x = true → x.1.isSource = b) →
      (ends.zipIdx.filter kind).Pairwise TreatedBefore := by
    intro kind b hb
    refine (hnumbers.filter kind).imp_of_mem fun hx hy hlt => .inr ⟨?_, hlt⟩
    rw [hb _ (List.mem_filter.mp hx).2, hb _ (List.mem_filter.mp hy).2]
  refine List.pairwise_append.mpr ⟨hkind _ true (by simp), hkind _ false (by simp), ?_⟩
  intro x hx y hy
  exact .inl ⟨(List.mem_filter.mp hx).2, by simpa using (List.mem_filter.mp hy).2⟩

end Schedule

namespace RelationshipEnd

/-- The field that the end injects: its name, and in parentheses the field of the other entity,
unless that is not given, empty or the identifier. -/
def field (e : RelationshipEnd) : String :=
  match e.descriptor.otherField with
  | none => e.descriptor.name
  | some shown =>
    if shown = "" ∨ shown = "id" then e.descriptor.name
    else e.descriptor.name ++ "(" ++ shown ++ ")"

theorem injectedText_eq_field (e : RelationshipEnd) : e.injectedText = e.field := by
  unfold injectedText field RelationshipDescriptor.injectedField InjectedField.text
  cases e.descriptor.otherField with
  | none => rfl
  | some shown =>
    by_cases hshown : shown = "" ∨ shown = "id"
    · rcases hshown with rfl | rfl <;> rfl
    · obtain ⟨hempty, hid⟩ := not_or.mp hshown
      have hkept : (some shown).filter (fun f => f != "id" && f != "") = some shown := by
        simp [hempty, hid]
      simp only [hkept, if_neg hshown]

/-- Both ends name each other, or only the first names the other: the one source end that does. -/
def Tells (entities : Descriptors) (e f : RelationshipEnd) : Prop :=
  e.descriptor.otherName = some f.descriptor.name ∧
    (f.descriptor.otherName = some e.descriptor.name ∨
      (f.descriptor.otherName = none ∧ e.isSource = true ∧ f.isSource = false ∧
        ∀ g ∈ allEnds entities, g.isSource = true → g.Names entities f → g = e))

/-- Two ends that can be told to belong together: each leads to the entity of the other, their
cardinalities are opposite, and one of them tells the other. -/
structure Matches (entities : Descriptors) (e f : RelationshipEnd) : Prop where
  cardinality : f.cardinality = e.cardinality.reversed
  leads : resolveTarget entities e.descriptor.otherEntity = some f.entity
  leadsBack : resolveTarget entities f.descriptor.otherEntity = some e.entity
  told : e.Tells entities f

/-- The first of two numbered ends is the side that their relationship leads from: the one-to-many
end, else the owner if there is only one, else the end stated first. -/
def IsFrom (e f : RelationshipEnd) (i j : Nat) : Prop :=
  e.cardinality = .oneToMany ∨ (f.cardinality ≠ .oneToMany ∧
    if e.isOwner = f.isOwner then i < j else e.isOwner = true)

instance (e f : RelationshipEnd) (i j : Nat) : Decidable (e.IsFrom f i j) :=
  inferInstanceAs (Decidable (_ ∨ _))

end RelationshipEnd

/-- The relationship leads from one end to the other and injects the field of each. -/
structure Relationship.Joins (r : Relationship) (e f : RelationshipEnd) : Prop where
  cardinality : r.cardinality = e.cardinality
  source : r.source = e.entity
  destination : r.destination = f.entity
  injectedInSource : r.injectedInSource = some e.field
  injectedInDestination : r.injectedInDestination = some f.field

theorem PairedEnds.joins_joined (i : Nat) (e : RelationshipEnd) (j : Nat) (f : RelationshipEnd) :
    (PairedEnds.joined i e j f).relationship.Joins e f :=
  ⟨rfl, rfl, rfl, congrArg some e.injectedText_eq_field, congrArg some f.injectedText_eq_field⟩

/-- Two numbered ends as a pair, led by the side that their relationship leads from. -/
def PairedEnds.ofEnds (i : Nat) (e : RelationshipEnd) (j : Nat) (f : RelationshipEnd) :
    PairedEnds :=
  if e.IsFrom f i j then .joined i e j f else .joined j f i e

namespace PairedEnds
variable {e f : RelationshipEnd} {i j : Nat}

theorem isFrom_swap (hne : i ≠ j) (hcard : f.cardinality = e.cardinality.reversed) :
    f.IsFrom e j i ↔ ¬ e.IsFrom f i j := by
  unfold RelationshipEnd.IsFrom
  rw [hcard]
  cases e.cardinality <;> cases e.isOwner <;> cases f.isOwner <;>
    simp [Cardinality.reversed] <;> omega

theorem ofEnds_swap (hne : i ≠ j) (hcard : f.cardinality = e.cardinality.reversed) :
    ofEnds j f i e = ofEnds i e j f := by
  simp only [ofEnds, isFrom_swap hne hcard]
  by_cases h : e.IsFrom f i j <;> simp [h]

/-- An end treated before its partner is joined with it in the order of the relationship. -/
theorem join_eq_ofEnds (hcard : f.cardinality = e.cardinality.reversed)
    (hbefore : TreatedBefore (e, i) (f, j)) : PairingState.join i e j f = ofEnds i e j f := by
  have hside : PairingState.otherIsSource e f = true ↔ ¬ e.IsFrom f i j := by
    unfold PairingState.otherIsSource RelationshipEnd.IsFrom
    unfold TreatedBefore RelationshipEnd.isSource at hbefore
    rw [hcard] at hbefore ⊢
    cases hc : e.cardinality <;> cases he : e.isOwner <;> cases hf : f.isOwner <;>
      simp_all [Cardinality.reversed, Cardinality.hasOwnerSide]
  unfold PairingState.join ofEnds
  by_cases h : e.IsFrom f i j <;> simp [h, hside]

end PairedEnds

section Greedy
variable {entities : Descriptors} {e f g : RelationshipEnd} {i j : Nat}

open PairingState in
theorem unused_of_unclaimed (hi : (allEnds entities)[i]? = some e)
    {before : List (RelationshipEnd × Nat)}
    (hfree : ∀ x ∈ before, x.2 ≠ i ∧ ¬ x.1.Claims entities e) :
    i ∉ (before.foldl (step entities (allEnds entities)) ⟨[], []⟩).used := by
  refine foldl_induction (fun s => i ∉ s.used) ?_ (by simp)
  intro s s' x hx hstep hs
  obtain ⟨hother, hunclaimed⟩ := hfree x hx
  cases hstep with
  | passed => exact hs
  | dangling => simp [hs, hother.symm]
  | alone => simp [hs, hother.symm]
  | joined hnew target n other htarget hpartner =>
    obtain ⟨-, -, -, hn, -, -⟩ := partner?_eq_some_iff.mp hpartner
    have hni : n ≠ i := by
      rintro rfl
      exact hunclaimed (Option.some.inj (hn.symm.trans hi) ▸ claims_of_partner? htarget hpartner)
    simp [hs, hother.symm, hni.symm]

open PairingState in
/-- An end is joined with the end that it claims, if no end treated earlier is the other or claims
one of the two. -/
theorem join_mem_pairEnds (h : entities.Keyed) (hi : (allEnds entities)[i]? = some e)
    (hj : (allEnds entities)[j]? = some f) (hne : i ≠ j) (hclaims : e.Claims entities f)
    (hfree : ∀ k g, (allEnds entities)[k]? = some g → TreatedBefore (g, k) (e, i) →
      k ≠ j ∧ ¬ g.Claims entities e ∧ ¬ g.Claims entities f) :
    join i e j f ∈ pairEnds entities := by
  obtain ⟨before, after, horder⟩ := List.append_of_mem (mem_pairingOrder.mpr hi)
  set s := before.foldl (step entities (allEnds entities)) ⟨[], []⟩ with hs
  have hearlier : ∀ x ∈ before, TreatedBefore x (e, i) ∧ (allEnds entities)[x.2]? = some x.1 := by
    intro x hx
    have hpairwise : (pairingOrder (allEnds entities)).Pairwise TreatedBefore :=
      pairwise_treatedBefore
    rw [horder] at hpairwise
    exact ⟨(List.pairwise_append.mp hpairwise).2.2 _ hx _ List.mem_cons_self,
      mem_pairingOrder.mp (horder ▸ List.mem_append_left _ hx)⟩
  have hi' : i ∉ s.used := by
    refine unused_of_unclaimed hi fun x hx => ?_
    obtain ⟨hbefore, hx⟩ := hearlier x hx
    refine ⟨?_, (hfree _ _ hx hbefore).2.1⟩
    intro hxi
    obtain rfl : x = (e, i) := Prod.ext (Option.some.inj (hx.symm.trans (hxi ▸ hi))) hxi
    exact hbefore.asymm hbefore
  have hj' : j ∉ s.used := by
    refine unused_of_unclaimed hj fun x hx => ?_
    obtain ⟨hbefore, hx⟩ := hearlier x hx
    exact ⟨(hfree _ _ hx hbefore).1, (hfree _ _ hx hbefore).2.2⟩
  have hstep : join i e j f ∈ (step entities (allEnds entities) s (e, i)).found := by
    have htarget := (h.names_of_claims (List.mem_of_getElem? hj) hclaims).1
    have hpartner : ({ s with used := i :: s.used } : PairingState).partner? (allEnds entities) e
        f.entity = some (j, f) :=
      partner?_of_claims h hj hclaims (by simp [hj', hne.symm])
    simp [step, hi', htarget, hpartner, join]
  have hrun : pairEnds entities = (after.foldl (step entities (allEnds entities))
      (step entities (allEnds entities) s (e, i))).found := by
    simp only [pairEnds, horder, List.foldl_append, List.foldl_cons, hs]
  rw [hrun]
  exact subset_found_foldl hstep

end Greedy

namespace RelationshipEnd.Matches
variable {entities : Descriptors} {e f g : RelationshipEnd} {i j : Nat}

theorem claims (h : entities.Plain) (hf : f ∈ allEnds entities) (hmatch : e.Matches entities f) :
    e.Claims entities f := by
  have hlower : lowerFirst f.descriptor.otherEntity = lowerFirst e.entity := by
    rw [(resolveTarget_eq_some hmatch.leadsBack).1, (isWord_case (h.isWord_otherEntity hf)).2]
  refine ⟨f.entity, hmatch.leads, rfl, hmatch.told.1, ?_⟩
  rcases hmatch.told.2 with hback | ⟨hback, -⟩ <;>
    simp [isPartner, hmatch.cardinality, hlower, hback]

theorem eq_of_claims (h : entities.Plain) (he : e ∈ allEnds entities) (hf : f ∈ allEnds entities)
    (hg : g ∈ allEnds entities) (hmatch : e.Matches entities f) (hclaims : g.Claims entities e) :
    g = f := by
  obtain ⟨-, -, -, -, hpartner⟩ := hclaims
  simp only [isPartner, hmatch.told.1, Bool.and_eq_true, beq_iff_eq] at hpartner
  obtain ⟨⟨-, hlower⟩, hname⟩ := hpartner
  have hentity : g.entity = f.entity := by
    rw [← upperFirst_lowerFirst (h.names _ (entity_mem_keys hg)), ← hlower,
      (isWord_case (h.isWord_otherEntity he)).1, (resolveTarget_eq_some hmatch.leads).1]
  exact h.keyed.end_unique hg hf (Prod.ext hentity hname.symm)

theorem symm (hmatch : e.Matches entities f)
    (hback : f.descriptor.otherName = some e.descriptor.name) : f.Matches entities e where
  cardinality := by rw [hmatch.cardinality, Cardinality.reversed_reversed]
  leads := hmatch.leadsBack
  leadsBack := hmatch.leads
  told := ⟨hback, .inl hmatch.told.1⟩

theorem join_mem (h : entities.Plain) (hi : (allEnds entities)[i]? = some e)
    (hj : (allEnds entities)[j]? = some f) (hmatch : e.Matches entities f)
    (hbefore : TreatedBefore (e, i) (f, j)) : PairingState.join i e j f ∈ pairEnds entities := by
  have he := List.mem_of_getElem? hi
  have hf := List.mem_of_getElem? hj
  have hclaims := hmatch.claims h hf
  have hne : i ≠ j := by
    rintro rfl
    obtain rfl : e = f := Option.some.inj (hi.symm.trans hj)
    exact hbefore.asymm hbefore
  refine join_mem_pairEnds h.keyed hi hj hne hclaims fun k g hk hearlier => ?_
  have hg := List.mem_of_getElem? hk
  have hother : g ≠ f := by
    rintro rfl
    obtain rfl := (h.keyed.number_unique hk hj rfl).1
    exact hbefore.asymm hearlier
  have hself : g ≠ e := by
    rintro rfl
    obtain rfl := (h.keyed.number_unique hk hi rfl).1
    exact hearlier.asymm hearlier
  refine ⟨?_, fun hclaim => hother (hmatch.eq_of_claims h he hf hg hclaim), fun hclaim => ?_⟩
  · rintro rfl
    exact hother (Option.some.inj (hk.symm.trans hj))
  · rcases hmatch.told.2 with hback | ⟨-, hsource, -, honly⟩
    · exact hself ((hmatch.symm hback).eq_of_claims h hf he hg hclaim)
    · -- ends treated before a source are sources, and only one source names `f`
      have hgsource : g.isSource = true := by
        rcases hearlier with ⟨hgsource, -⟩ | ⟨hsame, -⟩
        · exact hgsource
        · exact hsame.trans hsource
      exact hself (honly g hg hgsource (h.keyed.names_of_claims hf hclaim))

/-- Matching ends are found together, the source first. -/
theorem mem_pairEnds (h : entities.Plain) (hi : (allEnds entities)[i]? = some e)
    (hj : (allEnds entities)[j]? = some f) (hne : i ≠ j) (hmatch : e.Matches entities f) :
    PairedEnds.ofEnds i e j f ∈ pairEnds entities := by
  rcases treatedBefore_total (x := (e, i)) (y := (f, j)) hne with hbefore | hbefore
  · rw [← PairedEnds.join_eq_ofEnds hmatch.cardinality hbefore]
    exact hmatch.join_mem h hi hj hbefore
  · rcases hmatch.told.2 with hback | ⟨-, hsource, hother, -⟩
    · have hmatch' := hmatch.symm hback
      rw [← PairedEnds.ofEnds_swap hne hmatch.cardinality,
        ← PairedEnds.join_eq_ofEnds hmatch'.cardinality hbefore]
      exact hmatch'.join_mem h hj hi hbefore
    · simp [TreatedBefore, hsource, hother] at hbefore

end RelationshipEnd.Matches

section Result
variable {entities : Descriptors} {m : Model} {e f : RelationshipEnd} {i j : Nat}

theorem mem_members_ofEnds {x : RelationshipEnd × Nat} :
    x ∈ (PairedEnds.ofEnds i e j f).members ↔ x = (e, i) ∨ x = (f, j) := by
  unfold PairedEnds.ofEnds
  split
  · simp [PairedEnds.members]
  · simp [PairedEnds.members, or_comm]

theorem joins_ofEnds (i : Nat) (e : RelationshipEnd) (j : Nat) (f : RelationshipEnd) :
    if e.IsFrom f i j then (PairedEnds.ofEnds i e j f).relationship.Joins e f
    else (PairedEnds.ofEnds i e j f).relationship.Joins f e := by
  unfold PairedEnds.ofEnds
  split
  · exact PairedEnds.joins_joined i e j f
  · exact PairedEnds.joins_joined j f i e

/-- Where names are plain, a pair that represents a member of another pair is that pair. -/
theorem pair_unique (h : entities.Plain) {p q : PairedEnds} (hp : p ∈ pairEnds entities)
    (hq : q ∈ pairEnds entities) (hmember : (e, i) ∈ q.members)
    (hrepresents : p.relationship.Represents e) : p = q := by
  have hi := (mem_found hq).2 _ hmember
  have hmember' := member_of_represents h.keyed h.closed hp (List.mem_of_getElem? hi) hrepresents
  obtain ⟨⟨x, n⟩, hx, rfl⟩ := List.mem_map.mp hmember'
  obtain rfl := (h.keyed.number_unique ((mem_found hp).2 _ hx) hi rfl).1
  have hdistinct := (PairingState.accounted_final entities).distinct
  rw [List.map_flatMap] at hdistinct
  exact eq_of_nodup_flatMap hdistinct hp hq (List.mem_map_of_mem hx) (List.mem_map_of_mem hmember)

/-- Two stated ends that match are read as one relationship with a field in both ends, from the
one-to-many end or the only owner, and no other relationship contains either of them. -/
theorem toModel_joins_matching (hmodel : entities.toModel = .ok m) (h : entities.Plain)
    (hi : (allEnds entities)[i]? = some e) (hj : (allEnds entities)[j]? = some f) (hne : i ≠ j)
    (hmatch : e.Matches entities f) :
    m.relationships.toList.filter (fun s => s.Represents e ∨ s.Represents f) =
        [(PairedEnds.ofEnds i e j f).relationship] ∧
      if e.IsFrom f i j then (PairedEnds.ofEnds i e j f).relationship.Joins e f
      else (PairedEnds.ofEnds i e j f).relationship.Joins f e := by
  refine ⟨?_, joins_ofEnds i e j f⟩
  have hfound := hmatch.mem_pairEnds h hi hj hne
  have hpe : (PairedEnds.ofEnds i e j f).relationship.Represents e :=
    PairedEnds.represents_members (x := (e, i)) (mem_members_ofEnds.mpr (.inl rfl))
  have hpresent : (PairedEnds.ofEnds i e j f).relationship ∈ m.relationships.toList := by
    obtain ⟨p, hp, hs, hid⟩ := read_of_pair hmodel hfound
    have hrepresents := represents_of_id_eq h.unbraced hp hfound hid hpe
    exact pair_unique h hp hfound (mem_members_ofEnds.mpr (.inl rfl)) hrepresents ▸ hs
  have honly : ∀ s ∈ m.relationships.toList, s.Represents e ∨ s.Represents f →
      s = (PairedEnds.ofEnds i e j f).relationship := by
    intro s hs hrepresents
    obtain ⟨p, hp, rfl⟩ := pair_of_read hmodel hs
    rcases hrepresents with he | hf
    · rw [pair_unique h hp hfound (mem_members_ofEnds.mpr (.inl rfl)) he]
    · rw [pair_unique h hp hfound (mem_members_ofEnds.mpr (.inr rfl)) hf]
  have hnodup : m.relationships.toList.Nodup := by
    have hkeyed : m.relationships.Keyed :=
      Descriptors.toModel_relationships hmodel ▸ RelationshipTable.keyed_empty.addAll _
    exact hkeyed.ids_nodup.of_map _
  apply List.perm_singleton.mp
  refine (List.perm_ext_iff_of_nodup (hnodup.filter _) (List.nodup_singleton _)).mpr fun s => ?_
  rw [List.mem_filter, List.mem_singleton, decide_eq_true_iff]
  constructor
  · exact fun hs => honly s hs.1 hs.2
  · rintro rfl
    exact ⟨hpresent, .inl hpe⟩

/-- The pets of an owner, by their way back. -/
def petsOfOwner : RelationshipDescriptor :=
  { RelationshipDescriptor.named "one-to-many" "pet" "pet" with
    otherName := some "owner", otherField := some "name" }

/-- A pet says only that it has an owner, and a vet names the owner of the pet as well. -/
def clinic : Descriptors :=
  Table.ofList
    [("Pet", { EntityDescriptor.empty with relationships :=
        [RelationshipDescriptor.named "many-to-one" "owner" "owner"] }),
      ("Vet", { EntityDescriptor.empty with relationships :=
        [{ RelationshipDescriptor.named "many-to-one" "patient" "pet" with
            otherName := some "owner" }] }),
      ("Owner", { EntityDescriptor.empty with relationships := [petsOfOwner] })]

theorem clinic_joined : ∃ m, clinic.toModel = .ok m ∧ clinic.Plain ∧
    ∃ e f : RelationshipEnd, e.Matches clinic f ∧ e.entity = "Owner" ∧ f.entity = "Pet" ∧
      m.relationships.toList.filter (fun s => s.Represents e ∨ s.Represents f) =
          [(PairedEnds.joined 2 e 0 f).relationship] ∧
        (PairedEnds.joined 2 e 0 f).relationship.Joins e f := by
  have haccepted : (clinic.toModel.map fun _ => ()) = .ok () := by decide +kernel
  have hplain : clinic.Plain := ⟨by decide, by decide, by decide⟩
  let e : RelationshipEnd := ⟨"Owner", .oneToMany, petsOfOwner⟩
  let f : RelationshipEnd :=
    ⟨"Pet", .manyToOne, RelationshipDescriptor.named "many-to-one" "owner" "owner"⟩
  have hmatch : e.Matches clinic f :=
    ⟨by decide, by decide, by decide, by decide, .inr (by decide)⟩
  cases hread : clinic.toModel with
  | error failure => simp [hread, Except.map] at haccepted
  | ok m =>
    refine ⟨m, rfl, hplain, e, f, hmatch, rfl, rfl, ?_⟩
    exact toModel_joins_matching hread hplain (by decide) (by decide) (by decide) hmatch

end Result
end DomainModel
