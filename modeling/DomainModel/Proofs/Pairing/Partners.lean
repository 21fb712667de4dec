import DomainModel.Proofs.Pairing.Accounting
import DomainModel.Proofs.Text.Identifiers
/-!
# Partners

Where every end names another one and is told apart by its entity and name, a claim is mutual and
no end claims two. The pairing run then joins exactly the ends that claim each other, in whatever
order it meets them.
-/
namespace DomainModel

namespace RelationshipEnd

/-- What tells an end apart: its entity and its name there. -/
def key (e : RelationshipEnd) : String × String := (e.entity, e.descriptor.name)

/-- The end leads to the entity of `f` and names `f` there. -/
def Names (entities : Descriptors) (e f : RelationshipEnd) : Prop :=
  resolveTarget entities e.descriptor.otherEntity = some f.entity ∧
    e.descriptor.otherName = some f.descriptor.name

instance (entities : Descriptors) (e f : RelationshipEnd) : Decidable (e.Names entities f) :=
  inferInstanceAs (Decidable (_ ∧ _))

/-- The end claims no end but itself. -/
def Free (entities : Descriptors) (e : RelationshipEnd) : Prop :=
  ∀ f ∈ allEnds entities, e.Claims entities f → f = e

end RelationshipEnd

/-- Entities are capitalized, and no two ends have the same key. -/
structure Descriptors.Keyed (entities : Descriptors) : Prop where
  names : ∀ name ∈ entities.keys, isCapitalized name = true
  distinct : ((allEnds entities).map RelationshipEnd.key).Nodup

/-- Entities are capitalized, every end leads somewhere by a word and names an end there, and no two
ends have the same key. -/
structure Descriptors.Tidy (entities : Descriptors) : Prop where
  names : ∀ name ∈ entities.keys, isCapitalized name = true
  targets : ∀ e ∈ allEnds entities,
    isWord e.descriptor.otherEntity = true ∧ e.descriptor.otherName.isSome = true
  distinct : ((allEnds entities).map RelationshipEnd.key).Nodup

theorem resolveTarget_of_mem {entities : Descriptors} {other name : String}
    (hname : name ∈ entities.keys) (h : upperFirst other = name) :
    resolveTarget entities other = some name := by
  simp [resolveTarget, h, Table.contains_iff.mpr hname]

theorem nodup_keys_allEnds {entities : Descriptors}
    (h : ∀ x ∈ entities.entries, (x.2.relationships.map RelationshipDescriptor.name).Nodup) :
    ((allEnds entities).map RelationshipEnd.key).Nodup := by
  have hentity : ∀ {name : String} {d : EntityDescriptor} {e : RelationshipEnd},
      e ∈ endsOf name d → e.entity = name := by
    intro name d e he
    obtain ⟨r, -, hr⟩ := List.mem_filterMap.mp he
    obtain ⟨c, -, rfl⟩ := Option.map_eq_some_iff.mp hr
    rfl
  rw [allEnds, List.map_flatMap]
  refine List.nodup_flatMap.mpr ⟨?_, ?_⟩
  · rintro ⟨name, d⟩ hd
    -- the names of the ends of known type are among those of all relationships, in their order
    have hknown : ((endsOf name d).map fun e => e.descriptor.name).Sublist
        (d.relationships.map RelationshipDescriptor.name) := by
      unfold endsOf
      induction d.relationships with
      | nil => simp
      | cons r rest ih =>
        cases hc : Cardinality.ofDescriptorWord? r.type with
        | none => simpa [hc] using ih.cons _
        | some c => simpa [hc] using ih
    have hnames := (h _ hd).sublist hknown
    rw [List.nodup_iff_pairwise_ne, List.pairwise_map] at hnames ⊢
    exact hnames.imp fun hne hkey => hne (Prod.mk.inj hkey).2
  · have hkeys := entities.distinct
    rw [List.nodup_iff_pairwise_ne, List.pairwise_map] at hkeys
    refine hkeys.imp fun hne key hkey hkey' => hne ?_
    obtain ⟨e, he, rfl⟩ := List.mem_map.mp hkey
    obtain ⟨f, hf, hkeys⟩ := List.mem_map.mp hkey'
    rw [← hentity he, ← hentity hf]
    exact (Prod.mk.inj hkeys).1.symm

namespace Descriptors.Keyed
variable {entities : Descriptors} {e f : RelationshipEnd}

theorem target_capitalized (h : entities.Keyed) {other target : String}
    (htarget : resolveTarget entities other = some target) : isCapitalized target = true := by
  rcases (resolveTarget_eq_some htarget).2 with hkey | rfl
  · exact h.names _ hkey
  · decide

theorem names_of_claims (h : entities.Keyed) (hf : f ∈ allEnds entities)
    (hclaims : e.Claims entities f) : e.Names entities f := by
  obtain ⟨target, htarget, hentity, hname, -⟩ := hclaims
  have hsame : f.entity = target :=
    lowerFirst_inj (h.names _ (entity_mem_keys hf)) (h.target_capitalized htarget) hentity
  exact ⟨hsame ▸ htarget, hname⟩

theorem number_unique (h : entities.Keyed) {i j : Nat} (hi : (allEnds entities)[i]? = some e)
    (hj : (allEnds entities)[j]? = some f) (hkey : e.key = f.key) : i = j ∧ e = f := by
  have hget : ((allEnds entities).map RelationshipEnd.key)[i]? =
      ((allEnds entities).map RelationshipEnd.key)[j]? := by
    simp [hi, hj, hkey]
  have hlt : i < ((allEnds entities).map RelationshipEnd.key).length := by
    rw [List.length_map]
    exact (List.getElem?_eq_some_iff.mp hi).1
  obtain rfl := (List.getElem?_inj hlt h.distinct).mp hget
  exact ⟨rfl, Option.some.inj (hi.symm.trans hj)⟩

theorem end_unique (h : entities.Keyed) (he : e ∈ allEnds entities) (hf : f ∈ allEnds entities)
    (hkey : e.key = f.key) : e = f := by
  obtain ⟨i, hi⟩ := List.mem_iff_getElem?.mp he
  obtain ⟨j, hj⟩ := List.mem_iff_getElem?.mp hf
  exact (h.number_unique hi hj hkey).2

theorem end_of_text (h : entities.Keyed)
    (hclosed : ∀ x ∈ allEnds entities, '(' ∉ x.descriptor.name.toList) (he : e ∈ allEnds entities)
    (hf : f ∈ allEnds entities) (hentity : e.entity = f.entity)
    (htext : e.injectedText = f.injectedText) : e = f :=
  h.end_unique he hf (Prod.ext hentity
    (InjectedField.name_eq_of_text_eq (hclosed e he) (hclosed f hf) htext))

end Descriptors.Keyed

/-- Names are words, those of entities capitalized, and no entity has two relationships of one
name. -/
structure Descriptors.Plain (entities : Descriptors) : Prop where
  names : ∀ name ∈ entities.keys, isCapitalized name = true
  words : ∀ x ∈ entities.entries, ∀ r ∈ x.2.relationships,
    isWord r.name = true ∧ isWord r.otherEntity = true ∧ ∀ f ∈ r.otherField, isWord f = true
  distinct : ∀ x ∈ entities.entries, (x.2.relationships.map RelationshipDescriptor.name).Nodup

namespace Descriptors.Plain
variable {entities : Descriptors}

theorem keyed (h : entities.Plain) : entities.Keyed := ⟨h.names, nodup_keys_allEnds h.distinct⟩

theorem unbraced (h : entities.Plain) : entities.Unbraced := by
  intro x hx
  refine ⟨unbraced_of_isIdentifierFrom (h.names _ (Table.mem_keys.mpr ⟨x.2, hx⟩)), fun r hr => ?_⟩
  obtain ⟨hname, -, hfield⟩ := h.words x hx r hr
  exact ⟨(plain_of_isWord hname).2, fun f hf => (plain_of_isWord (hfield f hf)).2⟩

theorem closed (h : entities.Plain) :
    ∀ e ∈ allEnds entities, '(' ∉ e.descriptor.name.toList := by
  intro e he
  obtain ⟨d, hd, hr, -⟩ := mem_allEnds.mp he
  exact (plain_of_isWord (h.words _ hd _ hr).1).1

theorem isWord_otherEntity (h : entities.Plain) {e : RelationshipEnd} (he : e ∈ allEnds entities) :
    isWord e.descriptor.otherEntity = true := by
  obtain ⟨d, hd, hr, -⟩ := mem_allEnds.mp he
  exact (h.words _ hd _ hr).2.1

end Descriptors.Plain

namespace Descriptors.Tidy
variable {entities : Descriptors} {e f g : RelationshipEnd}

theorem keyed (h : entities.Tidy) : entities.Keyed := ⟨h.names, h.distinct⟩

theorem claims_iff (h : entities.Tidy) (he : e ∈ allEnds entities) (hf : f ∈ allEnds entities) :
    e.Claims entities f ↔ e.Names entities f ∧ f.Names entities e ∧
      f.cardinality = e.cardinality.reversed := by
  have hekey := entity_mem_keys he
  obtain ⟨hword, hback⟩ := h.targets f hf
  obtain ⟨hlowered, hraised⟩ := isWord_case hword
  obtain ⟨back, hback⟩ := Option.isSome_iff_exists.mp hback
  constructor
  · intro hclaims
    have hnames := h.keyed.names_of_claims hf hclaims
    obtain ⟨_, _, _, _, hpartner⟩ := hclaims
    simp only [RelationshipEnd.isPartner, hback, Bool.and_eq_true, beq_iff_eq] at hpartner
    obtain ⟨⟨hcard, hlower⟩, hbackName⟩ := hpartner
    have hupper : upperFirst f.descriptor.otherEntity = e.entity := by
      rw [← hlowered, hlower, upperFirst_lowerFirst (h.names _ hekey)]
    exact ⟨hnames, ⟨resolveTarget_of_mem hekey hupper, hbackName ▸ hback⟩, hcard⟩
  · rintro ⟨⟨htarget, hname⟩, ⟨htarget', hname'⟩, hcard⟩
    have hlower : lowerFirst f.descriptor.otherEntity = lowerFirst e.entity := by
      rw [← hraised, (resolveTarget_eq_some htarget').1]
    exact ⟨f.entity, htarget, rfl, hname, by
      simp [RelationshipEnd.isPartner, hcard, hlower, hname']⟩

theorem claims_symm (h : entities.Tidy) (he : e ∈ allEnds entities) (hf : f ∈ allEnds entities)
    (hclaims : e.Claims entities f) : f.Claims entities e := by
  obtain ⟨hnames, hback, hcard⟩ := (h.claims_iff he hf).mp hclaims
  refine (h.claims_iff hf he).mpr ⟨hback, hnames, ?_⟩
  rw [hcard, Cardinality.reversed_reversed]

theorem claims_unique (h : entities.Tidy) (he : e ∈ allEnds entities) (hf : f ∈ allEnds entities)
    (hg : g ∈ allEnds entities) (hef : e.Claims entities f) (heg : e.Claims entities g) :
    f = g := by
  obtain ⟨⟨htarget, hname⟩, -⟩ := (h.claims_iff he hf).mp hef
  obtain ⟨⟨htarget', hname'⟩, -⟩ := (h.claims_iff he hg).mp heg
  refine h.keyed.end_unique hf hg (Prod.ext ?_ ?_)
  · exact Option.some.inj (htarget.symm.trans htarget')
  · exact Option.some.inj (hname.symm.trans hname')

end Descriptors.Tidy

namespace PairingState
variable {entities : Descriptors} {e f : RelationshipEnd} {s : PairingState}

/-- Ends that claim each other are used together, and an end that stands alone is free. -/
structure Settled (entities : Descriptors) (s : PairingState) : Prop where
  together : ∀ i j e f, (allEnds entities)[i]? = some e → (allEnds entities)[j]? = some f →
    e.Claims entities f → i ∈ s.used → j ∈ s.used
  alone : ∀ n e target, .alone n e target ∈ s.found → e.Free entities

theorem partner?_of_claims (h : entities.Keyed) {j : Nat} (hj : (allEnds entities)[j]? = some f)
    (hclaims : e.Claims entities f) (hnew : j ∉ s.used) :
    s.partner? (allEnds entities) e f.entity = some (j, f) := by
  have hf := List.mem_of_getElem? hj
  obtain ⟨_, _, _, hname, hpartner⟩ := hclaims
  rw [partner?_eq_some_iff]
  refine ⟨f.descriptor.name, hname, ?_, hj, hnew, hpartner⟩
  have hnumber : (endNumber? (allEnds entities) f.entity f.descriptor.name).isSome = true :=
    endNumber?_isSome hj rfl rfl
  obtain ⟨k, hk⟩ := Option.isSome_iff_exists.mp hnumber
  obtain ⟨g, hg, hentity, hgname⟩ := endNumber?_eq_some hk
  have hsame : g.entity = f.entity :=
    lowerFirst_inj (h.names _ (entity_mem_keys (List.mem_of_getElem? hg)))
      (h.names _ (entity_mem_keys hf)) hentity
  rw [hk, (h.number_unique hg hj (Prod.ext hsame hgname)).1]

private theorem free_of_partner? (h : entities.Tidy) (hs : s.Settled entities) {number : Nat}
    {target : String} (he : (allEnds entities)[number]? = some e) (hnew : number ∉ s.used)
    (htarget : resolveTarget entities e.descriptor.otherEntity = some target)
    (hpartner : ({ s with used := number :: s.used } : PairingState).partner?
      (allEnds entities) e target = none) : e.Free entities := by
  -- a new end that finds no partner is free: what it claims would be unused as it is itself
  intro f hf hclaims
  by_contra hne
  have hemem := List.mem_of_getElem? he
  obtain ⟨j, hj⟩ := List.mem_iff_getElem?.mp hf
  have hunused : j ∉ number :: s.used := by
    intro hmem
    rcases List.mem_cons.mp hmem with rfl | hmem
    · exact hne (Option.some.inj (hj.symm.trans he))
    · exact hnew (hs.together j number f e hj he (h.claims_symm hemem hf hclaims) hmem)
  have hsame : target = f.entity :=
    Option.some.inj (htarget.symm.trans ((h.claims_iff hemem hf).mp hclaims).1.1)
  rw [hsame, partner?_of_claims h.keyed hj hclaims hunused] at hpartner
  simp at hpartner

private theorem together_push (h : entities.Tidy) (hs : s.Settled entities) {number : Nat}
    (he : (allEnds entities)[number]? = some e) (hfree : e.Free entities) :
    ∀ i j a b, (allEnds entities)[i]? = some a → (allEnds entities)[j]? = some b →
      a.Claims entities b → i ∈ number :: s.used → j ∈ number :: s.used := by
  intro i j a b ha hb hclaims hi
  rcases List.mem_cons.mp hi with rfl | hi
  · obtain rfl : a = e := Option.some.inj (ha.symm.trans he)
    obtain rfl := hfree b (List.mem_of_getElem? hb) hclaims
    simp [(h.keyed.number_unique hb he rfl).1]
  · exact List.mem_cons_of_mem _ (hs.together i j a b ha hb hclaims hi)

theorem settled_step (h : entities.Tidy) {s' : PairingState} {number : Nat}
    (he : (allEnds entities)[number]? = some e)
    (hstep : Step entities (allEnds entities) s e number s') (hs : s.Settled entities) :
    s'.Settled entities := by
  have hemem := List.mem_of_getElem? he
  cases hstep with
  | passed => exact hs
  | dangling hnew htarget =>
    have hfree : e.Free entities := by
      rintro f - ⟨target, hsome, -⟩
      simp [htarget] at hsome
    exact ⟨together_push h hs he hfree, hs.alone⟩
  | alone hnew target htarget hpartner =>
    have hfree := free_of_partner? h hs he hnew htarget hpartner
    refine ⟨together_push h hs he hfree, ?_⟩
    intro n x t hx
    rcases List.mem_append.mp hx with hx | hx
    · exact hs.alone n x t hx
    · obtain ⟨-, rfl, -⟩ : n = number ∧ x = e ∧ t = target := by simpa using hx
      exact hfree
  | joined hnew target otherNumber other htarget hpartner =>
    obtain ⟨name, -, -, hother, -, -⟩ := partner?_eq_some_iff.mp hpartner
    have homem := List.mem_of_getElem? hother
    have hclaims := claims_of_partner? htarget hpartner
    constructor
    · intro i j a b ha hb hab hi
      have hbmem := List.mem_of_getElem? hb
      rcases List.mem_cons.mp hi with rfl | hi
      · obtain rfl : a = other := Option.some.inj (ha.symm.trans hother)
        obtain rfl := h.claims_unique homem hbmem hemem hab (h.claims_symm hemem homem hclaims)
        simp [(h.keyed.number_unique hb he rfl).1]
      · rcases List.mem_cons.mp hi with rfl | hi
        · obtain rfl : a = e := Option.some.inj (ha.symm.trans he)
          obtain rfl := h.claims_unique hemem hbmem homem hab hclaims
          simp [(h.keyed.number_unique hb hother rfl).1]
        · simp [hs.together i j a b ha hb hab hi]
    · intro n x t hx
      rcases List.mem_append.mp hx with hx | hx
      · exact hs.alone n x t hx
      · unfold join at hx
        split at hx <;> simp at hx

theorem settled_final (h : entities.Tidy) : (final entities).Settled entities := by
  apply final_induction
  · exact ⟨by simp, by simp⟩
  · exact fun s e number s' he hstep hs => settled_step h he hstep hs

end PairingState

section Pairs
variable {entities : Descriptors} {e f : RelationshipEnd} {n k : Nat} {target : String}

open PairedEnds (alone joined)

/-- An end found alone is a stated end that leads to its target and is free. -/
theorem pair_alone (h : entities.Tidy) (hp : alone n e target ∈ pairEnds entities) :
    e ∈ allEnds entities ∧ resolveTarget entities e.descriptor.otherEntity = some target ∧
      e.Free entities := by
  obtain ⟨hsound, hall⟩ := mem_found hp
  have he := hall (e, n) (by simp [PairedEnds.members])
  exact ⟨List.mem_of_getElem? he, hsound, (PairingState.settled_final h).alone n e target hp⟩

theorem pair_joined (h : entities.Tidy) (hp : joined n e k f ∈ pairEnds entities) :
    (e ∈ allEnds entities ∧ f ∈ allEnds entities ∧ e ≠ f) ∧ e.Claims entities f ∧
      (PairingState.otherIsSource e f = false ∨ PairingState.otherIsSource f e = true) := by
  obtain ⟨hsound, hall⟩ := mem_found hp
  have he := hall (e, n) (by simp [PairedEnds.members])
  have hf := hall (f, k) (by simp [PairedEnds.members])
  have hemem := List.mem_of_getElem? he
  have hfmem := List.mem_of_getElem? hf
  have hne : e ≠ f := by
    rintro rfl
    have hdistinct := (PairingState.accounted_final entities).distinct
    have hpair := (List.nodup_flatMap.mp (List.map_flatMap ▸ hdistinct)).1 _ hp
    have hnumbers : n ≠ k := by simpa [PairedEnds.members] using hpair
    exact hnumbers (h.keyed.number_unique he hf rfl).1
  refine ⟨⟨hemem, hfmem, hne⟩, ?_⟩
  rcases hsound with ⟨hclaims, hside⟩ | ⟨hclaims, hside⟩
  · exact ⟨hclaims, .inl hside⟩
  · exact ⟨h.claims_symm hfmem hemem hclaims, .inr hside⟩

theorem alone_of_free (h : entities.Tidy) (he : e ∈ allEnds entities)
    (htarget : resolveTarget entities e.descriptor.otherEntity = some target)
    (hfree : e.Free entities) : ∃ n, alone n e target ∈ pairEnds entities := by
  obtain ⟨p, hp, n, hmember⟩ := member_of_pair he (Option.isSome_of_eq_some htarget)
  cases p with
  | alone k x t =>
    obtain ⟨rfl, rfl⟩ : e = x ∧ n = k := by simpa [PairedEnds.members] using hmember
    obtain rfl : target = t := Option.some.inj (htarget.symm.trans (pair_alone h hp).2.1)
    exact ⟨n, hp⟩
  | joined i x j y =>
    obtain ⟨⟨hx, hy, hne⟩, hclaims, -⟩ := pair_joined h hp
    have hside : e = x ∨ e = y := by
      rcases List.mem_cons.mp hmember with hmember | hmember
      · exact .inl (Prod.mk.inj hmember).1
      · exact .inr (Prod.mk.inj (List.mem_singleton.mp hmember)).1
    rcases hside with rfl | rfl
    · exact absurd (hfree y hy hclaims).symm hne
    · exact absurd (hfree x hx (h.claims_symm hx hy hclaims)) hne

/-- Different ends that claim each other are found together. -/
theorem joined_of_claims (h : entities.Tidy) (he : e ∈ allEnds entities)
    (hf : f ∈ allEnds entities) (hclaims : e.Claims entities f) (hne : e ≠ f) :
    ∃ n k, joined n e k f ∈ pairEnds entities ∨ joined k f n e ∈ pairEnds entities := by
  have htarget := ((h.claims_iff he hf).mp hclaims).1.1
  obtain ⟨p, hp, n, hmember⟩ := member_of_pair he (Option.isSome_of_eq_some htarget)
  cases p with
  | alone k x t =>
    obtain ⟨rfl, rfl⟩ : e = x ∧ n = k := by simpa [PairedEnds.members] using hmember
    exact absurd ((pair_alone h hp).2.2 f hf hclaims).symm hne
  | joined i x j y =>
    obtain ⟨⟨hx, hy, -⟩, hxy, -⟩ := pair_joined h hp
    rcases List.mem_cons.mp hmember with hmember | hmember
    · obtain ⟨rfl, rfl⟩ := Prod.mk.inj hmember
      obtain rfl := h.claims_unique he hf hy hclaims hxy
      exact ⟨n, j, .inl hp⟩
    · obtain ⟨rfl, rfl⟩ := Prod.mk.inj (List.mem_singleton.mp hmember)
      obtain rfl := h.claims_unique he hf hx hclaims (h.claims_symm hx hy hxy)
      exact ⟨n, i, .inr hp⟩

/-- Where names have no parentheses, a pair represents its own ends only. -/
theorem member_of_represents (h : entities.Keyed)
    (hclosed : ∀ x ∈ allEnds entities, '(' ∉ x.descriptor.name.toList) {p : PairedEnds}
    (hp : p ∈ pairEnds entities) (he : e ∈ allEnds entities)
    (hrepresents : p.relationship.Represents e) : e ∈ p.members.map Prod.fst := by
  have hmember : ∀ x ∈ p.members, x.1.entity = e.entity →
      some x.1.injectedText = some e.injectedText → e ∈ p.members.map Prod.fst := by
    intro x hx hentity htext
    have hstated := List.mem_of_getElem? ((mem_found hp).2 x hx)
    rw [← h.end_of_text hclosed hstated he hentity (Option.some.inj htext)]
    exact List.mem_map_of_mem hx
  cases p with
  | alone n x target =>
    rcases hrepresents with ⟨hentity, htext⟩ | ⟨-, hnone⟩
    · exact hmember (x, n) (by simp [PairedEnds.members]) hentity htext
    · simp [PairedEnds.relationship, Relationship.between] at hnone
  | joined n x k y =>
    rcases hrepresents with ⟨hentity, htext⟩ | ⟨hentity, htext⟩
    · exact hmember (x, n) (by simp [PairedEnds.members]) hentity htext
    · exact hmember (y, k) (by simp [PairedEnds.members]) hentity htext

end Pairs
end DomainModel
