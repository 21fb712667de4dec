import DomainModel.Proofs.Descriptors.Acceptance
import DomainModel.Proofs.Pairing.Partners
/-!
# The order of descriptors

What is read from descriptors does not depend on the order of the entities, or of the relationships
of an entity, if every end names another one, ends are told apart by entity and name, and of two
ends that name each other one owns the join.
-/
namespace DomainModel

/-- The same descriptor with its relationships in any order. -/
def EntityDescriptor.Reordered (d d' : EntityDescriptor) : Prop :=
  d.relationships.Perm d'.relationships ∧ d' = { d with relationships := d'.relationships }

theorem EntityDescriptor.Acceptable.reordered {name : String} {d d' : EntityDescriptor}
    (hd : d.Acceptable name) (h : d.Reordered d') : d'.Acceptable name := by
  rw [h.2]
  exact ⟨hd.enumerations, hd.entity, hd.options⟩

/-- The same entities in any order, each with its relationships in any order. -/
structure Descriptors.Reordered (a b : Descriptors) : Prop where
  keys : a.keys.Perm b.keys
  entries : ∀ x ∈ a.entries, ∀ y ∈ b.entries, x.1 = y.1 → x.2.Reordered y.2

instance (d d' : EntityDescriptor) : Decidable (d.Reordered d') :=
  inferInstanceAs (Decidable (_ ∧ _))

/-- Names are words, those of entities capitalized; every relationship names its other end, and no
entity has two of one name. Of two ends without a one-to-many side that name each other, one is the
owner. -/
structure Descriptors.Unambiguous (entities : Descriptors) : Prop where
  names : ∀ name ∈ entities.keys, isCapitalized name = true
  words : ∀ x ∈ entities.entries, ∀ r ∈ x.2.relationships,
    isWord r.name = true ∧ isWord r.otherEntity = true ∧ ∀ f ∈ r.otherField, isWord f = true
  named : ∀ x ∈ entities.entries, ∀ r ∈ x.2.relationships, r.otherName.isSome = true
  distinct : ∀ x ∈ entities.entries, (x.2.relationships.map RelationshipDescriptor.name).Nodup
  owned : ∀ e ∈ allEnds entities, ∀ f ∈ allEnds entities, e ≠ f →
    e.cardinality.hasOwnerSide = true → f.cardinality = e.cardinality →
      e.Names entities f → f.Names entities e → e.isOwner ≠ f.isOwner

/-- The relationships that descriptors state, told without an order: a free end alone, or two ends
that claim each other, the source first. -/
inductive Descriptors.States (entities : Descriptors) : Relationship → Prop where
  | alone (n : Nat) {e : RelationshipEnd} {target : String} (he : e ∈ allEnds entities)
      (htarget : resolveTarget entities e.descriptor.otherEntity = some target)
      (hfree : e.Free entities) : States entities (PairedEnds.alone n e target).relationship
  | joined (n k : Nat) {e f : RelationshipEnd} (he : e ∈ allEnds entities)
      (hf : f ∈ allEnds entities) (hne : e ≠ f) (hclaims : e.Claims entities f)
      (hside : PairingState.otherIsSource e f = false) :
      States entities (PairedEnds.joined n e k f).relationship

namespace Descriptors
variable {a b entities : Descriptors}

theorem Unambiguous.plain (h : entities.Unambiguous) : entities.Plain :=
  ⟨h.names, h.words, h.distinct⟩

theorem Unambiguous.tidy (h : entities.Unambiguous) : entities.Tidy where
  names := h.names
  targets := by
    intro e he
    obtain ⟨d, hd, hr, -⟩ := mem_allEnds.mp he
    exact ⟨h.plain.isWord_otherEntity he, h.named _ hd _ hr⟩
  distinct := h.plain.keyed.distinct

theorem Unambiguous.otherIsSource_swap (h : entities.Unambiguous) {e f : RelationshipEnd}
    (he : e ∈ allEnds entities) (hf : f ∈ allEnds entities) (hne : e ≠ f)
    (hclaims : e.Claims entities f) :
    PairingState.otherIsSource f e = !PairingState.otherIsSource e f := by
  obtain ⟨hnames, hback, hcard⟩ := (h.tidy.claims_iff he hf).mp hclaims
  have howned := h.owned e he f hf hne
  unfold PairingState.otherIsSource
  rw [hcard] at howned ⊢
  cases hc : e.cardinality with
  | oneToMany => simp [Cardinality.reversed, Cardinality.hasOwnerSide]
  | manyToOne => simp [Cardinality.reversed, Cardinality.hasOwnerSide]
  | oneToOne =>
    have hside := howned (by rw [hc]; rfl) (by rw [hc]; rfl) hnames hback
    cases hown : e.isOwner <;> cases hown' : f.isOwner <;>
      simp_all [Cardinality.reversed, Cardinality.hasOwnerSide]
  | manyToMany =>
    have hside := howned (by rw [hc]; rfl) (by rw [hc]; rfl) hnames hback
    cases hown : e.isOwner <;> cases hown' : f.isOwner <;>
      simp_all [Cardinality.reversed, Cardinality.hasOwnerSide]

/-- The pairing run finds what is stated without an order. -/
theorem Unambiguous.mem_pairRelationships_iff (h : entities.Unambiguous) {s : Relationship} :
    s ∈ pairRelationships entities ↔ entities.States s := by
  rw [mem_pairRelationships]
  constructor
  · rintro ⟨p, hp, rfl⟩
    cases p with
    | alone n e target =>
      obtain ⟨he, htarget, hfree⟩ := pair_alone h.tidy hp
      exact .alone n he htarget hfree
    | joined n e k f =>
      obtain ⟨⟨he, hf, hne⟩, hclaims, hside⟩ := pair_joined h.tidy hp
      refine .joined n k he hf hne hclaims ?_
      rw [h.otherIsSource_swap he hf hne hclaims] at hside
      simpa using hside
  · intro hs
    cases hs with
    | alone m he htarget hfree =>
      obtain ⟨n, hp⟩ := alone_of_free h.tidy he htarget hfree
      exact ⟨_, hp, rfl⟩
    | joined i j he hf hne hclaims hside =>
      obtain ⟨n, k, hp | hp⟩ := joined_of_claims h.tidy he hf hclaims hne
      · exact ⟨_, hp, rfl⟩
      · -- the other way round the second end would be the source
        obtain ⟨-, -, hother⟩ := pair_joined h.tidy hp
        rw [h.otherIsSource_swap he hf hne hclaims, hside] at hother
        simp at hother

section Identity

private theorem States.parts {s : Relationship} (h : entities.Unambiguous)
    (hs : entities.States s) : ∃ f, s.injectedInSource = some f ∧ DomainModel.Unbraced s.source ∧
      DomainModel.Unbraced f ∧ DomainModel.Unbraced s.destination := by
  have hsource := fun {e} (he : e ∈ allEnds entities) =>
    unbraced_key h.plain.unbraced (.inl (entity_mem_keys he))
  cases hs with
  | alone n he htarget hfree =>
    exact ⟨_, rfl, hsource he, unbraced_injectedText h.plain.unbraced he,
      unbraced_key h.plain.unbraced (resolveTarget_eq_some htarget).2⟩
  | joined n k he hf =>
    exact ⟨_, rfl, hsource he, unbraced_injectedText h.plain.unbraced he, hsource hf⟩

theorem Unambiguous.eq_of_id_eq (h : entities.Unambiguous) {r s : Relationship}
    (hr : entities.States r) (hs : entities.States s) (hid : r.id = s.id) : r = s := by
  obtain ⟨f, hf, hfparts⟩ := hr.parts h
  obtain ⟨g, hg, hgparts⟩ := hs.parts h
  obtain ⟨-, hsource, hfg, -, -⟩ := Relationship.eq_ends_of_id_eq hf hg hfparts hgparts hid
  have htext : r.injectedInSource = s.injectedInSource := by rw [hf, hfg, ← hg]
  have hsame := fun {x y} (hx : x ∈ allEnds entities) (hy : y ∈ allEnds entities) =>
    h.plain.keyed.end_of_text h.plain.closed hx hy
  -- both are told from the end at their source, which is free or has one partner
  cases hr with
  | alone n he htarget hfree =>
    cases hs with
    | alone k he' htarget' _ =>
      obtain rfl := hsame he he' hsource (Option.some.inj htext)
      obtain rfl := Option.some.inj (htarget.symm.trans htarget')
      rfl
    | joined i j he' hf' hne hclaims =>
      obtain rfl := hsame he he' hsource (Option.some.inj htext)
      exact absurd (hfree _ hf' hclaims).symm hne
  | joined i j he hother hne hclaims =>
    cases hs with
    | alone k he' _ hfree =>
      obtain rfl := hsame he he' hsource (Option.some.inj htext)
      exact absurd (hfree _ hother hclaims).symm hne
    | joined i' j' he' hother' _ hclaims' =>
      obtain rfl := hsame he he' hsource (Option.some.inj htext)
      obtain rfl := h.tidy.claims_unique he hother hother' hclaims hclaims'
      rfl

end Identity

section Reordering

theorem Reordered.symm (h : a.Reordered b) : b.Reordered a where
  keys := h.keys.symm
  entries := by
    intro x hx y hy hname
    obtain ⟨hperm, heq⟩ := h.entries y hy x hx hname.symm
    exact ⟨hperm.symm, by rw [heq]⟩

theorem Reordered.exists_entry (h : a.Reordered b) {name : String} {d : EntityDescriptor}
    (hd : (name, d) ∈ a.entries) : ∃ d', (name, d') ∈ b.entries ∧ d.Reordered d' := by
  obtain ⟨d', hd'⟩ := Table.mem_keys.mp (h.keys.subset (Table.mem_keys.mpr ⟨d, hd⟩))
  exact ⟨d', hd', h.entries _ hd _ hd' rfl⟩

theorem Reordered.mem_allEnds (h : a.Reordered b) {e : RelationshipEnd} (he : e ∈ allEnds a) :
    e ∈ allEnds b := by
  obtain ⟨d, hd, hr, hc⟩ := DomainModel.mem_allEnds.mp he
  obtain ⟨d', hd', hperm, -⟩ := h.exists_entry hd
  exact DomainModel.mem_allEnds.mpr ⟨d', hd', hperm.subset hr, hc⟩

theorem Reordered.resolveTarget_eq (h : a.Reordered b) (other : String) :
    resolveTarget b other = resolveTarget a other := by
  have hcontains : b.contains (upperFirst other) = a.contains (upperFirst other) := by
    rw [Bool.eq_iff_iff, Table.contains_iff, Table.contains_iff]
    exact h.keys.symm.mem_iff
  simp only [resolveTarget, hcontains]

theorem Reordered.unambiguous (h : a.Reordered b) (ha : a.Unambiguous) : b.Unambiguous := by
  have hentry : ∀ y ∈ b.entries, ∃ x ∈ a.entries, x.2.relationships.Perm y.2.relationships := by
    rintro ⟨name, d⟩ hd
    obtain ⟨d', hd', hperm, -⟩ := h.symm.exists_entry hd
    exact ⟨(name, d'), hd', hperm.symm⟩
  have hnames : ∀ e f : RelationshipEnd, e.Names b f → e.Names a f := by
    rintro e f ⟨htarget, hname⟩
    exact ⟨h.resolveTarget_eq _ ▸ htarget, hname⟩
  constructor
  case names => exact fun name hname => ha.names name (h.keys.symm.subset hname)
  case words =>
    intro y hy r hr
    obtain ⟨x, hx, hperm⟩ := hentry y hy
    exact ha.words x hx r (hperm.symm.subset hr)
  case named =>
    intro y hy r hr
    obtain ⟨x, hx, hperm⟩ := hentry y hy
    exact ha.named x hx r (hperm.symm.subset hr)
  case distinct =>
    intro y hy
    obtain ⟨x, hx, hperm⟩ := hentry y hy
    exact (hperm.map _).nodup_iff.mp (ha.distinct x hx)
  case owned =>
    intro e he f hf hne howner hcard hef hfe
    exact ha.owned e (h.symm.mem_allEnds he) f (h.symm.mem_allEnds hf) hne howner hcard
      (hnames e f hef) (hnames f e hfe)

theorem Reordered.states (h : a.Reordered b) {s : Relationship} (hs : a.States s) :
    b.States s := by
  have hclaims : ∀ {x y : RelationshipEnd}, x.Claims a y ↔ x.Claims b y := by
    intro x y
    simp only [RelationshipEnd.Claims, h.resolveTarget_eq]
  cases hs with
  | alone n he htarget hfree =>
    refine .alone n (h.mem_allEnds he) (h.resolveTarget_eq _ ▸ htarget) fun f hf hef => ?_
    exact hfree f (h.symm.mem_allEnds hf) (hclaims.mpr hef)
  | joined n k he hf hne hef hside =>
    exact .joined n k (h.mem_allEnds he) (h.mem_allEnds hf) hne (hclaims.mp hef) hside

theorem Reordered.succeeds (h : a.Reordered b) {m : Model} (ha : ∃ m', a.toModelFrom m = .ok m') :
    ∃ m', b.toModelFrom m = .ok m' := by
  obtain ⟨huser, hall⟩ := toModelFrom_succeeds_iff.mp ha
  refine toModelFrom_succeeds_iff.mpr
    ⟨fun hmem => huser (h.keys.symm.subset hmem), fun name d hd => ?_⟩
  obtain ⟨d', hd', -⟩ := h.symm.exists_entry hd
  exact (hall name d' hd').reordered (h.entries _ hd' _ hd rfl)

end Reordering

/-- Reading reordered descriptors succeeds as before and gives the same relationships. -/
theorem toModelFrom_reordered (ha : a.Unambiguous) (h : a.Reordered b) (m : Model) :
    ((∃ m', a.toModelFrom m = .ok m') ↔ ∃ m', b.toModelFrom m = .ok m') ∧
      ∀ k l, a.toModelFrom m = .ok k → b.toModelFrom m = .ok l →
        ∀ s, s ∈ k.relationships.toList ↔ s ∈ l.relationships.toList := by
  have hmem : ∀ {c : Descriptors}, c.Unambiguous → ∀ {k : Model}, c.toModelFrom m = .ok k → ∀ s,
      s ∈ k.relationships.toList ↔ s ∈ m.relationships.toList ∨
        (c.States s ∧ s.id ∉ (m.relationships.group s.cardinality).keys) := by
    intro c hc k hk s
    rw [toModelFrom_eq_readInto hk, readInto, RelationshipTable.mem_toList_addAll_iff,
      hc.mem_pairRelationships_iff]
    intro r hr r' hr' hid
    exact hc.eq_of_id_eq (hc.mem_pairRelationships_iff.mp hr) (hc.mem_pairRelationships_iff.mp hr')
      hid
  refine ⟨⟨h.succeeds, h.symm.succeeds⟩, fun k l hk hl s => ?_⟩
  rw [hmem ha hk, hmem (h.unambiguous ha) hl]
  exact or_congr_right (and_congr_left fun _ => ⟨h.states, h.symm.states⟩)

/-- A kennel whose dogs have a keeper, and friends among each other. -/
def kennel : Descriptors :=
  Table.ofList
    [("Dog", { EntityDescriptor.empty with relationships :=
        [{ RelationshipDescriptor.named "many-to-one" "keeper" "keeper" with
            otherName := some "dog" },
          { RelationshipDescriptor.named "many-to-many" "friend" "dog" with
            otherName := some "admirer" },
          { RelationshipDescriptor.named "many-to-many" "admirer" "dog" with
            otherName := some "friend", ownerSide := some true }] }),
      ("Keeper", { EntityDescriptor.empty with relationships :=
        [{ RelationshipDescriptor.named "one-to-many" "dog" "dog" with
            otherName := some "keeper", otherField := some "name" }] })]

/-- The kennel from back to front. -/
def kennelReversed : Descriptors :=
  Table.ofList (kennel.entries.reverse.map fun e =>
    (e.1, { e.2 with relationships := e.2.relationships.reverse }))

theorem kennel_reordered : kennel.Unambiguous ∧ kennel.Reordered kennelReversed ∧
    ((∃ m', kennel.toModelFrom ∅ = .ok m') ↔ ∃ m', kennelReversed.toModelFrom ∅ = .ok m') ∧
      ∀ k l, kennel.toModelFrom ∅ = .ok k → kennelReversed.toModelFrom ∅ = .ok l →
        ∀ s, s ∈ k.relationships.toList ↔ s ∈ l.relationships.toList := by
  have hkennel : kennel.Unambiguous :=
    ⟨by decide, by decide, by decide, by decide, by decide +kernel⟩
  have hreordered : kennel.Reordered kennelReversed := ⟨by decide, by decide +kernel⟩
  exact ⟨hkennel, hreordered, toModelFrom_reordered hkennel hreordered ∅⟩

/-- Both orders give the two relationships, told from the one-to-many end and from the owner. -/
example : (kennelReversed.toModel.map fun m => m.relationships.ids) =
    .ok ["OneToMany_Keeper\x7bdog(name)\x7d_Dog\x7bkeeper\x7d",
      "ManyToMany_Dog\x7badmirer\x7d_Dog\x7bfriend\x7d"] := by
  decide +kernel

end Descriptors
end DomainModel
