import DomainModel.Proofs.Relationships.Ends
/-!
# Mates

The two ends of a relationship with fields in both are mates. Among the ends that a describable
model states, an end claims its mate and nothing else, so the pairing run uses mates together.
-/
namespace DomainModel

/-- The two ends of one relationship with fields in both. -/
def Mates (m : Model) (e f : RelationshipEnd) : Prop :=
  ∃ r ∈ m.relationships.toList, r.isMutual = true ∧
    ((e = r.sourceEnd ∧ f = r.destinationEnd) ∨ (e = r.destinationEnd ∧ f = r.sourceEnd))

variable {m : Model} {start : Int} {e f g : RelationshipEnd}

theorem Mates.symm (h : Mates m e f) : Mates m f e := by
  obtain ⟨r, hr, hmutual, hends⟩ := h
  exact ⟨r, hr, hmutual, hends.symm.imp And.symm And.symm⟩

theorem Mates.mem_ends (h : Mates m e f) (hw : m.WellFormed) (hm : m.Describable) :
    e ∈ allEnds (m.toDescriptors start) := by
  obtain ⟨r, hr, hmutual, hends⟩ := h
  have hregular := hm.regular r hr
  refine (Model.mem_ends hw).mpr ⟨r, hr, ?_⟩
  rcases hends with ⟨rfl, -⟩ | ⟨rfl, -⟩
  · exact .inl ⟨hregular.source, rfl⟩
  · exact .inr ⟨hregular.destination_of_isMutual hmutual,
      hregular.hasDestinationEntry.mpr hmutual, rfl⟩

theorem Mates.named (h : Mates m e f) (hm : m.Describable) :
    e.descriptor.otherName = some f.descriptor.name ∧
      e.descriptor.otherEntity = lowerFirst f.entity ∧ f.cardinality = e.cardinality.reversed ∧
      f.entity ∈ m.entities.keys := by
  obtain ⟨r, hr, hmutual, hends⟩ := h
  have hregular := hm.regular r hr
  have hname := hregular.lowerFirst_destinationField hmutual
  rcases hends with ⟨rfl, rfl⟩ | ⟨rfl, rfl⟩
  · exact ⟨by simp [Relationship.sourceEnd, Relationship.sourceEntry, Relationship.destinationEnd,
      Relationship.destinationEntry, hname], rfl, rfl, hregular.destination_of_isMutual hmutual⟩
  · exact ⟨rfl, rfl, by simp [Relationship.sourceEnd, Relationship.destinationEnd],
      hregular.source⟩

theorem Mates.claims (h : Mates m e f) (hw : m.WellFormed) (hm : m.Describable) :
    e.Claims (m.toDescriptors start) f := by
  have hnames : ∀ {x y}, Mates m x y → x.Names (m.toDescriptors start) y := by
    intro x y hxy
    obtain ⟨hname, hentity, -, hkey⟩ := hxy.named hm
    exact ⟨hentity ▸ Model.resolveTarget_toDescriptors hw hkey (hm.names _ hkey).1, hname⟩
  exact ((hm.tidy hw start).claims_iff (h.mem_ends hw hm) (h.symm.mem_ends hw hm)).mpr
    ⟨hnames h, hnames h.symm, (h.named hm).2.2.1⟩

theorem Mates.irrefl (hm : m.Describable) : ¬ Mates m e e := by
  rintro ⟨r, hr, hmutual, hends⟩
  have hkeys := (List.nodup_flatMap.mp hm.distinct).1 r hr
  rw [(hm.regular r hr).endNames_eq, if_pos hmutual] at hkeys
  have hne : (r.source, r.sourceField.name) ≠ (r.destination, r.destinationField.name) := by
    simpa using hkeys
  rcases hends with ⟨hsource, hdestination⟩ | ⟨hdestination, hsource⟩
  · exact hne (congrArg RelationshipEnd.key (hsource.symm.trans hdestination))
  · exact hne (congrArg RelationshipEnd.key (hsource.symm.trans hdestination))

/-- A stated end that has no mate is the source end of a relationship without a second field. -/
theorem oneWay_of_unmated (hw : m.WellFormed) (hm : m.Describable)
    (he : e ∈ allEnds (m.toDescriptors start)) (hfree : ∀ g, ¬ Mates m e g) :
    ∃ r ∈ m.relationships.toList, r.isMutual = false ∧ e = r.sourceEnd := by
  obtain ⟨r, hr, hends⟩ := (Model.mem_ends hw).mp he
  cases hmutual : r.isMutual with
  | false =>
    refine ⟨r, hr, hmutual, ?_⟩
    rcases hends with ⟨-, rfl⟩ | ⟨-, hentry, -⟩
    · rfl
    · simp [(hm.regular r hr).hasDestinationEntry, hmutual] at hentry
  | true =>
    rcases hends with ⟨-, rfl⟩ | ⟨-, -, rfl⟩
    · exact absurd ⟨r, hr, hmutual, .inl ⟨rfl, rfl⟩⟩ (hfree r.destinationEnd)
    · exact absurd ⟨r, hr, hmutual, .inr ⟨rfl, rfl⟩⟩ (hfree r.sourceEnd)

private theorem oneWay_cardinality {r : Relationship} (hr : r.Regular m)
    (hmutual : r.isMutual = false) : r.cardinality = .manyToOne := by
  obtain ⟨f, hf, -⟩ := hr.sourceWritten
  exact hr.oneWay (by simpa [Relationship.isMutual, hf] using hmutual)

/-- Among the stated ends, only mates claim each other. -/
theorem mates_of_claims (hw : m.WellFormed) (hm : m.Describable)
    (he : e ∈ allEnds (m.toDescriptors start)) (hf : f ∈ allEnds (m.toDescriptors start))
    (h : e.Claims (m.toDescriptors start) f) : Mates m e f := by
  have htidy := hm.tidy hw start
  have hback := htidy.claims_symm he hf h
  by_cases hmate : ∃ g, Mates m e g
  · obtain ⟨g, hg⟩ := hmate
    rwa [htidy.claims_unique he hf (hg.symm.mem_ends hw hm) h (hg.claims hw hm)]
  · by_cases hmate' : ∃ g, Mates m f g
    · obtain ⟨g, hg⟩ := hmate'
      rw [htidy.claims_unique hf he (hg.symm.mem_ends hw hm) hback (hg.claims hw hm)]
      exact hg.symm
    · -- two ends without mates both lead many to one, so that neither is the reverse of the other
      obtain ⟨r, hr, hmutual, rfl⟩ := oneWay_of_unmated hw hm he (not_exists.mp hmate)
      obtain ⟨s, hs, hmutual', rfl⟩ := oneWay_of_unmated hw hm hf (not_exists.mp hmate')
      have hcard : s.cardinality = r.cardinality.reversed := ((htidy.claims_iff he hf).mp h).2.2
      rw [oneWay_cardinality (hm.regular r hr) hmutual,
        oneWay_cardinality (hm.regular s hs) hmutual'] at hcard
      exact absurd hcard (by decide)

theorem unmated_of_alone (hw : m.WellFormed) (hm : m.Describable) {n : Nat} {target : String}
    (hp : .alone n e target ∈ pairEnds (m.toDescriptors start)) : ∀ f, ¬ Mates m e f := by
  intro f hmates
  obtain ⟨-, -, hfree⟩ := pair_alone (hm.tidy hw start) hp
  obtain rfl := hfree f (hmates.symm.mem_ends hw hm) (hmates.claims hw hm)
  exact hmates.irrefl hm

end DomainModel
