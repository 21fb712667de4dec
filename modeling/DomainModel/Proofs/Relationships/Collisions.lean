import DomainModel.Proofs.Relationships.FirstAdded
import DomainModel.Proofs.Text.Identifiers
/-!
# Relationships with one identity

Where names and fields are words, an identity tells a relationship with a field in its source from
all others. Without such a field it tells no more than the names of both ends joined, and names may
hold the underscore that joins them. A collection drops what it cannot tell apart.
-/
namespace DomainModel

namespace Relationship

/-- The ends are named by words, and each field is a word that may show another in parentheses. -/
structure Worded (r : Relationship) : Prop where
  source : isWord r.source = true
  destination : isWord r.destination = true
  injected : ∀ text, r.injectedInSource = some text ∨ r.injectedInDestination = some text →
    ∃ f : InjectedField, f.Worded ∧ f.text = text

/-- No field stands between the names of the ends, and joined by an underscore these are the same;
so are cardinality and the other field. -/
structure Collides (r s : Relationship) : Prop where
  cardinality : r.cardinality = s.cardinality
  unmarked : r.injectedInSource = none ∧ s.injectedInSource = none
  joined : r.source ++ "_" ++ r.destination = s.source ++ "_" ++ s.destination
  injectedInDestination : r.injectedInDestination = s.injectedInDestination

variable {r s : Relationship}

theorem Worded.unbraced (h : r.Worded) : (Unbraced r.source ∧ Unbraced r.destination) ∧
    (∀ f ∈ r.injectedInSource, Unbraced f) ∧ ∀ f ∈ r.injectedInDestination, Unbraced f := by
  have hfield : ∀ text, r.injectedInSource = some text ∨ r.injectedInDestination = some text →
      Unbraced text := by
    intro text htext
    obtain ⟨f, hf, rfl⟩ := h.injected text htext
    exact hf.unbraced_text
  exact ⟨⟨(plain_of_isWord h.source).2, (plain_of_isWord h.destination).2⟩,
    fun f hf => hfield f (.inl hf), fun f hf => hfield f (.inr hf)⟩

theorem SameEnds.id_eq (h : r.SameEnds s) : r.id = s.id := by
  rw [id, h.cardinality, h.source, h.injectedInSource, h.destination, h.injectedInDestination]
  rfl

theorem Collides.id_eq (h : r.Collides s) : r.id = s.id := by
  have hjoined : ∀ {t : Relationship}, t.injectedInSource = none → t.id =
      t.cardinality.word ++ "_" ++ (t.source ++ "_" ++ t.destination) ++
        braced t.injectedInDestination := by
    intro t ht
    rw [id, ht, braced, String.append_empty]
    simp only [String.append_assoc]
  rw [hjoined h.unmarked.1, hjoined h.unmarked.2, h.cardinality, h.joined, h.injectedInDestination]

/-- Identities of worded relationships are equal where the ends are, and where these collide. -/
theorem id_eq_iff (hr : r.Worded) (hs : s.Worded) :
    r.id = s.id ↔ r.SameEnds s ∨ r.Collides s := by
  obtain ⟨hrends, hrsource, hrdestination⟩ := hr.unbraced
  obtain ⟨hsends, hssource, hsdestination⟩ := hs.unbraced
  constructor
  · intro hid
    cases hf : r.injectedInSource with
    | none =>
      cases hg : s.injectedInSource with
      | none =>
        obtain ⟨hcard, hjoined, hinjected⟩ := eq_joined_of_id_eq hf hg hrends hsends hid
        exact .inr ⟨hcard, ⟨hf, hg⟩, hjoined, hinjected⟩
      | some g =>
        exact absurd hid.symm
          (id_ne_of_unmarked hg hf ⟨hsends.1, hssource g hg⟩ hrends hrdestination)
    | some f =>
      cases hg : s.injectedInSource with
      | none =>
        exact absurd hid (id_ne_of_unmarked hf hg ⟨hrends.1, hrsource f hf⟩ hsends hsdestination)
      | some g =>
        obtain ⟨hcard, hsource, hfg, hdestination, hinjected⟩ := eq_ends_of_id_eq hf hg
          ⟨hrends.1, hrsource f hf, hrends.2⟩ ⟨hsends.1, hssource g hg, hsends.2⟩ hid
        exact .inl ⟨hcard, hsource, by rw [hf, hg, hfg], hdestination, hinjected⟩
  · rintro (hsame | hcollides)
    · exact hsame.id_eq
    · exact hcollides.id_eq

end Relationship

namespace RelationshipTable
open Relationship

/-- After worded relationships were added, another one is dropped exactly for one of them that has
the same ends or collides with it. -/
theorem add_addAll_worded {l : List Relationship} {r : Relationship} (hl : ∀ s ∈ l, s.Worded)
    (hr : r.Worded) :
    (∀ s ∈ l, s.id = r.id ↔ s.SameEnds r ∨ s.Collides r) ∧
      ((((∅ : RelationshipTable).addAll l).add r).2 = false ↔
        ∃ s ∈ l, s.SameEnds r ∨ s.Collides r) := by
  have hids : ∀ s ∈ l, s.id = r.id ↔ s.SameEnds r ∨ s.Collides r := fun s hs =>
    id_eq_iff (hl s hs) hr
  refine ⟨hids, ?_⟩
  rw [add_addAll, decide_eq_false_iff_not, not_not, List.mem_map]
  exact exists_congr fun s => and_congr_right (hids s)

/-- A relationship that gives its destination the field `order`. -/
def ordered (source destination : String) : Relationship :=
  { Relationship.between .oneToOne source destination with injectedInDestination := some "order" }

theorem worded_ordered {source destination : String} (hsource : isWord source = true)
    (hdestination : isWord destination = true) : (ordered source destination).Worded := by
  refine ⟨hsource, hdestination, ?_⟩
  intro text htext
  obtain rfl : "order" = text := by simpa [ordered, Relationship.between] using htext
  exact ⟨⟨"order", none⟩, by decide, rfl⟩

theorem ordered_dropped : (∀ s ∈ [ordered "Order_Item" "Part"], s.Worded) ∧
    (ordered "Order" "Item_Part").Worded ∧
    (∀ s ∈ [ordered "Order_Item" "Part"], s.id = (ordered "Order" "Item_Part").id ↔
      s.SameEnds (ordered "Order" "Item_Part") ∨ s.Collides (ordered "Order" "Item_Part")) ∧
    ((((∅ : RelationshipTable).addAll [ordered "Order_Item" "Part"]).add
        (ordered "Order" "Item_Part")).2 = false ↔ ∃ s ∈ [ordered "Order_Item" "Part"],
      s.SameEnds (ordered "Order" "Item_Part") ∨ s.Collides (ordered "Order" "Item_Part")) := by
  have hheld : ∀ s ∈ [ordered "Order_Item" "Part"], s.Worded := by
    intro s hs
    rw [List.mem_singleton.mp hs]
    exact worded_ordered (by decide) (by decide)
  have hnew : (ordered "Order" "Item_Part").Worded := worded_ordered (by decide) (by decide)
  exact ⟨hheld, hnew, add_addAll_worded hheld hnew⟩

/-- Words are not enough for identities to tell relationships apart. -/
theorem ordered_collide : ¬ ∀ r s : Relationship, r.problems = [] → s.problems = [] →
    r.Worded → s.Worded → r.id = s.id → r.SameEnds s := by
  intro hclaim
  have hsame := hclaim (ordered "Order_Item" "Part") (ordered "Order" "Item_Part") (by decide)
    (by decide) (worded_ordered (by decide) (by decide)) (worded_ordered (by decide) (by decide))
    (by decide)
  exact absurd hsame.source (by decide)

end RelationshipTable
end DomainModel
