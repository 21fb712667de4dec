import DomainModel.Proofs.Documents.Additions
import DomainModel.Proofs.Text.CamelCase
/-!
# The injected fields of sources

Resolving gives the source of a relationship an injected field: the declared one, or else the name
of the destination in camel case. Camel case keeps the ASCII letters and digits alone, so a name
that has none leaves the field empty, and nothing in the model objects to that.
-/
namespace DomainModel
namespace Document
variable {d : Document} {target : Target} {draw : Nat → Secrets} {m : Model}

theorem mem_relationships_toModel (h : d.toModel target draw = .ok m) {r : Relationship}
    (hr : r ∈ m.relationships.toList) :
    ∃ declared ∈ d.relationships, r = buildRelationship declared := by
  rw [(toModelFrom_adds h).relationships] at hr
  rcases RelationshipTable.mem_toList_addAll hr with hold | hadded
  · exact absurd hold List.not_mem_nil
  · obtain ⟨declared, hdeclared, rfl⟩ := List.mem_map.mp hadded
    exact ⟨declared, hdeclared, rfl⟩

/-- The declaration leaves the injected field of its source empty: it states an empty one, or states
none beside a destination without ASCII letters and digits. -/
def LeavesEmpty (r : DeclaredRelationship) : Prop :=
  r.source.injectedField = some "" ∨
    r.source.injectedField = none ∧ ∀ c ∈ r.destination.name.toList, c.isAlphanum = false

theorem injectedInSource_eq_empty_iff (r : DeclaredRelationship) :
    (buildRelationship r).injectedInSource = some "" ↔ LeavesEmpty r := by
  rw [LeavesEmpty, buildRelationship]
  cases r.source.injectedField with
  | none => simp [camelCase_eq_empty_iff]
  | some field => simp

/-- Every relationship of a resolved model is declared, and its source has an injected field, which
is empty exactly where the declaration leaves it so. -/
theorem toModel_sourceFields (h : d.toModel target draw = .ok m) :
    ∀ r ∈ m.relationships.toList, ∃ declared ∈ d.relationships, r = buildRelationship declared ∧
      r.injectedInSource.isSome = true ∧
      (r.injectedInSource = some "" ↔ LeavesEmpty declared) := by
  intro r hr
  obtain ⟨declared, hdeclared, rfl⟩ := mem_relationships_toModel h hr
  exact ⟨declared, hdeclared, rfl, rfl, injectedInSource_eq_empty_iff declared⟩

/-- Authors and books, these with a name in Cyrillic letters. -/
def bookList : Document :=
  { empty with
    entities := [⟨"Author", none, none, []⟩, ⟨"Книга", none, none, []⟩]
    relationships :=
      [⟨.oneToOne, ⟨"Author", none, none, false⟩, ⟨"Книга", none, none, false⟩⟩,
        ⟨.manyToOne, ⟨"Книга", none, none, false⟩, ⟨"Author", none, none, false⟩⟩] }

private theorem bookList_resolved :
    ∃ m, bookList.toModel .any (fun _ => ⟨"secret", "key"⟩) = .ok m ∧
      m.relationships.toList = bookList.relationships.map buildRelationship := by
  have hrun : ((bookList.toModel .any fun _ => ⟨"secret", "key"⟩).toOption.map fun m =>
      m.relationships.toList) = some (bookList.relationships.map buildRelationship) := by
    decide +kernel
  cases hresult : bookList.toModel .any (fun _ => ⟨"secret", "key"⟩) with
  | error f => simp [hresult, Except.toOption] at hrun
  | ok m => exact ⟨m, rfl, by simpa [hresult, Except.toOption] using hrun⟩

theorem bookList_sourceFields : ∃ m, bookList.toModel .any (fun _ => ⟨"secret", "key"⟩) = .ok m ∧
    m.relationships.toList ≠ [] ∧
    ∀ r ∈ m.relationships.toList, ∃ declared ∈ bookList.relationships,
      r = buildRelationship declared ∧ r.injectedInSource.isSome = true ∧
      (r.injectedInSource = some "" ↔ LeavesEmpty declared) := by
  obtain ⟨m, hrun, hlist⟩ := bookList_resolved
  exact ⟨m, hrun, by rw [hlist]; decide, toModel_sourceFields hrun⟩

/-- The author of the list gets an injected field without a name, though no end states one. -/
theorem bookList_emptySource :
    ¬ ∀ (d : Document) (target : Target) (draw : Nat → Secrets) (m : Model),
      d.toModel target draw = .ok m →
      (∀ r ∈ d.relationships,
        r.source.injectedField ≠ some "" ∧ r.destination.injectedField ≠ some "") →
      ∀ r ∈ m.relationships.toList, ∃ field, r.injectedInSource = some field ∧ field ≠ "" := by
  intro hclaim
  obtain ⟨m, hrun, hlist⟩ := bookList_resolved
  have hnamed := hclaim bookList _ _ m hrun (by decide)
  rw [hlist] at hnamed
  revert hnamed
  decide

end Document
end DomainModel
