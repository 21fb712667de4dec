import DomainModel.Json.Value
import DomainModel.Proofs.Tables
/-!
# The canonical form of values

The canonical form of a record is the table of its entries, each with its value in canonical form.
It is its own canonical form, and what is found in it is the canonical form of what was found.
-/
namespace DomainModel
namespace Json

/-- What holds of scalars, of lists of values of which it holds, and of records of such values,
holds of every value. -/
@[elab_as_elim]
theorem inductionOn {motive : Json → Prop} (scalar : ∀ s, motive (.scalar s))
    (list : ∀ items, (∀ v ∈ items, motive v) → motive (.list items))
    (record : ∀ entries, (∀ e ∈ entries, motive e.2) → motive (.record entries)) (j : Json) :
    motive j :=
  @Json.rec motive (fun items => ∀ v ∈ items, motive v)
    (fun entries => ∀ e ∈ entries, motive e.2) (fun e => motive e.2) scalar list record
    (List.forall_mem_nil _) (fun _ _ hv hrest => List.forall_mem_cons.mpr ⟨hv, hrest⟩)
    (List.forall_mem_nil _) (fun _ _ he hrest => List.forall_mem_cons.mpr ⟨he, hrest⟩)
    (fun _ _ h => h) j

/-- The entries with their values in canonical form, in which the last of a key decides. -/
def canonicalTable (entries : List (String × Json)) : Table String Json :=
  Table.ofList (entries.map fun e => (e.1, e.2.canonical))

private theorem canonicalEntries_eq (t : Table String Json) (entries : List (String × Json)) :
    canonicalEntries t.entries entries =
      (t.insertAll (entries.map fun e => (e.1, e.2.canonical))).entries := by
  induction entries generalizing t with
  | nil => rfl
  | cons e rest ih => exact ih (t.insert e.1 e.2.canonical)

theorem canonical_record (entries : List (String × Json)) :
    (record entries).canonical = record (canonicalTable entries).entries := by
  rw [canonical, canonicalTable, Table.ofList, ← canonicalEntries_eq]
  rfl

theorem canonical_list (items : List Json) :
    (list items).canonical = list (items.map canonical) := by
  have hitems : ∀ items, canonicalItems items = items.map canonical := by
    intro items
    induction items with
    | nil => rfl
    | cons v rest ih => rw [canonicalItems, ih, List.map_cons]
  rw [canonical, hitems]

theorem mem_canonicalTable {entries : List (String × Json)} {e : String × Json}
    (h : e ∈ (canonicalTable entries).entries) : ∃ e' ∈ entries, e'.2.canonical = e.2 := by
  rcases Table.mem_values_insertAll (Table.mem_values.mpr ⟨e.1, h⟩) with hempty | hadded
  · exact absurd hempty List.not_mem_nil
  · simpa using hadded

/-- The table of distinct keys over canonical values is the list of them. -/
theorem canonicalTable_settled {t : Table String Json} (h : ∀ e ∈ t.entries, e.2.canonical = e.2) :
    canonicalTable t.entries = t := by
  have hvalues : t.entries.map (fun e => (e.1, e.2.canonical)) = t.entries.map id :=
    List.map_congr_left fun e he => Prod.ext rfl (h e he)
  rw [canonicalTable, hvalues, List.map_id]
  exact Table.ext_entries (Table.entries_ofList t.distinct)

@[simp] theorem canonical_canonical (j : Json) : j.canonical.canonical = j.canonical := by
  induction j using inductionOn with
  | scalar s => rfl
  | list items ih =>
    rw [canonical_list, canonical_list, List.map_map]
    exact congrArg list (List.map_congr_left ih)
  | record entries ih =>
    rw [canonical_record, canonical_record, canonicalTable_settled]
    -- The values of the table are canonical forms of values of the record.
    intro e he
    obtain ⟨e', hmem, heq⟩ := mem_canonicalTable he
    rw [← heq]
    exact ih e' hmem

theorem get?_canonical (key : String) (j : Json) :
    j.canonical.get? key = (j.get? key).map canonical := by
  cases j with
  | scalar _ => rfl
  | list _ => rw [canonical_list]; rfl
  | record entries =>
    have hmap : ∀ l : List (String × Json),
        Table.lookup key (l.map fun e => (e.1, e.2.canonical)) =
          (Table.lookup key l).map canonical := by
      intro l
      induction l with
      | nil => rfl
      | cons e rest ih => by_cases he : e.1 = key <;> simp [Table.lookup, he, ih]
    rw [canonical_record, get?, get?, Table.lookup_reverse_entries, canonicalTable, Table.ofList,
      Table.find?_insertAll, ← List.map_reverse, hmap]
    exact Option.or_none

/-- The items of the list under a key, none where no list stands. -/
def itemsUnder (key : String) (j : Json) : List Json :=
  match j.get? key with
  | some (.list items) => items
  | _ => []

theorem itemsUnder_canonical (key : String) (j : Json) :
    j.canonical.itemsUnder key = (j.itemsUnder key).map canonical := by
  rw [itemsUnder, itemsUnder, get?_canonical]
  cases j.get? key with
  | none => rfl
  | some v =>
    cases v with
    | scalar _ => rfl
    | list items => simp [canonical_list]
    | record entries => simp [canonical_record]

end Json
end DomainModel
