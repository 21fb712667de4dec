import DomainModel.Descriptor.Equality
import DomainModel.Proofs.Json.Canonical
import Mathlib.Data.List.Perm.Subperm
/-!
# Equality of JSON values and of descriptors

Comparing canonical forms decides whether two JSON values are the same but for the order of keys and
the signs of zeros, and that is an equivalence. So is stating the same entity, which compares the
fields and relationships of two descriptors as such values, and for which the changelog date does
not matter.
-/
namespace DomainModel

namespace Json

/-- The same value: lists agree item by item and records key by key, in whatever order the keys
stand. Of a repeated key the last value counts, and the zeros of both signs are the same. -/
inductive Alike : Json → Json → Prop
  | scalar (s : Scalar) : Alike (.scalar s) (.scalar s)
  | zeros {x y : Binary64} (hx : x.significand = 0) (hy : y.significand = 0) :
      Alike (.scalar (.float x)) (.scalar (.float y))
  | list {a b : List Json} (length : a.length = b.length)
      (items : ∀ (i : Nat) v w, a[i]? = some v → b[i]? = some w → Alike v w) :
      Alike (.list a) (.list b)
  | record {a b : List (String × Json)}
      (keys : ∀ key, key ∈ a.map Prod.fst ↔ key ∈ b.map Prod.fst)
      (values : ∀ key v w, (Json.record a).get? key = some v →
        (Json.record b).get? key = some w → Alike v w) :
      Alike (.record a) (.record b)

theorem mem_of_get? {key : String} {v : Json} {entries : List (String × Json)}
    (h : (record entries).get? key = some v) : (key, v) ∈ entries :=
  List.mem_reverse.mp (Table.mem_of_lookup h)

theorem exists_get?_iff {key : String} {entries : List (String × Json)} :
    (∃ v, (record entries).get? key = some v) ↔ key ∈ entries.map Prod.fst := by
  rw [← Option.isSome_iff_exists, ← Option.ne_none_iff_isSome, ne_eq, get?,
    Table.lookup_eq_none_iff, not_not, List.map_reverse, List.mem_reverse]

namespace Alike

theorem refl (j : Json) : j.Alike j := by
  induction j using inductionOn with
  | scalar s => exact .scalar s
  | list items ih =>
    refine .list rfl fun i v w hv hw => ?_
    obtain rfl := Option.some.inj (hv.symm.trans hw)
    exact ih v (List.mem_of_getElem? hv)
  | record entries ih =>
    refine .record (fun key => Iff.rfl) fun key v w hv hw => ?_
    obtain rfl := Option.some.inj (hv.symm.trans hw)
    exact ih (key, v) (mem_of_get? hv)

theorem symm {a b : Json} (h : a.Alike b) : b.Alike a := by
  induction h with
  | scalar s => exact .scalar s
  | zeros hx hy => exact .zeros hy hx
  | list length _ ih => exact .list length.symm fun i v w hv hw => ih i w v hw hv
  | record keys _ ih =>
    exact .record (fun key => (keys key).symm) fun key v w hv hw => ih key w v hw hv

theorem trans {a b c : Json} (hab : a.Alike b) (hbc : b.Alike c) : a.Alike c := by
  induction hab generalizing c with
  | scalar s => exact hbc
  | zeros hx hy =>
    cases hbc with
    | scalar s => exact .zeros hx hy
    | zeros _ hz => exact .zeros hx hz
  | @list a b length _ ih =>
    cases hbc with
    | @list _ c length' items =>
      refine .list (length.trans length') fun i v w hv hw => ?_
      have hi : i < b.length := length ▸ (List.getElem?_eq_some_iff.mp hv).1
      have hmiddle := List.getElem?_eq_getElem hi
      exact ih i v b[i] hv hmiddle (items i b[i] w hmiddle hw)
  | @record a b keys _ ih =>
    cases hbc with
    | @record _ c keys' values =>
      refine .record (fun key => (keys key).trans (keys' key)) fun key v w hv hw => ?_
      obtain ⟨u, hu⟩ := exists_get?_iff.mpr ((keys key).mp (exists_get?_iff.mp ⟨v, hv⟩))
      exact ih key v u hv hu (values key u w hu hw)

end Alike

theorem Scalar.same_iff {s t : Scalar} :
    Scalar.same s t = true ↔ (Json.scalar s).Alike (.scalar t) := by
  constructor
  · intro h
    by_cases hst : s = t
    · exact hst ▸ .scalar s
    · cases s <;> cases t <;> simp_all [Scalar.same, Binary64.same, Binary64.isZero]
      exact .zeros h.1 h.2
  · intro h
    cases h with
    | scalar s => cases s <;> simp [Scalar.same, Binary64.same]
    | zeros hx hy => simp [Scalar.same, Binary64.same, Binary64.isZero, hx, hy]

private theorem sameItems_iff {a b : List Json} :
    sameItems a b = true ↔ a.length = b.length ∧
      ∀ (i : Nat) v w, a[i]? = some v → b[i]? = some w → v.same w = true := by
  induction a generalizing b with
  | nil => cases b <;> simp [sameItems]
  | cons x a ih =>
    cases b with
    | nil => simp [sameItems]
    | cons y b =>
      simp only [sameItems, Bool.and_eq_true, ih, List.length_cons, Nat.add_right_cancel_iff]
      constructor
      · rintro ⟨hxy, hlength, hitems⟩
        refine ⟨hlength, fun i v w hv hw => ?_⟩
        cases i with
        | zero => simp_all
        | succ i => exact hitems i v w (by simpa using hv) (by simpa using hw)
      · rintro ⟨hlength, hitems⟩
        exact ⟨hitems 0 x y rfl rfl, hlength, fun i v w hv hw => hitems (i + 1) v w hv hw⟩

private theorem sameEntries_iff {a b : List (String × Json)} :
    sameEntries a b = true ↔ ∀ e ∈ a, ∃ w, Table.lookup e.1 b = some w ∧ e.2.same w = true := by
  induction a with
  | nil => simp [sameEntries]
  | cons e rest ih =>
    rw [sameEntries, Bool.and_eq_true, ih, List.forall_mem_cons]
    cases Table.lookup e.1 b <;> simp

private theorem same_record_iff {t u : Table String Json} :
    (record t.entries).same (record u.entries) = true ↔
      (∀ key, key ∈ t.keys ↔ key ∈ u.keys) ∧
        ∀ key v w, t.find? key = some v → u.find? key = some w → v.same w = true := by
  -- a look-up of every key in one direction and equal sizes compare the tables in both directions,
  -- since each has its keys once
  rw [same, Bool.and_eq_true, beq_iff_eq, sameEntries_iff]
  constructor
  · rintro ⟨hsize, hentries⟩
    have hsubset : t.keys ⊆ u.keys := by
      intro key hkey
      obtain ⟨v, hv⟩ := Table.mem_keys.mp hkey
      obtain ⟨w, hw, -⟩ := hentries (key, v) hv
      exact (Table.mem_keys_iff u key).mpr ⟨w, hw⟩
    have hlength : u.keys.length ≤ t.keys.length := by simp [Table.keys, hsize]
    have hperm : t.keys.Perm u.keys :=
      (List.subperm_of_subset t.distinct hsubset).perm_of_length_le hlength
    refine ⟨fun key => hperm.mem_iff, fun key v w hv hw => ?_⟩
    obtain ⟨w', hw', hsame⟩ := hentries (key, v) (Table.find?_eq_some_iff.mp hv)
    obtain rfl := Option.some.inj (hw.symm.trans hw')
    exact hsame
  · rintro ⟨hkeys, hvalues⟩
    have hperm : t.keys.Perm u.keys := (List.perm_ext_iff_of_nodup t.distinct u.distinct).mpr hkeys
    refine ⟨by simpa [Table.keys] using hperm.length_eq, fun e he => ?_⟩
    have hkey : e.1 ∈ u.keys := (hkeys e.1).mp (List.mem_map_of_mem he)
    obtain ⟨w, hw⟩ := (Table.mem_keys_iff u e.1).mp hkey
    exact ⟨w, hw, hvalues e.1 e.2 w (Table.find?_eq_some_iff.mpr he) hw⟩

theorem find?_canonicalTable (entries : List (String × Json)) (key : String) :
    (canonicalTable entries).find? key = ((record entries).get? key).map canonical := by
  rw [← get?_canonical, canonical_record, get?, Table.lookup_reverse_entries]

theorem mem_keys_canonicalTable {entries : List (String × Json)} {key : String} :
    key ∈ (canonicalTable entries).keys ↔ key ∈ entries.map Prod.fst := by
  rw [Table.mem_keys_iff, find?_canonicalTable, ← exists_get?_iff]
  simp only [Option.map_eq_some_iff]
  exact ⟨fun ⟨_, v, hv, _⟩ => ⟨v, hv⟩, fun ⟨v, hv⟩ => ⟨_, v, hv, rfl⟩⟩

/-- Comparing canonical forms decides whether two values are the same. -/
theorem same_canonical_iff {a b : Json} : a.canonical.same b.canonical = true ↔ a.Alike b := by
  induction a using inductionOn generalizing b with
  | scalar s =>
    cases b with
    | scalar t => exact Scalar.same_iff
    | list b => exact iff_of_false (by simp [canonical, same]) (by rintro ⟨⟩)
    | record b => exact iff_of_false (by simp [canonical, same]) (by rintro ⟨⟩)
  | list a ih =>
    cases b with
    | scalar t => exact iff_of_false (by simp [canonical, same]) (by rintro ⟨⟩)
    | list b =>
      simp only [canonical_list, same, sameItems_iff, List.length_map, List.getElem?_map,
        Option.map_eq_some_iff]
      constructor
      · rintro ⟨hlength, hitems⟩
        refine .list hlength fun i v w hv hw => (ih v (List.mem_of_getElem? hv)).mp ?_
        exact hitems i _ _ ⟨v, hv, rfl⟩ ⟨w, hw, rfl⟩
      · rintro ⟨⟩
        next hlength hitems =>
        refine ⟨hlength, ?_⟩
        rintro i _ _ ⟨v, hv, rfl⟩ ⟨w, hw, rfl⟩
        exact (ih v (List.mem_of_getElem? hv)).mpr (hitems i v w hv hw)
    | record b => exact iff_of_false (by simp [canonical, same]) (by rintro ⟨⟩)
  | record a ih =>
    cases b with
    | scalar t => exact iff_of_false (by simp [canonical, same]) (by rintro ⟨⟩)
    | list b => exact iff_of_false (by simp [canonical, same]) (by rintro ⟨⟩)
    | record b =>
      simp only [canonical_record, same_record_iff, mem_keys_canonicalTable, find?_canonicalTable,
        Option.map_eq_some_iff]
      constructor
      · rintro ⟨hkeys, hvalues⟩
        refine .record hkeys fun key v w hv hw => (ih _ (mem_of_get? hv)).mp ?_
        exact hvalues key _ _ ⟨v, hv, rfl⟩ ⟨w, hw, rfl⟩
      · rintro ⟨⟩
        next hkeys hvalues =>
        refine ⟨hkeys, ?_⟩
        rintro key _ _ ⟨v, hv, rfl⟩ ⟨w, hw, rfl⟩
        exact (ih _ (mem_of_get? hv)).mpr (hvalues key v w hv hw)

theorem alike_list_map_iff {α : Type} {f : α → Json} {a b : List α} :
    (list (a.map f)).Alike (list (b.map f)) ↔ a.length = b.length ∧
      ∀ (i : Nat) x y, a[i]? = some x → b[i]? = some y → (f x).Alike (f y) := by
  constructor
  · rintro ⟨⟩
    next hlength hitems =>
    refine ⟨by simpa using hlength, fun i x y hx hy => hitems i _ _ ?_ ?_⟩
    · rw [List.getElem?_map, hx, Option.map_some]
    · rw [List.getElem?_map, hy, Option.map_some]
  · rintro ⟨hlength, hitems⟩
    refine .list (by simpa using hlength) ?_
    simp only [List.getElem?_map, Option.map_eq_some_iff]
    rintro i _ _ ⟨x, hx, rfl⟩ ⟨y, hy, rfl⟩
    exact hitems i x y hx hy

/-- A whole number differs from a binary64 number; the two binary64 zeros do not differ. -/
example : ¬ (int 0).Alike (.scalar (.float (.zero false))) ∧
    (scalar (.float (.zero false))).Alike (.scalar (.float (.zero true))) :=
  ⟨nofun, .zeros rfl rfl⟩

end Json

theorem sameRecords_iff {a b : List Json} :
    sameRecords a b = true ↔ (Json.list a).Alike (.list b) := by
  have hitems : ∀ a b, sameRecords a b = Json.sameItems (a.map Json.canonical)
      (b.map Json.canonical) := by
    intro a
    induction a with
    | nil => rintro (_ | _) <;> rfl
    | cons x a ih =>
      rintro (_ | ⟨y, b⟩)
      · rfl
      · simp [sameRecords, Json.sameItems, sameRecord, ih]
  rw [hitems, ← Json.same_canonical_iff, Json.canonical_list, Json.canonical_list, Json.same]

namespace EntityDescriptor

/-- The fields and relationships are the same one by one as JSON records, and the options that count
are identical; filtering is off where nothing is said about it. -/
structure Agrees (a b : EntityDescriptor) : Prop where
  fieldCount : a.fields.length = b.fields.length
  fields : ∀ (i : Nat) f g, a.fields[i]? = some f → b.fields[i]? = some g → f.toJson.Alike g.toJson
  relationshipCount : a.relationships.length = b.relationships.length
  relationships : ∀ (i : Nat) r s, a.relationships[i]? = some r → b.relationships[i]? = some s →
    r.toJson.Alike s.toJson
  dto : a.dto = b.dto
  service : a.service = b.service
  pagination : a.pagination = b.pagination
  searchEngine : a.searchEngine = b.searchEngine
  tableName : a.tableName = b.tableName
  comment : a.comment = b.comment
  filtering : a.filtering.getD false = b.filtering.getD false

theorem sameOptions_iff {a b : EntityDescriptor} : sameOptions a b = true ↔
    a.dto = b.dto ∧ a.service = b.service ∧ a.pagination = b.pagination ∧
      a.searchEngine = b.searchEngine ∧ a.tableName = b.tableName ∧ a.comment = b.comment ∧
      a.filtering.getD false = b.filtering.getD false := by
  simp [sameOptions, and_assoc]

theorem sameEntity_iff {a b : EntityDescriptor} : a.sameEntity b = true ↔
    (Json.list (a.fields.map FieldDescriptor.toJson)).Alike
        (.list (b.fields.map FieldDescriptor.toJson)) ∧
      (Json.list (a.relationships.map RelationshipDescriptor.toJson)).Alike
        (.list (b.relationships.map RelationshipDescriptor.toJson)) ∧
      sameOptions a b = true := by
  rw [sameEntity, Bool.and_eq_true, Bool.and_eq_true, sameRecords_iff, sameRecords_iff, and_assoc]

theorem sameEntity_iff_agrees {a b : EntityDescriptor} :
    a.sameEntity b = true ↔ a.Agrees b := by
  rw [sameEntity_iff, sameOptions_iff, Json.alike_list_map_iff, Json.alike_list_map_iff]
  constructor
  · rintro ⟨⟨hfieldCount, hfields⟩, ⟨hcount, hrelationships⟩, hdto, hservice, hpagination, hsearch,
      htable, hcomment, hfiltering⟩
    exact ⟨hfieldCount, hfields, hcount, hrelationships, hdto, hservice, hpagination, hsearch,
      htable, hcomment, hfiltering⟩
  · intro h
    exact ⟨⟨h.fieldCount, h.fields⟩, ⟨h.relationshipCount, h.relationships⟩, h.dto, h.service,
      h.pagination, h.searchEngine, h.tableName, h.comment, h.filtering⟩

theorem sameEntity_refl (d : EntityDescriptor) : d.sameEntity d = true :=
  sameEntity_iff.mpr ⟨.refl _, .refl _, by simp [sameOptions]⟩

theorem sameEntity_symm {a b : EntityDescriptor} (h : a.sameEntity b = true) :
    b.sameEntity a = true := by
  obtain ⟨hfields, hrelationships, hoptions⟩ := sameEntity_iff.mp h
  refine sameEntity_iff.mpr ⟨hfields.symm, hrelationships.symm, ?_⟩
  simp_all [sameOptions_iff]

theorem sameEntity_trans {a b c : EntityDescriptor} (hab : a.sameEntity b = true)
    (hbc : b.sameEntity c = true) : a.sameEntity c = true := by
  obtain ⟨hfields, hrelationships, hoptions⟩ := sameEntity_iff.mp hab
  obtain ⟨hfields', hrelationships', hoptions'⟩ := sameEntity_iff.mp hbc
  refine sameEntity_iff.mpr ⟨hfields.trans hfields', hrelationships.trans hrelationships', ?_⟩
  simp_all [sameOptions_iff]

theorem sameEntity_restated (d : EntityDescriptor) (date : Option String)
    (owners : Option Owners) :
    { d with changelogDate := date, owners := owners }.sameEntity d = true :=
  d.sameEntity_refl

/-- The same descriptor with a changelog date of its own. -/
def dated (d : EntityDescriptor) (date : Option String) : EntityDescriptor :=
  { d with changelogDate := date }

@[simp] theorem sameEntity_dated_left (d c : EntityDescriptor) (date : Option String) :
    (d.dated date).sameEntity c = d.sameEntity c := rfl

@[simp] theorem sameEntity_dated_right (d c : EntityDescriptor) (date : Option String) :
    d.sameEntity (c.dated date) = d.sameEntity c := rfl

/-- Stating the same entity is an equivalence. It holds exactly of descriptors that agree, so a
changelog date, whatever it is and on whichever side, does not change the answer. -/
theorem sameEntity_equivalence :
    Equivalence (fun a b : EntityDescriptor => a.sameEntity b = true) ∧
      (∀ a b : EntityDescriptor, a.sameEntity b = true ↔ a.Agrees b) ∧
      ∀ (a b : EntityDescriptor) (date : Option String),
        (a.dated date).sameEntity b = a.sameEntity b ∧
          a.sameEntity (b.dated date) = a.sameEntity b := by
  refine ⟨⟨sameEntity_refl, sameEntity_symm, sameEntity_trans⟩,
    fun a b => sameEntity_iff_agrees, fun a b date => ⟨?_, ?_⟩⟩
  · exact sameEntity_dated_left a b date
  · exact sameEntity_dated_right a b date

end EntityDescriptor
end DomainModel
