import DomainModel.Proofs.Tables
import DomainModel.Reading
/-!
# Written records are read back

What a reader finds in a record of all its declared keys is what was written under each of them. A
record that names its kind is read the same way from the content that is kept of it.
-/
namespace DomainModel
namespace SourceTree
variable {τ α β : Type}

/-- A reading goes on with what it has read. -/
theorem reads {x : Option α} {a : α} {f : α → Option β} {b : β} (h : x = some a)
    (hf : f a = some b) : x >>= f = some b :=
  Option.bind_eq_some_iff.mpr ⟨a, h, hf⟩

theorem readAll_map {read : τ → Option β} {f : α → τ} {g : α → β} {l : List α}
    (h : ∀ x ∈ l, read (f x) = some (g x)) : readAll read (l.map f) = some (l.map g) := by
  induction l with
  | nil => rfl
  | cons x rest ih =>
    simp [readAll, h x List.mem_cons_self, ih fun y hy => h y (List.mem_cons_of_mem x hy)]

theorem readEntries_map {κ κ' : Type} {read : τ → Option β} {f : α → τ} {g : α → β} {k : κ → κ'}
    {l : List (κ × α)} (h : ∀ e ∈ l, read (f e.2) = some (g e.2)) :
    readEntries read (l.map fun e => (k e.1, f e.2)) = some (l.map fun e => (k e.1, g e.2)) := by
  induction l with
  | nil => rfl
  | cons e rest ih =>
    simp [readEntries, h e List.mem_cons_self, ih fun x hx => h x (List.mem_cons_of_mem e hx)]

theorem fields?_of_named [SourceTree τ] {declared : List DeclaredKey} {t : τ}
    {entries : List (String × τ)} (hdistinct : (declared.map (·.name)).Nodup)
    (hnamed : named? (declared.map (·.name)) t = some entries)
    (hkeys : entries.map Prod.fst = declared.map (·.name)) :
    fields? declared t = some entries := by
  have honce : (declared.map (·.name)).all (standsOnce entries) = true := by
    refine List.all_eq_true.mpr fun key _ => ?_
    have hlength := Table.length_filter_le_one (hkeys ▸ hdistinct) key
    simpa [standsOnce] using hlength
  simp only [fields?, hnamed, honce, if_true]

theorem fields?_record {declared : List DeclaredKey} {entries : List (String × Json)}
    (hdistinct : (declared.map (·.name)).Nodup)
    (hkeys : entries.map Prod.fst = declared.map (·.name)) :
    fields? declared (Json.record entries) = some entries :=
  fields?_of_named hdistinct rfl hkeys

theorem required_of_lookup {entries : List (String × τ)} {key : String} {t : τ}
    {read : τ → Option α} {a : α} (ht : Table.lookup key entries = some t)
    (ha : read t = some a) : required entries key read = some a := by
  rw [required, ht]
  exact ha

section Optional
variable {entries : List (String × Json)} {key : String}

theorem optional_of_lookup {read : Json → Option α} {write : α → Json} {a : Option α}
    (ht : Table.lookup key entries = some (Json.orNull (a.map write)))
    (hread : ∀ x ∈ a, read (write x) = some x ∧ (write x).isNull = false) :
    optional entries key read = some a := by
  rw [optional, ht]
  cases a with
  | none => rfl
  | some x =>
    obtain ⟨hx, hnull⟩ := hread x rfl
    simp [Json.orNull, isNull, hnull, hx]

theorem optional_text {s : Option String}
    (ht : Table.lookup key entries = some (Json.optionalText s)) :
    optional entries key text? = some s :=
  optional_of_lookup ht fun _ _ => ⟨rfl, rfl⟩

theorem optional_bool {b : Option Bool}
    (ht : Table.lookup key entries = some (Json.optionalBool b)) :
    optional entries key bool? = some b :=
  optional_of_lookup ht fun _ _ => ⟨rfl, rfl⟩

end Optional

theorem tableOf_record {read : Json → Option α} {write : α → Json} {t : Table String α}
    (h : ∀ v ∈ t.values, read (write v) = some v) :
    tableOf read (Json.record (t.entries.map fun e => (e.1, write e.2))) = some t := by
  have hentries : readEntries read (t.entries.map fun e => (e.1, write e.2)) =
      some (t.entries.map fun e => (e.1, e.2)) :=
    readEntries_map (g := id) (k := id) fun e he => h e.2 (List.mem_map_of_mem he)
  simp only [tableOf, entries?, Json.entries?, Option.bind_eq_bind, Option.bind_some, hentries,
    List.map_id', Option.map_some]
  exact congrArg some (Table.ext_entries (Table.entries_ofList t.distinct))

theorem textSet_texts (s : NameSet) : textSet (Json.texts s.names) = some s := by
  have hnames : readAll text? (s.names.map Json.text) = some (s.names.map id) :=
    readAll_map fun _ _ => rfl
  simp only [textSet, listOf, items?, Json.items?, Json.texts, Option.bind_eq_bind,
    Option.bind_some, hnames, List.map_id, Option.map_some, NameSet.ofList_names]

section Content

theorem itemsToContent_eq_map (items : List Json) :
    Json.itemsToContent items = items.map Json.toContent := by
  induction items with
  | nil => rfl
  | cons v rest ih => rw [Json.itemsToContent, ih, List.map_cons]

theorem entriesToContent_eq_map (entries : List (String × Json)) :
    Json.entriesToContent entries =
      entries.map fun e => (ContentKey.name e.1, e.2.toContent) := by
  induction entries with
  | nil => rfl
  | cons e rest ih => rw [Json.entriesToContent, ih, List.map_cons]

theorem named?_toContent (declared : List String) (entries : List (String × Json)) :
    named? declared (Json.record entries).toContent =
      some (entries.map fun e => (e.1, e.2.toContent)) := by
  have hnames : Content.withNames (ContentKey.among? declared) (Json.entriesToContent entries) =
      some (entries.map fun e => (some e.1, e.2.toContent)) := by
    induction entries with
    | nil => rfl
    | cons e rest ih => simp only [Json.entriesToContent, Content.withNames, ih,
        ContentKey.among?, List.map_cons]
  have hsome : (entries.map fun e => (some e.1, e.2.toContent)).filterMap
      (fun e => e.1.map (·, e.2)) = entries.map fun e => (e.1, e.2.toContent) := by
    rw [List.filterMap_map, ← List.filterMap_eq_map']
    rfl
  simp only [named?, Json.toContent, Content.named?, hnames, Option.map_some, hsome]

theorem textSet_toContent (s : NameSet) : textSet (Json.texts s.names).toContent = some s := by
  have hnames : readAll text? ((s.names.map Json.text).map Json.toContent) =
      some (s.names.map id) := by
    rw [List.map_map]
    exact readAll_map fun _ _ => rfl
  simp only [textSet, listOf, items?, Json.texts, Json.toContent, itemsToContent_eq_map,
    Content.items?, Option.bind_eq_bind, Option.bind_some, hnames, List.map_id, Option.map_some,
    NameSet.ofList_names]

theorem tagged?_record {key kind : String} {others : List (String × Json)}
    (h : key ∉ others.map Prod.fst) :
    tagged? key (Json.record ((key, .text kind) :: others)) =
      some (kind, (Json.record others).toContent) := by
  set keyed := others.map fun e => (ContentKey.name e.1, e.2) with hkeyed
  have hother : ∀ e ∈ keyed, e.1 ≠ .name key := by
    intro e he hkey
    obtain ⟨x, hx, rfl⟩ := List.mem_map.mp he
    exact h (ContentKey.name.inj hkey ▸ List.mem_map_of_mem hx)
  have htags : keyed.filter (fun e => e.1 == .name key) = [] :=
    List.filter_eq_nil_iff.mpr fun e he => by simpa using hother e he
  have hrest : keyed.filter (fun e => e.1 != .name key) = keyed :=
    List.filter_eq_self.mpr fun e he => by simpa using hother e he
  have hread : readEntries content? keyed =
      some (others.map fun e => (ContentKey.name e.1, e.2.toContent)) :=
    readEntries_map (f := id) (g := Json.toContent) fun _ _ => rfl
  have hentries : contentEntries? (Json.record ((key, .text kind) :: others)) =
      some ((ContentKey.name key, .text kind) :: keyed) := rfl
  have hkind : text? (Json.text kind) = some kind := rfl
  simp [tagged?, hentries, htags, hrest, hread, hkind, Json.toContent, entriesToContent_eq_map]

end Content
end SourceTree
end DomainModel
