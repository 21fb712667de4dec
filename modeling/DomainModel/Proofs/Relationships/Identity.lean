import DomainModel.Proofs.Relationships.Collection
import DomainModel.Proofs.Text.Pieces
/-!
# Relationship identities

The identity of a relationship is one text. Where names and fields hold no braces and a field is
injected in the source, the text still tells cardinality, ends and fields apart. Without a field in
the source, nothing tells where an underscore parts the names of the ends.
-/
namespace DomainModel

/-- A text without opening and closing braces. -/
def Unbraced (s : String) : Prop := '\x7b' ∉ s.toList ∧ '\x7d' ∉ s.toList

instance (s : String) : Decidable (Unbraced s) :=
  inferInstanceAs (Decidable ('\x7b' ∉ s.toList ∧ '\x7d' ∉ s.toList))

theorem Unbraced.append {a b : String} (ha : Unbraced a) (hb : Unbraced b) : Unbraced (a ++ b) := by
  simp only [Unbraced, String.toList_append, List.mem_append, not_or]
  exact ⟨⟨ha.1, hb.1⟩, ha.2, hb.2⟩

namespace Cardinality

theorem word_inj {c d : Cardinality} (h : c.word = d.word) : c = d := by
  cases c <;> cases d <;> first | rfl | exact absurd h (by decide)

theorem word_unseparated (c : Cardinality) : '_' ∉ c.word.toList := by
  cases c <;> decide

theorem ofDescriptorWord?_descriptorWord (c : Cardinality) :
    ofDescriptorWord? c.descriptorWord = some c := by
  cases c <;> decide

@[simp] theorem reversed_reversed (c : Cardinality) : c.reversed.reversed = c := by
  cases c <;> rfl

end Cardinality

namespace Relationship

/-- Cardinality, entities and injected fields are the same. -/
structure SameEnds (r s : Relationship) : Prop where
  cardinality : r.cardinality = s.cardinality
  source : r.source = s.source
  injectedInSource : r.injectedInSource = s.injectedInSource
  destination : r.destination = s.destination
  injectedInDestination : r.injectedInDestination = s.injectedInDestination

/-- The end of an identity after the source: a destination and its field in braces. -/
private def destinationChars (destination : String) (field : Option String) : List Char :=
  destination.toList ++ (braced field).toList

private theorem destinationChars_inj {a b : String} {f g : Option String} (ha : Unbraced a)
    (hb : Unbraced b) (h : destinationChars a f = destinationChars b g) : a = b ∧ f = g := by
  cases f with
  | none =>
    cases g with
    | none =>
      have hab : a.toList = b.toList := by simpa [destinationChars, braced] using h
      exact ⟨String.toList_inj.mp hab, rfl⟩
    | some g =>
      have hbrace : '\x7b' ∈ a.toList := by
        have hab : a.toList = b.toList ++ ('\x7b' :: (g.toList ++ ['\x7d'])) := by
          simpa [destinationChars, braced] using h
        simp [hab]
      exact absurd hbrace ha.1
  | some f =>
    cases g with
    | none =>
      have hbrace : '\x7b' ∈ b.toList := by
        have hab : a.toList ++ ('\x7b' :: (f.toList ++ ['\x7d'])) = b.toList := by
          simpa [destinationChars, braced] using h
        simp [← hab]
      exact absurd hbrace hb.1
    | some g =>
      have hab : a.toList ++ '\x7b' :: (f.toList ++ ['\x7d']) =
          b.toList ++ '\x7b' :: (g.toList ++ ['\x7d']) := by
        simpa [destinationChars, braced] using h
      obtain ⟨hname, hfield⟩ := cut_inj ha.1 hb.1 hab
      have hfg : f.toList = g.toList := List.append_cancel_right hfield
      exact ⟨String.toList_inj.mp hname, by rw [String.toList_inj.mp hfg]⟩

private theorem id_toList {r : Relationship} {f : String} (hf : r.injectedInSource = some f) :
    r.id.toList = r.cardinality.word.toList ++ '_' :: (r.source.toList ++ '\x7b' ::
      (f.toList ++ '\x7d' :: ('_' :: destinationChars r.destination r.injectedInDestination))) := by
  simp [id, hf, braced, destinationChars]

private theorem eq_sources_of_id_eq {r s : Relationship} {f g : String}
    (hf : r.injectedInSource = some f) (hg : s.injectedInSource = some g)
    (hr : Unbraced r.source) (hs : Unbraced s.source) (h : r.id = s.id) :
    r.cardinality = s.cardinality ∧ r.source = s.source ∧
      f.toList ++ '\x7d' :: ('_' :: destinationChars r.destination r.injectedInDestination) =
        g.toList ++ '\x7d' :: ('_' :: destinationChars s.destination s.injectedInDestination) := by
  have hlist : r.id.toList = s.id.toList := by rw [h]
  rw [id_toList hf, id_toList hg] at hlist
  obtain ⟨hword, hlist⟩ :=
    cut_inj r.cardinality.word_unseparated s.cardinality.word_unseparated hlist
  obtain ⟨hsource, hlist⟩ := cut_inj hr.1 hs.1 hlist
  exact ⟨Cardinality.word_inj (String.toList_inj.mp hword), String.toList_inj.mp hsource, hlist⟩

/-- Identities tell relationships with a field in the source apart. -/
theorem eq_ends_of_id_eq {r s : Relationship} {f g : String}
    (hf : r.injectedInSource = some f) (hg : s.injectedInSource = some g)
    (hr : Unbraced r.source ∧ Unbraced f ∧ Unbraced r.destination)
    (hs : Unbraced s.source ∧ Unbraced g ∧ Unbraced s.destination) (h : r.id = s.id) :
    r.cardinality = s.cardinality ∧ r.source = s.source ∧ f = g ∧
      r.destination = s.destination ∧ r.injectedInDestination = s.injectedInDestination := by
  obtain ⟨hcard, hsource, hlist⟩ := eq_sources_of_id_eq hf hg hr.1 hs.1 h
  obtain ⟨hfield, hlist⟩ := cut_inj hr.2.1.2 hs.2.1.2 hlist
  obtain ⟨hdestination, hinjected⟩ :=
    destinationChars_inj hr.2.2 hs.2.2 (List.cons.inj hlist).2
  exact ⟨hcard, hsource, String.toList_inj.mp hfield, hdestination, hinjected⟩

private theorem id_toList_unmarked {r : Relationship} (hr : r.injectedInSource = none) :
    r.id.toList = r.cardinality.word.toList ++
      '_' :: destinationChars (r.source ++ "_" ++ r.destination) r.injectedInDestination := by
  simp [id, hr, braced, destinationChars]

/-- Without fields in the sources, identities tell the ends only as far as the names joined do. -/
theorem eq_joined_of_id_eq {r s : Relationship} (hf : r.injectedInSource = none)
    (hg : s.injectedInSource = none) (hr : Unbraced r.source ∧ Unbraced r.destination)
    (hs : Unbraced s.source ∧ Unbraced s.destination) (h : r.id = s.id) :
    r.cardinality = s.cardinality ∧
      r.source ++ "_" ++ r.destination = s.source ++ "_" ++ s.destination ∧
      r.injectedInDestination = s.injectedInDestination := by
  have hlist : r.id.toList = s.id.toList := by rw [h]
  rw [id_toList_unmarked hf, id_toList_unmarked hg] at hlist
  obtain ⟨hword, hlist⟩ :=
    cut_inj r.cardinality.word_unseparated s.cardinality.word_unseparated hlist
  have hline : Unbraced "_" := by decide
  obtain ⟨hjoined, hinjected⟩ :=
    destinationChars_inj ((hr.1.append hline).append hr.2) ((hs.1.append hline).append hs.2) hlist
  exact ⟨Cardinality.word_inj (String.toList_inj.mp hword), hjoined, hinjected⟩

theorem id_ne_of_unmarked {r s : Relationship} {f : String} (hf : r.injectedInSource = some f)
    (hg : s.injectedInSource = none) (hr : Unbraced r.source ∧ Unbraced f)
    (hs : Unbraced s.source ∧ Unbraced s.destination)
    (hinjected : ∀ g ∈ s.injectedInDestination, Unbraced g) : r.id ≠ s.id := by
  intro h
  have hlist : r.id.toList = s.id.toList := by rw [h]
  rw [id_toList hf, id_toList_unmarked hg] at hlist
  obtain ⟨-, hlist⟩ :=
    cut_inj r.cardinality.word_unseparated s.cardinality.word_unseparated hlist
  have hjoined : Unbraced (s.source ++ "_" ++ s.destination) :=
    (hs.1.append (by decide)).append hs.2
  cases hd : s.injectedInDestination with
  | none =>
    have hbrace : '\x7b' ∈ (s.source ++ "_" ++ s.destination).toList := by
      rw [hd] at hlist
      simp only [destinationChars, braced, String.toList_empty, List.append_nil] at hlist
      simp [← hlist]
    exact hjoined.1 hbrace
  | some g =>
    rw [hd] at hlist
    have hcut : r.source.toList ++ '\x7b' :: (f.toList ++ '\x7d' ::
        ('_' :: destinationChars r.destination r.injectedInDestination)) =
          (s.source ++ "_" ++ s.destination).toList ++ '\x7b' :: (g.toList ++ '\x7d' :: []) := by
      simpa [destinationChars, braced] using hlist
    obtain ⟨-, hfields⟩ := cut_inj hr.1.1 hjoined.1 hcut
    obtain ⟨-, hrest⟩ := cut_inj hr.2.2 (hinjected g hd).2 hfields
    exact absurd hrest (List.cons_ne_nil _ _)

private theorem getLast?_destinationChars {name : String} {field : Option String}
    (hname : Unbraced name) :
    ('_' :: destinationChars name field).getLast? = some '\x7d' ↔ field.isSome = true := by
  cases field with
  | none =>
    simp only [destinationChars, braced, String.toList_empty, List.append_nil, Option.isSome_none,
      Bool.false_eq_true, iff_false]
    intro hlast
    rcases List.mem_cons.mp (List.mem_of_getLast? hlast) with hline | hmem
    · exact absurd hline (by decide)
    · exact hname.2 hmem
  | some field => simp [destinationChars, braced, List.getLast?_cons, List.getLast?_append]

private theorem count_destinationChars {name : String} (hname : Unbraced name)
    (field : Option String) : (destinationChars name field).count '\x7d' =
      match field with
      | none => 0
      | some field => field.toList.count '\x7d' + 1 := by
  have hzero : name.toList.count '\x7d' = 0 := List.count_eq_zero.mpr hname.2
  cases field with
  | none => simp [destinationChars, braced, hzero]
  | some field => simp [destinationChars, braced, hzero]

/-- A relationship without braces in names and fields is told from every relationship between names
without braces, whatever the fields of the other hold. -/
theorem eq_ends_of_id_eq_unbraced {r s : Relationship} {f g : String}
    (hf : r.injectedInSource = some f) (hg : s.injectedInSource = some g)
    (hr : Unbraced r.source ∧ Unbraced f ∧ Unbraced r.destination ∧
      ∀ d ∈ r.injectedInDestination, Unbraced d)
    (hs : Unbraced s.source ∧ Unbraced s.destination) (h : r.id = s.id) :
    r.cardinality = s.cardinality ∧ r.source = s.source ∧ f = g ∧
      r.destination = s.destination ∧ r.injectedInDestination = s.injectedInDestination := by
  obtain ⟨hcard, hsource, hlist⟩ := eq_sources_of_id_eq hf hg hr.1 hs.1 h
  -- both texts close as many braces, and both or none of them close one at the end
  have hlast : r.injectedInDestination.isSome = s.injectedInDestination.isSome := by
    have hends : ('_' :: destinationChars r.destination r.injectedInDestination).getLast? =
        ('_' :: destinationChars s.destination s.injectedInDestination).getLast? := by
      simpa [List.getLast?_append, List.getLast?_cons] using congrArg List.getLast? hlist
    rw [Bool.eq_iff_iff, ← getLast?_destinationChars hr.2.2.1, hends,
      getLast?_destinationChars hs.2]
  have hcount := congrArg (List.count '\x7d') hlist
  simp only [List.count_append, List.count_cons, count_destinationChars hr.2.2.1,
    count_destinationChars hs.2] at hcount
  have hfield : f.toList.count '\x7d' = 0 := List.count_eq_zero.mpr hr.2.1.2
  have hopen : '\x7d' ∉ g.toList := by
    rw [← List.count_eq_zero]
    cases hd : r.injectedInDestination with
    | none =>
      rw [hd, Option.isSome_none, eq_comm, Option.isSome_eq_false_iff, Option.isNone_iff_eq_none]
        at hlast
      rw [hd, hlast] at hcount
      simp only at hcount
      omega
    | some d =>
      rw [hd, Option.isSome_some] at hlast
      obtain ⟨d', hd'⟩ := Option.isSome_iff_exists.mp hlast.symm
      have hzero : d.toList.count '\x7d' = 0 := List.count_eq_zero.mpr (hr.2.2.2 d hd).2
      rw [hd, hd'] at hcount
      simp only at hcount
      omega
  obtain ⟨hfield, hlist⟩ := cut_inj hr.2.1.2 hopen hlist
  obtain ⟨hdestination, hinjected⟩ := destinationChars_inj hr.2.2.1 hs.2 (List.cons.inj hlist).2
  exact ⟨hcard, hsource, String.toList_inj.mp hfield, hdestination, hinjected⟩

end Relationship

namespace RelationshipTable
variable {t : RelationshipTable}

theorem id_ne_of_cardinality_ne {r s : Relationship} (h : r.cardinality ≠ s.cardinality) :
    r.id ≠ s.id := by
  intro hid
  have hlist : r.id.toList = s.id.toList := congrArg String.toList hid
  simp only [Relationship.id, String.toList_append, List.append_assoc] at hlist
  have hword := (cut_inj r.cardinality.word_unseparated s.cardinality.word_unseparated hlist).1
  exact h (Cardinality.word_inj (String.toList_inj.mp hword))

/-- No identity stands twice, neither in a group nor in two of them. -/
theorem Keyed.ids_nodup (h : t.Keyed) : t.ids.Nodup := by
  have hids : t.ids = t.groups.entries.flatMap fun g => g.2.values.map Relationship.id := by
    simp [ids, toList, Table.values, List.map_flatMap, List.flatMap_map]
  rw [hids, List.nodup_flatMap]
  constructor
  · rintro ⟨c, g⟩ hg
    have hkeys : g.values.map Relationship.id = g.keys := by
      rw [Table.values, List.map_map]
      refine List.map_congr_left fun e he => ?_
      have hentry : (e.1, e.2) ∈ (t.group c).entries := group_of_mem hg ▸ he
      exact (h c e.1 e.2 hentry).1.symm
    exact hkeys ▸ g.distinct
  · refine (List.pairwise_map.mp t.groups.distinct).imp_of_mem ?_
    rintro ⟨c, g⟩ ⟨c', g'⟩ hg hg' hne x hx hx'
    obtain ⟨r, hr, rfl⟩ := List.mem_map.mp hx
    obtain ⟨s, hs, hid⟩ := List.mem_map.mp hx'
    obtain ⟨k, hk⟩ := Table.mem_values.mp hr
    obtain ⟨k', hk'⟩ := Table.mem_values.mp hs
    have hrc := (h c k r (group_of_mem hg ▸ hk)).2
    have hsc := (h c' k' s (group_of_mem hg' ▸ hk')).2
    exact id_ne_of_cardinality_ne (hsc ▸ hrc ▸ Ne.symm hne) hid

end RelationshipTable

end DomainModel
