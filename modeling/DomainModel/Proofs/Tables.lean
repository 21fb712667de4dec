import DomainModel.Table
import Mathlib.Data.List.Induction
import Mathlib.Data.List.Nodup
import Mathlib.Data.List.Pairwise
/-!
# Entries of ordered tables and names of sets

A table is a list of entries with distinct keys, so looking up a key and finding its entry are the
same, and a list whose keys are already distinct is the table made from it. A set of names holds
what was inserted.
-/
namespace DomainModel

/-- Two members that both contribute `x` to a list without repeats are the same. -/
theorem eq_of_nodup_flatMap {α β : Type} {l : List α} {f : α → List β} (h : (l.flatMap f).Nodup)
    {a b : α} (ha : a ∈ l) (hb : b ∈ l) {x : β} (hx : x ∈ f a) (hx' : x ∈ f b) : a = b := by
  by_contra hne
  have hdisjoint := (List.nodup_flatMap.mp h).2
  have : Std.Symm (Function.onFun List.Disjoint f) := ⟨fun _ _ h _ hb ha => h ha hb⟩
  exact hdisjoint.forall ha hb hne hx hx'

theorem eraseDups_concat {κ : Type} [DecidableEq κ] (l : List κ) (a : κ) :
    (l ++ [a]).eraseDups = if a ∈ l then l.eraseDups else l.eraseDups ++ [a] := by
  rw [List.eraseDups_append]
  by_cases h : a ∈ l
  · simp [List.removeAll, h]
  · simp [List.removeAll, h, List.eraseDups_cons]

/-- A run that appends each key where it is missing leaves the keys in order of first occurrence. -/
theorem keys_foldl {σ β κ : Type} [DecidableEq κ] (keys : σ → List κ) {key : β → κ}
    {step : σ → β → σ} (hstep : ∀ s x, keys (step s x) =
      if key x ∈ keys s then keys s else keys s ++ [key x])
    {s : σ} (hs : keys s = []) (l : List β) :
    keys (l.foldl step s) = (l.map key).eraseDups := by
  induction l using List.reverseRecOn with
  | nil => exact hs
  | append_singleton l x ih =>
    rw [List.foldl_append, List.foldl_cons, List.foldl_nil, hstep, ih, List.map_append,
      List.map_singleton, eraseDups_concat]
    simp only [List.mem_eraseDups]

theorem keys_foldl_append {σ β κ : Type} [DecidableEq κ] (keys : σ → List κ) {key : β → κ}
    {step : σ → β → σ} (hstep : ∀ s x, keys (step s x) =
      if key x ∈ keys s then keys s else keys s ++ [key x]) (s : σ) (l : List β) :
    ∃ new, keys (l.foldl step s) = keys s ++ new ∧ ∀ k, k ∈ new ↔ k ∈ l.map key ∧ k ∉ keys s := by
  induction l using List.reverseRecOn with
  | nil => exact ⟨[], by simp⟩
  | append_singleton l x ih =>
    obtain ⟨new, hkeys, hnew⟩ := ih
    have hlast : keys ((l ++ [x]).foldl step s) =
        if key x ∈ keys s ++ new then keys s ++ new else keys s ++ new ++ [key x] := by
      rw [List.foldl_append, List.foldl_cons, List.foldl_nil, hstep, hkeys]
    have hmem : ∀ k, k ∈ (l ++ [x]).map key ↔ k ∈ l.map key ∨ k = key x := by
      intro k
      rw [List.map_append, List.mem_append, List.map_singleton, List.mem_singleton]
    by_cases hheld : key x ∈ keys s ++ new
    · refine ⟨new, hlast.trans (if_pos hheld), fun k => ?_⟩
      have hold : k = key x → k ∉ keys s → k ∈ l.map key := by
        rintro rfl hfresh
        exact ((hnew _).mp ((List.mem_append.mp hheld).resolve_left hfresh)).1
      rw [hnew, hmem]
      tauto
    · refine ⟨new ++ [key x], ?_, fun k => ?_⟩
      · rw [hlast, if_neg hheld, List.append_assoc]
      · have hfresh : k = key x → k ∉ keys s := by
          rintro rfl hold
          exact hheld (List.mem_append_left new hold)
        rw [List.mem_append, List.mem_singleton, hnew, hmem]
        tauto

namespace Table
variable {κ α : Type}

theorem mem_keys {t : Table κ α} {k : κ} : k ∈ t.keys ↔ ∃ v, (k, v) ∈ t.entries := by
  simp [keys]

theorem mem_values {t : Table κ α} {v : α} : v ∈ t.values ↔ ∃ k, (k, v) ∈ t.entries := by
  simp [values]

theorem isEmpty_values (t : Table κ α) : t.values.isEmpty = t.isEmpty := by
  rw [values, List.isEmpty_map, isEmpty]

@[simp] theorem entries_empty : (∅ : Table κ α).entries = [] := rfl

@[simp] theorem keys_empty : (∅ : Table κ α).keys = [] := rfl

@[simp] theorem values_empty : (∅ : Table κ α).values = [] := rfl

theorem ext_entries {t u : Table κ α} (h : t.entries = u.entries) : t = u := by
  cases t
  cases u
  congr

variable [DecidableEq κ]

theorem mem_of_lookup {k : κ} {v : α} {l : List (κ × α)} (h : lookup k l = some v) :
    (k, v) ∈ l := by
  induction l with
  | nil => simp [lookup] at h
  | cons e rest ih =>
    by_cases he : e.1 = k
    · have hv : e.2 = v := by simpa [lookup, he] using h
      rw [← he, ← hv]
      exact List.mem_cons_self
    · exact List.mem_cons_of_mem e (ih (by simpa [lookup, he] using h))

theorem lookup_of_mem {k : κ} {v : α} {l : List (κ × α)} (hd : (l.map Prod.fst).Nodup)
    (h : (k, v) ∈ l) : lookup k l = some v := by
  induction l with
  | nil => simp at h
  | cons e rest ih =>
    have hcons := List.nodup_cons.mp hd
    rcases List.mem_cons.mp h with rfl | hrest
    · simp [lookup]
    · have he : e.1 ≠ k := by
        intro heq
        exact hcons.1 (heq ▸ List.mem_map_of_mem hrest)
      simpa [lookup, he] using ih hcons.2 hrest

theorem lookup_append (k : κ) (l l' : List (κ × α)) :
    lookup k (l ++ l') = (lookup k l).or (lookup k l') := by
  induction l with
  | nil => rfl
  | cons e rest ih =>
    by_cases he : e.1 = k
    · simp [lookup, he]
    · simpa [lookup, he] using ih

theorem lookup_eq_none_iff {k : κ} {l : List (κ × α)} :
    lookup k l = none ↔ k ∉ l.map Prod.fst := by
  induction l with
  | nil => simp [lookup]
  | cons e rest ih =>
    by_cases he : e.1 = k
    · simp [lookup, he]
    · have hk : ¬ k = e.1 := fun h => he h.symm
      simpa [lookup, he, hk] using ih

theorem lookup_map_const (k : κ) (l : List κ) (v : α) :
    lookup k (l.map fun n => (n, v)) = if k ∈ l then some v else none := by
  induction l with
  | nil => rfl
  | cons n rest ih =>
    by_cases hn : n = k
    · simp [lookup, hn]
    · have hk : ¬ k = n := fun h => hn h.symm
      simp [lookup, hn, hk, ih]

theorem lookup_map_values {β : Type} (f : κ → α → β) (k : κ) (l : List (κ × α)) :
    lookup k (l.map fun e => (e.1, f e.1 e.2)) = (lookup k l).map (f k) := by
  induction l with
  | nil => rfl
  | cons e rest ih =>
    by_cases he : e.1 = k
    · simp [lookup, he]
    · simpa [lookup, he] using ih

theorem find?_eq_some_iff {t : Table κ α} {k : κ} {v : α} :
    t.find? k = some v ↔ (k, v) ∈ t.entries :=
  ⟨mem_of_lookup, lookup_of_mem t.distinct⟩

theorem contains_iff {t : Table κ α} {k : κ} : t.contains k = true ↔ k ∈ t.keys := by
  simp [contains]

theorem put_of_notMem {k : κ} {l : List (κ × α)} (v : α) (h : k ∉ l.map Prod.fst) :
    put k v l = l ++ [(k, v)] := by
  induction l with
  | nil => rfl
  | cons e rest ih =>
    have hk : ¬ (k = e.1 ∨ k ∈ rest.map Prod.fst) := by simpa using h
    have he : e.1 ≠ k := fun h' => hk (.inl h'.symm)
    simp [put, he, ih fun h' => hk (.inr h')]

theorem put_of_lookup {k : κ} {v : α} {l : List (κ × α)} (h : lookup k l = some v) :
    put k v l = l := by
  induction l with
  | nil => simp [lookup] at h
  | cons e rest ih =>
    by_cases he : e.1 = k
    · have hv : e.2 = v := by simpa [lookup, he] using h
      rw [put, if_pos he, ← he, ← hv]
    · simp [put, he, ih (by simpa [lookup, he] using h)]

theorem mem_keys_insert {t : Table κ α} {k k' : κ} {v : α} :
    k' ∈ (t.insert k v).keys ↔ k' = k ∨ k' ∈ t.keys := by
  rw [keys_insert]
  split
  · next hheld => exact (or_iff_right_of_imp fun hk => hk ▸ hheld).symm
  · rw [List.mem_append, List.mem_singleton, or_comm]

theorem mem_entries_insert {t : Table κ α} {k k' : κ} {v v' : α} :
    (k', v') ∈ (t.insert k v).entries ↔ (k' = k ∧ v' = v) ∨ (k' ≠ k ∧ (k', v') ∈ t.entries) := by
  rw [← find?_eq_some_iff, ← find?_eq_some_iff, find?_insert]
  by_cases h : k = k'
  · subst h
    simp [eq_comm]
  · have h' : ¬ k' = k := fun e => h e.symm
    simp [h, h']

theorem mem_values_insert {t : Table κ α} {k : κ} {v w : α} (h : w ∈ (t.insert k v).values) :
    w = v ∨ w ∈ t.values := by
  obtain ⟨k', hk'⟩ := mem_values.mp h
  rcases mem_entries_insert.mp hk' with ⟨-, hw⟩ | ⟨-, hold⟩
  · exact .inl hw
  · exact .inr (mem_values.mpr ⟨k', hold⟩)

theorem entries_insert_of_notMem {t : Table κ α} {k : κ} (v : α) (h : k ∉ t.keys) :
    (t.insert k v).entries = t.entries ++ [(k, v)] :=
  put_of_notMem v h

theorem insert_of_mem {t : Table κ α} {k : κ} {v : α} (h : (k, v) ∈ t.entries) :
    t.insert k v = t :=
  ext_entries (put_of_lookup (find?_eq_some_iff.mpr h))

theorem keys_insertNew (t : Table κ α) (k : κ) (v : α) :
    (t.insertNew k v).keys = if k ∈ t.keys then t.keys else t.keys ++ [k] := by
  by_cases hk : k ∈ t.keys <;> simp [insertNew, contains, hk]

theorem find?_insertNew (t : Table κ α) (k k' : κ) (v : α) :
    (t.insertNew k v).find? k' = (t.find? k').or (if k = k' then some v else none) := by
  by_cases hk : k ∈ t.keys
  · obtain ⟨w, hw⟩ := (mem_keys_iff t k).mp hk
    by_cases hkey : k = k'
    · subst hkey
      simp [insertNew, contains, hk, hw]
    · simp [insertNew, contains, hk, hkey]
  · by_cases hkey : k = k'
    · subst hkey
      have hnone : t.find? k = none := lookup_eq_none_iff.mpr hk
      simp [insertNew, contains, hk, hnone]
    · simp [insertNew, contains, hk, hkey]

theorem ext_find? {t u : Table κ α} (hkeys : t.keys = u.keys)
    (hfind : ∀ k ∈ t.keys, t.find? k = u.find? k) : t = u := by
  have hlength : t.entries.length = u.entries.length := by
    simpa [keys] using congrArg List.length hkeys
  refine ext_entries (List.ext_getElem hlength fun i hi hi' => ?_)
  have hkey : t.entries[i].1 = u.entries[i].1 := by
    have hi'' : t.keys[i]? = u.keys[i]? := by rw [hkeys]
    simpa [keys, hi, hi'] using hi''
  have ht : t.find? t.entries[i].1 = some t.entries[i].2 :=
    find?_eq_some_iff.mpr (List.getElem_mem hi)
  have hu : u.find? u.entries[i].1 = some u.entries[i].2 :=
    find?_eq_some_iff.mpr (List.getElem_mem hi')
  have hmem : t.entries[i].1 ∈ t.keys := List.mem_map_of_mem (List.getElem_mem hi)
  rw [hfind _ hmem, hkey] at ht
  exact Prod.ext hkey (Option.some.inj (ht.symm.trans hu))

theorem insertAll_append (t : Table κ α) (l l' : List (κ × α)) :
    t.insertAll (l ++ l') = (t.insertAll l).insertAll l' :=
  List.foldl_append

theorem mem_values_insertAll {t : Table κ α} {l : List (κ × α)} {w : α}
    (h : w ∈ (t.insertAll l).values) : w ∈ t.values ∨ w ∈ l.map Prod.snd := by
  induction l generalizing t with
  | nil => exact .inl h
  | cons e rest ih =>
    rcases ih (t := t.insert e.1 e.2) h with hadd | hrest
    · rcases mem_values_insert hadd with rfl | hold
      · exact .inr List.mem_cons_self
      · exact .inl hold
    · exact .inr (List.mem_cons_of_mem e.2 hrest)

theorem mem_entries_ofKeyed {β : Type} {l : List β} {key : β → κ} {g : β → α} {k : κ} {v : α} :
    (k, v) ∈ ((∅ : Table κ α).insertAll (l.map fun x => (key x, g x))).entries ↔
      ∃ before x after, l = before ++ x :: after ∧ (∀ y ∈ after, key y ≠ key x) ∧
        key x = k ∧ g x = v := by
  induction l using List.reverseRecOn with
  | nil => simp [insertAll]
  | append_singleton l z ih =>
    have hstep : (∅ : Table κ α).insertAll ((l ++ [z]).map fun x => (key x, g x)) =
        ((∅ : Table κ α).insertAll (l.map fun x => (key x, g x))).insert (key z) (g z) := by
      rw [List.map_append, insertAll_append]
      rfl
    rw [hstep, mem_entries_insert, ih]
    constructor
    · rintro (⟨rfl, rfl⟩ | ⟨hne, before, x, after, rfl, hlast, rfl, rfl⟩)
      · exact ⟨l, z, [], rfl, by simp, rfl, rfl⟩
      · refine ⟨before, x, after ++ [z], by simp, fun y hy => ?_, rfl, rfl⟩
        rcases List.mem_append.mp hy with hy | hy
        · exact hlast y hy
        · exact List.mem_singleton.mp hy ▸ hne.symm
    · rintro ⟨before, x, after, hsplit, hlast, rfl, rfl⟩
      rcases after.eq_nil_or_concat' with rfl | ⟨after, y, rfl⟩
      · obtain ⟨-, rfl⟩ := List.append_singleton_inj.mp hsplit
        exact .inl ⟨rfl, rfl⟩
      · rw [← List.cons_append, ← List.append_assoc] at hsplit
        obtain ⟨rfl, rfl⟩ := List.append_singleton_inj.mp hsplit
        exact .inr ⟨(hlast z (by simp)).symm, before, x, after, rfl,
          fun y hy => hlast y (List.mem_append_left _ hy), rfl, rfl⟩

theorem keys_insertAll_empty (l : List (κ × α)) :
    ((∅ : Table κ α).insertAll l).keys = (l.map Prod.fst).eraseDups :=
  keys_foldl keys (fun t e => keys_insert t e.1 e.2) rfl l

/-- The table files the items under their keys: the first item of a key gives the place, and what
stands there is made of the last one. -/
structure HoldsLast {β : Type} (t : Table κ α) (l : List β) (key : β → κ)
    (made : β → α → Prop) : Prop where
  keys : t.keys = (l.map key).eraseDups
  last : ∀ before x after, l = before ++ x :: after → (∀ y ∈ after, key y ≠ key x) →
    ∃ v, t.find? (key x) = some v ∧ made x v

theorem holdsLast_insertAll {β : Type} {l : List β} {key : β → κ} {g : β → α} {made : β → α → Prop}
    (h : ∀ x ∈ l, made x (g x)) :
    ((∅ : Table κ α).insertAll (l.map fun x => (key x, g x))).HoldsLast l key made := by
  refine ⟨?_, fun before x after hsplit hlast => ⟨g x, ?_, h x (by simp [hsplit])⟩⟩
  · rw [keys_insertAll_empty, List.map_map]
    rfl
  · exact find?_eq_some_iff.mpr
      (mem_entries_ofKeyed.mpr ⟨before, x, after, hsplit, hlast, rfl, rfl⟩)

theorem entries_insertAll {t : Table κ α} {l : List (κ × α)}
    (h : (t.keys ++ l.map Prod.fst).Nodup) : (t.insertAll l).entries = t.entries ++ l := by
  induction l generalizing t with
  | nil => simp [insertAll]
  | cons e rest ih =>
    have happ := List.nodup_append.mp h
    have hnew : e.1 ∉ t.keys := fun hm => happ.2.2 e.1 hm e.1 (by simp) rfl
    have hentries := entries_insert_of_notMem e.2 hnew
    have hkeys : (t.insert e.1 e.2).keys = t.keys ++ [e.1] := by simp [hnew]
    change ((t.insert e.1 e.2).insertAll rest).entries = _
    rw [ih (by rw [hkeys]; simpa using h), hentries]
    simp

/-- The last entry written under a key decides. -/
theorem find?_insertAll (t : Table κ α) (l : List (κ × α)) (k : κ) :
    (t.insertAll l).find? k = (lookup k l.reverse).or (t.find? k) := by
  induction l generalizing t with
  | nil => rfl
  | cons e rest ih =>
    change ((t.insert e.1 e.2).insertAll rest).find? k = _
    rw [ih, find?_insert, List.reverse_cons, lookup_append, Option.or_assoc]
    by_cases h : e.1 = k <;> simp [lookup, h]

theorem lookup_reverse_eq_some {k : κ} {v : α} {l : List (κ × α)}
    (h : lookup k l.reverse = some v) :
    ∃ i : Nat, l[i]? = some (k, v) ∧ ∀ (j : Nat) (e : κ × α), i < j → l[j]? = some e → e.1 ≠ k := by
  induction l using List.reverseRecOn with
  | nil => simp [lookup] at h
  | append_singleton l e ih =>
    rw [List.reverse_append] at h
    by_cases hk : e.1 = k
    · have hv : e.2 = v := by simpa [lookup, hk] using h
      refine ⟨l.length, by simp [← hk, ← hv], ?_⟩
      intro j e' hj he'
      have hlen := (List.getElem?_eq_some_iff.mp he').1
      rw [List.length_append, List.length_singleton] at hlen
      omega
    · obtain ⟨i, hi, hlast⟩ := ih (by simpa [lookup, hk] using h)
      have hlen := (List.getElem?_eq_some_iff.mp hi).1
      refine ⟨i, by rw [List.getElem?_append_left hlen, hi], ?_⟩
      intro j e' hj he'
      by_cases hjl : j < l.length
      · exact hlast j e' hj (by rwa [List.getElem?_append_left hjl] at he')
      · have hlen' := (List.getElem?_eq_some_iff.mp he').1
        rw [List.length_append, List.length_singleton] at hlen'
        obtain rfl : j = l.length := by omega
        obtain rfl : e = e' := by simpa using he'
        exact hk

theorem length_filter_le_one {l : List (κ × α)} (h : (l.map Prod.fst).Nodup) (k : κ) :
    (l.filter fun e => e.1 == k).length ≤ 1 := by
  have hcount := List.nodup_iff_count_le_one.mp h k
  rwa [List.count_eq_countP, List.countP_map, List.countP_eq_length_filter] at hcount

theorem lookup_reverse_of_once {k : κ} {l : List (κ × α)}
    (h : (l.filter fun e => e.1 == k).length ≤ 1) : lookup k l.reverse = lookup k l := by
  induction l with
  | nil => rfl
  | cons e rest ih =>
    rw [List.reverse_cons, lookup_append]
    by_cases he : e.1 = k
    · have hrest : ∀ e' ∈ rest, ¬ e'.1 = k := by simpa [he, List.filter_eq_nil_iff] using h
      have hnone : lookup k rest.reverse = none :=
        lookup_eq_none_iff.mpr (by simpa using fun v hv => hrest (k, v) hv rfl)
      simp [lookup, he, hnone]
    · simp [lookup, he, ih (by simpa [he] using h)]

theorem lookup_reverse_entries (t : Table κ α) (k : κ) :
    lookup k t.entries.reverse = t.find? k :=
  lookup_reverse_of_once (length_filter_le_one t.distinct k)

private theorem filter_put (p : κ → Bool) (k : κ) (v : α) (l : List (κ × α)) :
    (put k v l).filter (fun e => p e.1) =
      if p k then put k v (l.filter fun e => p e.1) else l.filter fun e => p e.1 := by
  induction l with
  | nil => by_cases hk : p k <;> simp [put, hk]
  | cons e rest ih =>
    by_cases he : e.1 = k
    · by_cases hk : p k <;> simp [put, he, hk]
    · by_cases hk : p k <;> by_cases hp : p e.1 <;> simp_all [put]

theorem filter_insertAll (p : κ → Bool) (t : Table κ α) (l : List (κ × α)) :
    (t.insertAll l).filter (fun k _ => p k) =
      (t.filter fun k _ => p k).insertAll (l.filter fun e => p e.1) := by
  induction l generalizing t with
  | nil => rfl
  | cons e rest ih =>
    have hstep : (t.insert e.1 e.2).filter (fun k _ => p k) =
        (t.filter fun k _ => p k).insertAll ([e].filter fun e => p e.1) := by
      refine ext_entries ((filter_put p e.1 e.2 t.entries).trans ?_)
      by_cases he : p e.1 <;> simp [he, insertAll, insert, filter]
    change ((t.insert e.1 e.2).insertAll rest).filter _ = _
    rw [ih, hstep, ← insertAll_append, ← List.filter_append]
    rfl

theorem entries_ofList {l : List (κ × α)} (h : (l.map Prod.fst).Nodup) :
    (ofList l).entries = l := by
  have hall :=
    entries_insertAll (t := (empty : Table κ α)) (l := l) (by simpa [keys, empty] using h)
  simpa [ofList, empty] using hall

theorem ofList_of_consistent {l : List (κ × α)} (h : ∀ x ∈ l, ∀ y ∈ l, x.1 = y.1 → x = y) :
    (ofList l).entries.Sublist l ∧ ∀ x ∈ l, x ∈ (ofList l).entries := by
  induction l using List.reverseRecOn with
  | nil => simp [ofList, insertAll, empty]
  | append_singleton l x ih =>
    obtain ⟨hsub, hall⟩ := ih fun y hy z hz =>
      h y (List.mem_append_left _ hy) z (List.mem_append_left _ hz)
    have hstep : ofList (l ++ [x]) = (ofList l).insert x.1 x.2 := by
      rw [ofList, insertAll_append]
      rfl
    by_cases hkey : x.1 ∈ (ofList l).keys
    · obtain ⟨v, hv⟩ := mem_keys.mp hkey
      have hx : (x.1, v) = x :=
        h _ (List.mem_append_left _ (hsub.subset hv)) x (by simp) rfl
      rw [hx] at hv
      rw [hstep, insert_of_mem hv]
      refine ⟨hsub.trans (List.sublist_append_left l [x]), fun y hy => ?_⟩
      rcases List.mem_append.mp hy with hy | hy
      · exact hall y hy
      · exact List.mem_singleton.mp hy ▸ hv
    · rw [hstep, entries_insert_of_notMem _ hkey]
      refine ⟨hsub.append (List.Sublist.refl _), fun y hy => ?_⟩
      rcases List.mem_append.mp hy with hy | hy
      · exact List.mem_append_left _ (hall y hy)
      · exact List.mem_append_right _ hy

/-- A sorted table is made of any sorted list of its entries, however often these are repeated. -/
theorem ofList_of_pairwise {r : κ → κ → Prop} {t : Table κ α} {l : List (κ × α)}
    (hantisymm : ∀ a ∈ t.keys, ∀ b ∈ t.keys, r a b → r b a → a = b)
    (ht : t.entries.Pairwise fun x y => r x.1 y.1) (hl : l.Pairwise fun x y => r x.1 y.1)
    (hmem : ∀ x, x ∈ l ↔ x ∈ t.entries) : ofList l = t := by
  have hkeys : ∀ x ∈ t.entries, ∀ y ∈ t.entries, x.1 = y.1 → x = y := by
    intro x hx y hy hkey
    have hx' : t.find? x.1 = some x.2 := find?_eq_some_iff.mpr hx
    have hy' : t.find? x.1 = some y.2 := find?_eq_some_iff.mpr (hkey ▸ hy)
    exact Prod.ext hkey (Option.some.inj (hx'.symm.trans hy'))
  obtain ⟨hsub, hall⟩ := ofList_of_consistent fun x hx y hy =>
    hkeys x ((hmem x).mp hx) y ((hmem y).mp hy)
  have hperm : (ofList l).entries.Perm t.entries := by
    refine (List.perm_ext_iff_of_nodup (ofList l).distinct.of_map t.distinct.of_map).mpr fun x => ?_
    exact ⟨fun hx => (hmem x).mp (hsub.subset hx), fun hx => hall x ((hmem x).mpr hx)⟩
  refine ext_entries (hperm.eq_of_pairwise ?_ (hl.sublist hsub) ht)
  intro x y hx hy hxy hyx
  have hx' := hperm.subset hx
  apply hkeys x hx' y hy
  exact hantisymm x.1 (List.mem_map_of_mem hx') y.1 (List.mem_map_of_mem hy) hxy hyx

theorem insertAll_values {t : Table κ α} {key : α → κ}
    (h : ∀ k v, (k, v) ∈ t.entries → key v = k) :
    (∅ : Table κ α).insertAll (t.values.map fun v => (key v, v)) = t := by
  have hentries : t.values.map (fun v => (key v, v)) = t.entries := by
    rw [values, List.map_map]
    exact (List.map_congr_left fun e he => by simp [h e.1 e.2 he]).trans (List.map_id _)
  rw [hentries]
  exact ext_entries (entries_insertAll (t := ∅) t.distinct)

end Table

namespace NameSet

theorem ext_names {s t : NameSet} (h : s.names = t.names) : s = t := by
  cases s
  cases t
  congr

theorem isEmpty_eq_false_iff {s : NameSet} : s.isEmpty = false ↔ ∃ n, n ∈ s := by
  change s.names.isEmpty = false ↔ ∃ n, n ∈ s.names
  rw [List.isEmpty_eq_false_iff_exists_mem]

theorem insertAll_append (s : NameSet) (l l' : List String) :
    s.insertAll (l ++ l') = (s.insertAll l).insertAll l' :=
  List.foldl_append

theorem mem_insertAll {s : NameSet} {l : List String} {n : String} :
    n ∈ s.insertAll l ↔ n ∈ s ∨ n ∈ l := by
  induction l generalizing s with
  | nil => simp [insertAll]
  | cons a rest ih =>
    change n ∈ (s.insert a).insertAll rest ↔ _
    rw [ih, mem_insert, List.mem_cons, or_assoc]

theorem mem_ofList {l : List String} {n : String} : n ∈ ofList l ↔ n ∈ l := by
  rw [ofList, mem_insertAll]
  exact or_iff_right (List.not_mem_nil (a := n))

theorem names_ofList (l : List String) : (ofList l).names = l.eraseDups := by
  have hkeys : (ofList l).names = (l.map id).eraseDups := keys_foldl names names_insert rfl l
  rw [hkeys, List.map_id]

theorem names_insertAll {s : NameSet} {l : List String} (h : (s.names ++ l).Nodup) :
    (s.insertAll l).names = s.names ++ l := by
  induction l generalizing s with
  | nil => simp [insertAll]
  | cons a rest ih =>
    have hnew : a ∉ s.names := fun hm => (List.nodup_append.mp h).2.2 a hm a (by simp) rfl
    have hnames : (s.insert a).names = s.names ++ [a] := by simp [names_insert, hnew]
    change ((s.insert a).insertAll rest).names = _
    rw [ih (by rw [hnames]; simpa using h), hnames]
    simp

theorem ofList_names (s : NameSet) : ofList s.names = s := by
  have hnames : (empty.insertAll s.names).names = [] ++ s.names :=
    names_insertAll (s := empty) (by simpa [empty] using s.distinct)
  exact ext_names hnames

theorem ofList_names_append (s : NameSet) (l : List String) :
    ofList (s.names ++ l) = s.insertAll l := by
  rw [ofList, insertAll_append]
  exact congrArg (insertAll · l) (ofList_names s)

end NameSet

theorem Table.entries_insertAll_told {α : Type} (g : String → Option α) (l : List String) :
    ((∅ : Table String α).insertAll (l.filterMap fun k => (g k).map fun v => (k, v))).entries =
      (NameSet.ofList l).names.filterMap fun k => (g k).map fun v => (k, v) := by
  have hrun : ∀ (l : List String) (t : Table String α) (s : NameSet),
      (t.entries = s.names.filterMap fun k => (g k).map fun v => (k, v)) →
      (t.insertAll (l.filterMap fun k => (g k).map fun v => (k, v))).entries =
        (s.insertAll l).names.filterMap fun k => (g k).map fun v => (k, v) := by
    intro l
    induction l with
    | nil => exact fun _ _ h => h
    | cons k rest ih =>
      intro t s h
      have hmem : ∀ v, (k, v) ∈ t.entries ↔ k ∈ s.names ∧ g k = some v := by
        intro v
        simp only [h, List.mem_filterMap, Option.map_eq_some_iff, Prod.mk.injEq]
        constructor
        · rintro ⟨k', hk', v', hv', rfl, rfl⟩
          exact ⟨hk', hv'⟩
        · rintro ⟨hk, hv⟩
          exact ⟨k, hk, v, hv, rfl, rfl⟩
      cases hk : g k with
      | none =>
        rw [List.filterMap_cons_none (by simp [hk])]
        refine ih t (s.insert k) ?_
        rw [h, NameSet.names_insert]
        split <;> simp [hk]
      | some v =>
        rw [List.filterMap_cons_some (by rw [hk]; rfl)]
        refine ih (t.insert k v) (s.insert k) ?_
        rw [NameSet.names_insert]
        split
        · next hheld => rw [insert_of_mem ((hmem v).mpr ⟨hheld, hk⟩), h]
        · next hnew =>
          have hkeys : k ∉ t.keys := by
            intro hheld
            obtain ⟨w, hw⟩ := mem_keys.mp hheld
            exact hnew ((hmem w).mp hw).1
          rw [entries_insert_of_notMem v hkeys, h]
          simp [hk]
  exact hrun l ∅ NameSet.empty rfl

end DomainModel
