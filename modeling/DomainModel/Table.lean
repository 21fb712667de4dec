/-!
# Ordered tables and name sets

A table keeps its keys in the order in which they were first written; writing under a key that is
already present replaces the value and leaves the key where it is. A name set is a list without
repeats, in order of first insertion.
-/
namespace DomainModel

/-- Distinct keys with their values, in order of first insertion. -/
structure Table (κ α : Type) where
  entries : List (κ × α)
  distinct : (entries.map Prod.fst).Nodup
  deriving DecidableEq

namespace Table
variable {κ α β : Type}

def empty : Table κ α := ⟨[], List.nodup_nil⟩

instance : Inhabited (Table κ α) := ⟨empty⟩

instance : EmptyCollection (Table κ α) := ⟨empty⟩

def keys (t : Table κ α) : List κ := t.entries.map Prod.fst

def values (t : Table κ α) : List α := t.entries.map Prod.snd

def size (t : Table κ α) : Nat := t.entries.length

def isEmpty (t : Table κ α) : Bool := t.entries.isEmpty

def filter (p : κ → α → Bool) (t : Table κ α) : Table κ α where
  entries := t.entries.filter fun e => p e.1 e.2
  distinct := t.distinct.sublist (List.filter_sublist.map _)

variable [DecidableEq κ]

/-- The value of the first entry under `k`. -/
def lookup (k : κ) : List (κ × α) → Option α
  | [] => none
  | e :: rest => if e.1 = k then some e.2 else lookup k rest

def find? (t : Table κ α) (k : κ) : Option α := lookup k t.entries

def contains (t : Table κ α) (k : κ) : Bool := decide (k ∈ t.keys)

/-- Replaces the value of `k` where it stands, or appends `k` at the end. -/
def put (k : κ) (v : α) : List (κ × α) → List (κ × α)
  | [] => [(k, v)]
  | e :: rest => if e.1 = k then (k, v) :: rest else e :: put k v rest

theorem keys_put (k : κ) (v : α) (l : List (κ × α)) :
    (put k v l).map Prod.fst =
      if k ∈ l.map Prod.fst then l.map Prod.fst else l.map Prod.fst ++ [k] := by
  induction l with
  | nil => rfl
  | cons e rest ih =>
    by_cases h : e.1 = k
    · simp [put, h]
    · have hk : ¬ k = e.1 := fun hk => h hk.symm
      by_cases hm : k ∈ rest.map Prod.fst
      · simp [put, h, ih, hm]
      · simp only [put, h, if_false, List.map_cons, ih, hm, List.mem_cons, hk, or_self,
          List.cons_append]

theorem lookup_put (k k' : κ) (v : α) (l : List (κ × α)) :
    lookup k' (put k v l) = if k = k' then some v else lookup k' l := by
  induction l with
  | nil => simp [put, lookup]
  | cons e rest ih =>
    by_cases he : e.1 = k
    · by_cases h : k = k' <;> simp [put, lookup, he, h]
    · by_cases h : e.1 = k'
      · have hk : ¬ k' = k := fun h' => he (h.trans h')
        have hk' : ¬ k = k' := fun h' => hk h'.symm
        simp [put, lookup, h, hk, hk']
      · simp [put, lookup, he, h, ih]

def insert (t : Table κ α) (k : κ) (v : α) : Table κ α where
  entries := put k v t.entries
  distinct := by
    rw [keys_put]
    split
    · exact t.distinct
    · next h =>
      refine List.nodup_append.mpr ⟨t.distinct, List.nodup_cons.mpr ⟨by simp, List.nodup_nil⟩, ?_⟩
      intro a ha b hb hab
      rw [List.mem_singleton] at hb
      exact h (hb ▸ hab ▸ ha)

/-- Removes `k`; the other keys keep their order. -/
def erase (t : Table κ α) (k : κ) : Table κ α := t.filter fun k' _ => decide (k' ≠ k)

/-- Writes the entries in turn. -/
def insertAll (t : Table κ α) (l : List (κ × α)) : Table κ α :=
  l.foldl (fun t e => t.insert e.1 e.2) t

def ofList (l : List (κ × α)) : Table κ α := empty.insertAll l

/-- Writes `v` only where `k` is still missing. -/
def insertNew (t : Table κ α) (k : κ) (v : α) : Table κ α :=
  if t.contains k then t else t.insert k v

@[simp] theorem keys_insert (t : Table κ α) (k : κ) (v : α) :
    (t.insert k v).keys = if k ∈ t.keys then t.keys else t.keys ++ [k] :=
  keys_put k v t.entries

@[simp] theorem find?_insert (t : Table κ α) (k k' : κ) (v : α) :
    (t.insert k v).find? k' = if k = k' then some v else t.find? k' :=
  lookup_put k k' v t.entries

@[simp] theorem find?_empty (k : κ) : (empty : Table κ α).find? k = none := rfl

theorem mem_keys_iff (t : Table κ α) (k : κ) : k ∈ t.keys ↔ ∃ v, t.find? k = some v := by
  unfold keys find?
  induction t.entries with
  | nil => simp [lookup]
  | cons e rest ih =>
    by_cases h : e.1 = k
    · simp [lookup, h]
    · have hk : ¬ k = e.1 := fun hk => h hk.symm
      simpa [lookup, h, hk] using ih

end Table

/-- Names without repeats, in order of first insertion. -/
structure NameSet where
  names : List String
  distinct : names.Nodup
  deriving DecidableEq

namespace NameSet

def empty : NameSet := ⟨[], List.nodup_nil⟩

instance : Inhabited NameSet := ⟨empty⟩

instance : EmptyCollection NameSet := ⟨empty⟩

instance : Membership String NameSet := ⟨fun s n => n ∈ s.names⟩

instance (n : String) (s : NameSet) : Decidable (n ∈ s) :=
  inferInstanceAs (Decidable (n ∈ s.names))

def contains (s : NameSet) (n : String) : Bool := decide (n ∈ s)

def isEmpty (s : NameSet) : Bool := s.names.isEmpty

def insert (s : NameSet) (n : String) : NameSet :=
  if h : n ∈ s.names then s else
    { names := s.names ++ [n]
      distinct := by
        refine List.nodup_append.mpr ⟨s.distinct, List.nodup_cons.mpr ⟨by simp, List.nodup_nil⟩, ?_⟩
        intro a ha b hb hab
        rw [List.mem_singleton] at hb
        exact h (hb ▸ hab ▸ ha) }

def insertAll (s : NameSet) (l : List String) : NameSet := l.foldl insert s

def ofList (l : List String) : NameSet := empty.insertAll l

def singleton (n : String) : NameSet :=
  ⟨[n], List.nodup_cons.mpr ⟨by simp, List.nodup_nil⟩⟩

theorem names_insert (s : NameSet) (n : String) :
    (s.insert n).names = if n ∈ s.names then s.names else s.names ++ [n] := by
  unfold insert
  split <;> rfl

@[simp] theorem mem_insert (s : NameSet) (n m : String) : m ∈ s.insert n ↔ m ∈ s ∨ m = n := by
  change m ∈ (s.insert n).names ↔ m ∈ s.names ∨ m = n
  rw [names_insert]
  split
  · next h => exact ⟨Or.inl, fun hm => hm.elim id (fun e => e ▸ h)⟩
  · simp

end NameSet
end DomainModel
