import DomainModel.Proofs.Disk.Dates
import DomainModel.Proofs.Disk.Places
/-!
# What a directory lists

A directory lists, in increasing order, the names under which something stands in it. Making the
directories of a path makes all of them, and gives none a name that a path cannot follow.
-/
namespace DomainModel

/-- The place of a name in a directory. -/
def Location.child (l : Location) (name : String) : Location := ⟨l.anchor, l.names ++ [name]⟩

theorem Location.child_inj {l : Location} {a b : String} (h : l.child a = l.child b) : a = b := by
  have hnames := List.append_cancel_left (Location.mk.inj h).2
  exact (List.cons.inj hnames).1

namespace Path

theorem isUsable_of_join {path part : String} (h : isUsable (join path part) = true)
    (hpath : path ≠ "") (hpart : isAbsolute part = false) : isUsable path = true := by
  have hparts : ∃ rest, join path part = path ++ rest := by
    unfold join
    rw [hpart]
    split
    · next hempty => simp [hpath] at hempty
    · split
      · exact ⟨part, rfl⟩
      · exact ⟨"/" ++ part, String.append_assoc⟩
  obtain ⟨rest, hrest⟩ := hparts
  rw [hrest] at h
  simp only [isUsable, Bool.and_eq_true, decide_eq_true_eq, Bool.not_eq_true',
    List.contains_eq_mem, decide_eq_false_iff_not, String.toList_append, List.mem_append,
    not_or, String.utf8ByteSize_append] at h ⊢
  obtain ⟨⟨-, hsize⟩, hnull, -⟩ := h
  exact ⟨⟨by simpa using hpath, by omega⟩, hnull⟩

theorem isSegment_of_mem {path segment : String} (h : segment ∈ segments path) :
    IsSegment segment := by
  obtain ⟨piece, hpiece, rfl⟩ := List.mem_map.mp h
  simpa [IsSegment] using separator_notMem_piece hpiece

end Path

namespace DiskEntry

theorem at?_concat (e : DiskEntry) (names : List String) (name : String) :
    e.at? (names ++ [name]) = e.at? names >>= at? [name] := by
  induction names generalizing e with
  | nil => rfl
  | cons first rest ih =>
    cases e with
    | file content => rfl
    | directory entries =>
      cases hfirst : Table.lookup first entries with
      | none => simp [at?, hfirst]
      | some inner => simpa [at?, hfirst] using ih inner

theorem inOrder_perm {α : Type} (entries : List (String × α)) : (inOrder entries).Perm entries :=
  List.mergeSort_perm _ _

theorem pairwise_inOrder {α : Type} (entries : List (String × α)) :
    (inOrder entries).Pairwise fun a b => a.1 ≤ b.1 := by
  have hsorted : (inOrder entries).Pairwise fun a b => (!decide (b.1 < a.1)) = true := by
    apply List.pairwise_mergeSort
    · intro a b c hab hbc
      simp only [Bool.not_eq_true', decide_eq_false_iff_not, String.not_lt] at hab hbc ⊢
      exact String.le_trans hab hbc
    · intro a b
      simp only [Bool.or_eq_true, Bool.not_eq_true', decide_eq_false_iff_not, String.not_lt]
      exact String.le_total a.1 b.1
  refine hsorted.imp fun h => ?_
  rwa [Bool.not_eq_true', decide_eq_false_iff_not, String.not_lt] at h

end DiskEntry

namespace Disk
variable {d d' : Disk} {l : Location} {path name : String}

theorem namesIn_perm {entries : List (String × DiskEntry)}
    (h : d.entry? l = some (.directory entries)) :
    (d.namesIn l).Perm (entries.map Prod.fst) := by
  rw [namesIn, h]
  exact (DiskEntry.inOrder_perm entries).map Prod.fst

theorem mem_namesIn : name ∈ d.namesIn l ↔ d.occupant (l.child name) ≠ .nothing := by
  rw [occupant, ne_eq, Occupant.ofEntry_eq_nothing, entry?, Location.child, DiskEntry.at?_concat]
  change _ ↔ ¬ (d.entry? l >>= DiskEntry.at? [name]) = none
  rcases hthere : d.entry? l with _ | ⟨content | entries⟩
  · simp [namesIn, hthere]
  · simp [namesIn, hthere, DiskEntry.at?]
  · have hlookup : DiskEntry.at? [name] (.directory entries) = Table.lookup name entries := by
      cases hname : Table.lookup name entries <;> simp [DiskEntry.at?, hname]
    rw [Option.bind_eq_bind, Option.bind_some, hlookup, Table.lookup_eq_none_iff, not_not]
    exact (namesIn_perm hthere).mem_iff

theorem pairwise_namesIn (d : Disk) (l : Location) : (d.namesIn l).Pairwise (· ≤ ·) := by
  unfold namesIn
  split
  · next entries _ =>
    rw [List.pairwise_map]
    exact DiskEntry.pairwise_inOrder entries
  · exact List.Pairwise.nil

theorem ne_empty_of_locate (hl : d.locate path = some l) : path ≠ "" := by
  rintro rfl
  simp [locate, Path.isUsable] at hl

section Joined

theorem locate_join (hpath : path ≠ "") (hname : Path.IsPlain name) {k : Location}
    (hk : d.locate (Path.join path name) = some k) :
    ∃ here, d.locate path = some here ∧ d.occupant here = .directory ∧ k = here.child name := by
  have hrelative := hname.descends.1
  have husable : Path.isUsable (Path.join path name) = true := by
    unfold locate at hk
    split at hk
    · assumption
    · simp at hk
  have hreach := reach?_of_locate hk
  obtain ⟨here, hhere, hplace⟩ := reach?_join_descends hname.descends hreach
  rw [hname.properNames] at hplace
  refine ⟨here, ?_, ?_, hplace⟩
  · rw [locate, if_pos (Path.isUsable_of_join husable hpath hrelative)]
    exact hhere
  · rw [reach?_join hrelative, hhere, Path.segments_segment hname.segment] at hreach
    simp only [Option.bind_some, walk] at hreach
    split at hreach
    · next hdirectory => exact isDirectoryAt_iff.mp hdirectory
    · simp at hreach

theorem stated?_of_readEntity (hpath : path ≠ "") (hl : d.locate path = some l)
    (hname : Path.IsPlain name) {c : EntityDescriptor}
    (h : d.readEntity (Path.join path name) = .ok c) : d.stated? (l.child name) = some c := by
  obtain ⟨-, -, k, text, hk, htext, hparse⟩ := readEntity_eq_ok.mp h
  obtain ⟨here, hhere, -, rfl⟩ := locate_join hpath hname hk
  obtain rfl := Option.some.inj (hhere.symm.trans hl)
  exact stated?_eq_some.mpr ⟨text, htext, hparse⟩

end Joined

section Made

/-- Once its directories are made, a path can be followed. -/
theorem ensureDirectories_walk {segments : List String} {here : Location}
    (h : d.ensureDirectories here segments = (d', true)) (hhere : d'.occupant here = .directory) :
    ∃ l, d'.walk here segments = some l := by
  induction segments generalizing d here with
  | nil => exact ⟨here, rfl⟩
  | cons segment rest ih =>
    rw [ensureDirectories] at h
    cases hmade : d.ensureDirectory (here.follow segment) with
    | none => simp [hmade] at h
    | some d₁ =>
      rw [hmade] at h
      have hthere := (ensureDirectory_spec hmade).2
      have hkept := (ensureDirectories_spec h).1.directories _ hthere
      rw [walk, if_pos (isDirectoryAt_iff.mpr hhere)]
      exact ih h hkept

theorem occupant_origin (hl : d.locate path = some l) :
    d.occupant (origin path) = .directory := by
  obtain ⟨first, rest, hfirst⟩ := List.exists_cons_of_ne_nil (Path.segments_ne_nil path)
  have hreach := reach?_of_locate hl
  rw [reach?, hfirst, walk] at hreach
  split at hreach
  · next hstart => exact isDirectoryAt_iff.mp hstart
  · simp at hreach

theorem createDirectories_locate (h : d.createDirectories path = (d', true)) (hpath : path ≠ "")
    (hplace : Path.endsInPlace path = false) (hstart : d'.occupant (origin path) = .directory) :
    ∃ l, d'.locate path = some l := by
  unfold createDirectories at h
  rw [if_neg hpath] at h
  split at h
  · simp at h
  · next husable =>
    rw [hplace] at h
    obtain ⟨l, hl⟩ := ensureDirectories_walk h hstart
    refine ⟨l, ?_⟩
    rw [locate, if_pos (by simpa using husable)]
    exact hl

theorem ensureDirectory_elsewhere (h : d.ensureDirectory l = some d') {place : Location}
    (hplace : place ≠ l) : d'.occupant place = d.occupant place := by
  unfold ensureDirectory at h
  split at h
  · split at h
    · rw [Option.some.inj h]
    · simp at h
  · next hentry =>
    have hfree : d.occupant l ≠ .directory := by simp [occupant, hentry, Occupant.ofEntry]
    rw [occupant_put? DiskEntry.directory_isLeaf hfree h, if_neg hplace]

theorem follow_plain {here : Location} {segment : String} (hsegment : Path.IsSegment segment)
    (hhere : ∀ n ∈ here.names, Path.IsPlain n) :
    ∀ n ∈ (here.follow segment).names, Path.IsPlain n := by
  unfold Location.follow
  split
  · exact hhere
  · next hidle =>
    split
    · unfold Location.parent
      split
      · simp
      · simp_all
      · exact fun n hn => hhere n (List.dropLast_subset _ hn)
    · next hup =>
      intro n hn
      rcases List.mem_append.mp hn with hn | hn
      · exact hhere n hn
      · rw [List.mem_singleton.mp hn]
        exact ⟨hsegment, by simpa using hidle, hup⟩

theorem ensureDirectories_named {segments : List String} {here : Location} {made : Bool}
    (h : d.ensureDirectories here segments = (d', made))
    (hsegments : ∀ s ∈ segments, Path.IsSegment s) (hhere : ∀ n ∈ here.names, Path.IsPlain n)
    {place : Location} (hplace : d'.occupant place ≠ d.occupant place) :
    ∀ n ∈ place.names, Path.IsPlain n := by
  induction segments generalizing d here with
  | nil =>
    obtain ⟨rfl, -⟩ : d = d' ∧ true = made := by simpa [ensureDirectories] using h
    exact absurd rfl hplace
  | cons segment rest ih =>
    obtain ⟨hsegment, hrest⟩ := List.forall_mem_cons.mp hsegments
    have hthere := follow_plain hsegment hhere
    rw [ensureDirectories] at h
    cases hmade : d.ensureDirectory (here.follow segment) with
    | none =>
      obtain ⟨rfl, -⟩ : d = d' ∧ false = made := by simpa [hmade] using h
      exact absurd rfl hplace
    | some d₁ =>
      rw [hmade] at h
      by_cases hat : place = here.follow segment
      · exact hat ▸ hthere
      · apply ih h hrest hthere
        rwa [ensureDirectory_elsewhere hmade hat]

theorem createDirectories_named {made : Bool} (h : d.createDirectories path = (d', made))
    {place : Location} (hplace : d'.occupant place ≠ d.occupant place) :
    ∀ n ∈ place.names, Path.IsPlain n := by
  have horigin : ∀ n ∈ (origin path).names, Path.IsPlain n := by
    unfold origin
    split <;> simp
  unfold createDirectories at h
  split at h
  · obtain ⟨rfl, -⟩ := Prod.mk.inj h
    exact absurd rfl hplace
  · split at h
    · obtain ⟨rfl, -⟩ := Prod.mk.inj h
      exact absurd rfl hplace
    · split at h
      · generalize hrun : d.ensureDirectories (origin path)
          (Path.segments ((Path.parent? path).getD "")) = run at h
        obtain ⟨rfl, -⟩ := Prod.mk.inj h
        exact ensureDirectories_named hrun (fun s hs => Path.isSegment_of_mem hs) horigin hplace
      · exact ensureDirectories_named h (fun s hs => Path.isSegment_of_mem hs) horigin hplace

end Made

end Disk
end DomainModel
