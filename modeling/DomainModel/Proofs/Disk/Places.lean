import DomainModel.Proofs.Disk.EntityFiles
/-!
# Where joined paths lead

Joining a relative path goes on from the place of the first one. A relative path that never leads up
goes down by its proper names, so paths that go down from one place by different names lead to
different places.
-/
namespace DomainModel

namespace Path

/-- The path is relative and never leads up. -/
def Descends (path : String) : Prop := isAbsolute path = false ∧ ".." ∉ segments path

instance (path : String) : Decidable (Descends path) :=
  inferInstanceAs (Decidable (_ ∧ _))

/-- The segments that lead on. -/
def properNames (path : String) : List String := (segments path).filter fun s => !isIdle s

/-- A single segment that leads on: the name of a directory or a file. -/
structure IsPlain (name : String) : Prop where
  segment : IsSegment name
  leadsOn : isIdle name = false
  notUp : name ≠ ".."

instance (name : String) : Decidable (IsPlain name) :=
  decidable_of_iff (IsSegment name ∧ isIdle name = false ∧ name ≠ "..")
    ⟨fun h => ⟨h.1, h.2.1, h.2.2⟩, fun h => ⟨h.segment, h.leadsOn, h.notUp⟩⟩

theorem segments_segment {name : String} (h : IsSegment name) : segments name = [name] := by
  simp [segments, piecesBetween_single h]

namespace IsPlain
variable {name : String}

theorem descends (h : IsPlain name) : Descends name := by
  refine ⟨isAbsolute_segment h.segment, ?_⟩
  simpa [segments_segment h.segment] using h.notUp.symm

theorem properNames (h : IsPlain name) : Path.properNames name = [name] := by
  simp [Path.properNames, segments_segment h.segment, h.leadsOn]

end IsPlain

theorem entityFile_isPlain {entity : String} (h : IsSegment entity) :
    IsPlain (entityFile entity) :=
  ⟨entityFile_isSegment h, (entityFile_proper entity).1, (entityFile_proper entity).2⟩

private theorem segments_slash (before : List Char) (part : String) :
    segments (String.ofList (before ++ separator :: part.toList)) =
      (piecesBetween separator before).map String.ofList ++ segments part := by
  simp [segments, piecesBetween_append]

end Path

namespace Disk
variable {d d' : Disk} {l r : Location}

/-- The place that the segments of a path lead to, however long the path is. -/
def reach? (d : Disk) (path : String) : Option Location :=
  d.walk (origin path) (Path.segments path)

theorem reach?_of_locate {path : String} (h : d.locate path = some l) :
    d.reach? path = some l := by
  unfold locate at h
  split at h
  · exact h
  · simp at h

private theorem walk_idle_bind (d : Disk) (here : Location) {segments : List String}
    (h : segments ≠ []) :
    (d.walk here [""]).bind (fun l => d.walk l segments) = d.walk here segments := by
  obtain ⟨first, rest, rfl⟩ := List.exists_cons_of_ne_nil h
  by_cases hhere : d.isDirectoryAt here = true
  · simp [walk, hhere, Location.follow, Path.isIdle]
  · simp [walk, hhere]

theorem reach?_join {path part : String} (hpart : Path.isAbsolute part = false) :
    d.reach? (Path.join path part) =
      (d.reach? path).bind fun here => d.walk here (Path.segments part) := by
  have hsegments := Path.segments_ne_nil part
  by_cases hempty : path = ""
  · have hjoin : Path.join path part = part := by simp [Path.join, hempty]
    have horigin : origin part = origin path := by
      rw [origin, origin, hpart, hempty]
      rfl
    rw [reach?, reach?, hjoin, horigin, hempty]
    exact (walk_idle_bind d _ hsegments).symm
  · have horigin : ∀ rest, origin (path ++ rest) = origin path := by
      intro rest
      rw [origin, origin, Path.isAbsolute_append hempty]
    by_cases hlast : path.toList.getLast? = some Path.separator
    · obtain ⟨before, hbefore⟩ := List.getLast?_eq_some_iff.mp hlast
      have hjoin : Path.join path part = path ++ part := by
        simp [Path.join, hpart, hempty, hlast]
      have hchars : path ++ part =
          String.ofList (before ++ Path.separator :: part.toList) := by
        apply String.toList_inj.mp
        simp [hbefore]
      have hpath : path = String.ofList (before ++ Path.separator :: "".toList) := by
        apply String.toList_inj.mp
        simp [hbefore]
      have hsplit : Path.segments path =
          (piecesBetween Path.separator before).map String.ofList ++ [""] :=
        (congrArg Path.segments hpath).trans (Path.segments_slash before "")
      rw [reach?, reach?, hjoin, horigin, hchars, Path.segments_slash, hsplit, walk_append,
        walk_append, Option.bind_assoc]
      exact congrArg _ (funext fun here => (walk_idle_bind d here hsegments).symm)
    · have hjoin : Path.join path part = path ++ ("/" ++ part) := by
        simp [Path.join, hpart, hempty, hlast, String.append_assoc]
      have hchars : path ++ ("/" ++ part) =
          String.ofList (path.toList ++ Path.separator :: part.toList) := by
        apply String.toList_inj.mp
        simp [Path.separator]
      rw [reach?, reach?, hjoin, horigin, hchars, Path.segments_slash, walk_append]
      rfl

theorem walk_descends {here : Location} {segments : List String} (hup : ".." ∉ segments)
    (h : d.walk here segments = some l) :
    l = ⟨here.anchor, here.names ++ segments.filter fun s => !Path.isIdle s⟩ := by
  induction segments generalizing here with
  | nil =>
    obtain rfl := Option.some.inj h
    simp
  | cons segment rest ih =>
    have hsegment : segment ≠ ".." := fun heq => hup (heq ▸ List.mem_cons_self)
    rw [walk] at h
    split at h
    · have hrest := ih (fun hmem => hup (List.mem_cons_of_mem segment hmem)) h
      rw [hrest]
      cases hidle : Path.isIdle segment <;> simp [Location.follow, hidle, hsegment]
    · simp at h

theorem reach?_join_descends {path part : String} (hpart : Path.Descends part)
    (h : d.reach? (Path.join path part) = some l) :
    ∃ here, d.reach? path = some here ∧
      l = ⟨here.anchor, here.names ++ Path.properNames part⟩ := by
  rw [reach?_join hpart.1] at h
  obtain ⟨here, hhere, hwalk⟩ := Option.bind_eq_some_iff.mp h
  exact ⟨here, hhere, walk_descends hpart.2 hwalk⟩

end Disk
end DomainModel
