import DomainModel.Proofs.Disk.Occupants
/-!
# The files of entities

A name without a slash has a file of its own in a directory: its path leads to a place there that
is told by the capitalized name, and it has the extension of descriptor files.
-/
namespace DomainModel

namespace Path

/-- A text without a slash, so that it is one segment of a path. -/
def IsSegment (s : String) : Prop := separator ∉ s.toList

instance (s : String) : Decidable (IsSegment s) := inferInstanceAs (Decidable (_ ∉ _))

theorem isAbsolute_segment {segment : String} (h : IsSegment segment) :
    isAbsolute segment = false := by
  cases hchars : segment.toList with
  | nil => simp [isAbsolute, hchars]
  | cons c cs =>
    have hc : c ≠ separator := fun hc => h (by simp [hchars, hc])
    simp [isAbsolute, hchars, hc]

theorem isAbsolute_append {directory : String} (h : directory ≠ "") (rest : String) :
    isAbsolute (directory ++ rest) = isAbsolute directory := by
  have hchars : directory.toList ≠ [] := by simpa using h
  obtain ⟨c, cs, hcs⟩ := List.exists_cons_of_ne_nil hchars
  simp [isAbsolute, hcs]

private theorem segments_append {segment : String} (h : IsSegment segment) (before : List Char) :
    segments (String.ofList (before ++ separator :: segment.toList)) =
      (piecesBetween separator before).map String.ofList ++ [segment] := by
  simp [segments, piecesBetween_append, piecesBetween_single h]

theorem segments_join (directory : String) : ∃ before, ∀ segment, IsSegment segment →
    segments (join directory segment) = before ++ [segment] ∧
      isAbsolute (join directory segment) = isAbsolute directory := by
  by_cases hempty : directory = ""
  · refine ⟨[], fun segment hsegment => ?_⟩
    have hjoin : join directory segment = segment := by simp [join, hempty]
    refine ⟨by simp [hjoin, segments, piecesBetween_single hsegment], ?_⟩
    rw [hjoin, isAbsolute_segment hsegment, hempty]
    rfl
  · by_cases hlast : directory.toList.getLast? = some separator
    · obtain ⟨before, hbefore⟩ := List.getLast?_eq_some_iff.mp hlast
      refine ⟨(piecesBetween separator before).map String.ofList, fun segment hsegment => ?_⟩
      have hjoin : join directory segment = directory ++ segment := by
        simp [join, isAbsolute_segment hsegment, hempty, hlast]
      have hchars : directory ++ segment =
          String.ofList (before ++ separator :: segment.toList) := by
        apply String.toList_inj.mp
        simp [hbefore]
      refine ⟨by rw [hjoin, hchars, segments_append hsegment], ?_⟩
      rw [hjoin, isAbsolute_append hempty]
    · refine ⟨segments directory, fun segment hsegment => ?_⟩
      have hjoin : join directory segment = directory ++ "/" ++ segment := by
        simp [join, isAbsolute_segment hsegment, hempty, hlast]
      have hchars : directory ++ "/" ++ segment =
          String.ofList (directory.toList ++ separator :: segment.toList) := by
        apply String.toList_inj.mp
        simp [separator]
      refine ⟨by rw [hjoin, hchars, segments_append hsegment, segments], ?_⟩
      rw [hjoin, String.append_assoc, isAbsolute_append hempty]

private theorem splitPoint_append {before after : List Char} (h : '.' ∉ after) :
    splitPoint (before ++ '.' :: after) = some (before, after) := by
  have hafter : splitPoint after = none := by
    induction after with
    | nil => rfl
    | cons c rest ih =>
      have hc : c ≠ '.' := fun hc => h (hc ▸ List.mem_cons_self)
      simp [splitPoint, ih fun hm => h (List.mem_cons_of_mem c hm), hc]
  induction before with
  | nil => simp [splitPoint, hafter]
  | cons c rest ih => simp [splitPoint, ih]

theorem stemAndExtension_append {stem ending : String} (hstem : stem ≠ "")
    (h : '.' ∉ ending.toList) : stemAndExtension (stem ++ "." ++ ending) = (stem, some ending) := by
  have hchars : stem.toList ≠ [] := by simpa using hstem
  obtain ⟨c, cs, hcs⟩ := List.exists_cons_of_ne_nil hchars
  have hsplit : splitPoint (stem ++ "." ++ ending).toList = some (c :: cs, ending.toList) := by
    rw [← splitPoint_append h, ← hcs]
    simp
  rw [stemAndExtension, hsplit]
  simp only [← hcs, String.ofList_toList]

end Path

/-- The name of the file of an entity. -/
def entityFile (entity : String) : String := upperFirst entity ++ ".json"

/-- The path of the file of an entity in a directory. -/
def entityFilePath (directory entity : String) : String := Path.join directory (entityFile entity)

theorem upperFirst_isSegment {s : String} (h : Path.IsSegment s) :
    Path.IsSegment (upperFirst s) := by
  have hspecial : ∀ e ∈ upperCaseTable.special, ∀ code ∈ e.2, Char.ofNat code ≠ Path.separator := by
    decide +kernel
  have hruns : ∀ run ∈ upperCaseTable.runs, 48 ≤ run.first + run.shift := by decide +kernel
  have hmap : ∀ c, c ≠ Path.separator → Path.separator ∉ upperCaseTable.map c := by
    intro c hc
    unfold CaseTable.map
    split
    · next codes hcodes =>
      intro hmem
      obtain ⟨code, hcode, heq⟩ := List.mem_map.mp hmem
      obtain ⟨l₁, l₂, hl, -⟩ := List.lookup_eq_some_iff.mp hcodes
      exact hspecial (c.toNat, codes) (by simp [hl]) code hcode heq
    · split
      · next run hrun =>
        -- every run of the table maps to characters after the slash
        have hshift := hruns run (List.mem_of_find?_eq_some hrun)
        have hcovers : run.first ≤ c.toNat := by
          have hcovers := List.find?_some hrun
          simp only [CaseRun.covers, Bool.and_eq_true, decide_eq_true_eq] at hcovers
          exact hcovers.1.1
        intro hmem
        have heq : Path.separator = Char.ofNat (c.toNat + run.shift).toNat := by simpa using hmem
        have hcode : 48 ≤ (c.toNat + run.shift).toNat := by omega
        by_cases hvalid : (c.toNat + run.shift).toNat.isValidChar
        · have hval : Path.separator.toNat = (c.toNat + run.shift).toNat := by
            rw [heq, Char.ofNat, dif_pos hvalid]
            rfl
          rw [show Path.separator.toNat = 47 from rfl] at hval
          omega
        · rw [Char.ofNat, dif_neg hvalid] at heq
          exact absurd heq (by decide)
      · simpa using fun heq => hc heq.symm
  unfold upperFirst
  cases hchars : s.toList with
  | nil => simp [Path.IsSegment]
  | cons c cs =>
    have hc : c ≠ Path.separator := fun hc => h (by simp [hchars, hc])
    have hcs : Path.separator ∉ cs := fun hmem => h (by simp [hchars, hmem])
    simpa [Path.IsSegment] using ⟨hmap c hc, hcs⟩

theorem upperFirst_ne_empty {s : String} (h : s ≠ "") : upperFirst s ≠ "" := by
  have hspecial : ∀ e ∈ upperCaseTable.special, e.2 ≠ [] := by decide +kernel
  have hmap : ∀ c, upperCaseTable.map c ≠ [] := by
    intro c
    unfold CaseTable.map
    split
    · next codes hcodes =>
      obtain ⟨l₁, l₂, hl, -⟩ := List.lookup_eq_some_iff.mp hcodes
      have hcodes := hspecial (c.toNat, codes) (by simp [hl])
      simpa using hcodes
    · split <;> simp
  unfold upperFirst
  cases hchars : s.toList with
  | nil => exact absurd (by simpa using hchars) h
  | cons c cs =>
    intro hempty
    have hnil : upperCaseTable.map c ++ cs = [] := by
      simpa using congrArg String.toList hempty
    exact hmap c (List.append_eq_nil_iff.mp hnil).1

section Entity
variable {entity : String}

theorem entityFile_isSegment (h : Path.IsSegment entity) : Path.IsSegment (entityFile entity) := by
  have hupper := upperFirst_isSegment h
  simp only [Path.IsSegment, entityFile, String.toList_append, List.mem_append, not_or]
  exact ⟨hupper, by decide⟩

theorem entityFile_inj {a b : String} (h : entityFile a = entityFile b) :
    upperFirst a = upperFirst b := by
  have hchars := congrArg String.toList h
  simp only [entityFile, String.toList_append] at hchars
  exact String.toList_inj.mp (List.append_cancel_right hchars)

theorem entityFile_proper (entity : String) :
    Path.isIdle (entityFile entity) = false ∧ entityFile entity ≠ ".." := by
  have hlast : (entityFile entity).toList.getLast? = some 'n' := by simp [entityFile]
  have hne : ∀ s : String, s.toList.getLast? ≠ some 'n' → entityFile entity ≠ s := by
    rintro s hs rfl
    exact hs hlast
  exact ⟨by simp [Path.isIdle, hne "" (by decide), hne "." (by decide)], hne ".." (by decide)⟩

theorem entityFile_eq (entity : String) :
    entityFile entity = upperFirst entity ++ "." ++ "json" := by
  rw [entityFile, String.append_assoc]
  rfl

theorem stemAndExtension_entityFile (hname : entity ≠ "") :
    Path.stemAndExtension (entityFile entity) = (upperFirst entity, some "json") := by
  rw [entityFile_eq]
  exact Path.stemAndExtension_append (upperFirst_ne_empty hname) (by decide)

theorem extension?_entityFile (directory : String) (hname : entity ≠ "")
    (h : Path.IsSegment entity) :
    Path.extension? (entityFilePath directory entity) = some "json" := by
  obtain ⟨before, hbefore⟩ := Path.segments_join directory
  obtain ⟨hidle, hparent⟩ := entityFile_proper entity
  have hfile : Path.fileName? (entityFilePath directory entity) = some (entityFile entity) := by
    simp [entityFilePath, Path.fileName?, (hbefore _ (entityFile_isSegment h)).1, hidle, hparent]
  simp [Path.extension?, hfile, stemAndExtension_entityFile hname]

namespace Disk
variable {d : Disk} {directory : String} {l : Location}

theorem walk_append (d : Disk) (here : Location) (before after : List String) :
    d.walk here (before ++ after) = (d.walk here before).bind fun l => d.walk l after := by
  induction before generalizing here with
  | nil => rfl
  | cons segment rest ih =>
    simp only [List.cons_append, walk]
    split
    · exact ih _
    · rfl

theorem locate_eq_some {path last : String} {before : List String}
    (hsegments : Path.segments path = before ++ [last]) (hidle : Path.isIdle last = false)
    (hparent : last ≠ "..") (hl : d.locate path = some l) :
    ∃ here, d.walk (origin path) before = some here ∧
      l = ⟨here.anchor, here.names ++ [last]⟩ := by
  unfold locate at hl
  split at hl
  · rw [hsegments, walk_append] at hl
    obtain ⟨here, hhere, hlast⟩ := Option.bind_eq_some_iff.mp hl
    refine ⟨here, hhere, ?_⟩
    simp only [walk] at hlast
    split at hlast
    · simpa [Location.follow, hidle, hparent, eq_comm] using hlast
    · simp at hlast
  · simp at hl

theorem locate_entityFile_inj {a b : String} (ha : Path.IsSegment a) (hb : Path.IsSegment b)
    (hla : d.locate (entityFilePath directory a) = some l)
    (hlb : d.locate (entityFilePath directory b) = some l) :
    upperFirst a = upperFirst b := by
  obtain ⟨before, hbefore⟩ := Path.segments_join directory
  have hplace : ∀ {c : String}, Path.IsSegment c →
      d.locate (entityFilePath directory c) = some l →
      ∃ here, d.walk (origin directory) before = some here ∧
        l = ⟨here.anchor, here.names ++ [entityFile c]⟩ := by
    intro c hc hl
    obtain ⟨hsegments, habsolute⟩ := hbefore _ (entityFile_isSegment hc)
    obtain ⟨hidle, hparent⟩ := entityFile_proper c
    have horigin : origin (entityFilePath directory c) = origin directory := by
      rw [origin, entityFilePath, habsolute, origin]
    exact horigin ▸ locate_eq_some hsegments hidle hparent hl
  obtain ⟨here, hhere, rfl⟩ := hplace ha hla
  obtain ⟨here', hhere', hplaces⟩ := hplace hb hlb
  obtain rfl := Option.some.inj (hhere.symm.trans hhere')
  have hnames := List.append_cancel_left (Location.mk.inj hplaces).2
  exact entityFile_inj (List.cons.inj hnames).1

theorem entityPath_eq_ok {path : String} :
    entityPath directory entity = .ok path ↔
      entity ≠ "" ∧ path = entityFilePath directory entity := by
  unfold entityPath
  split
  · next h => simp [h]
  · next h => simp [h, entityFilePath, entityFile, eq_comm]

end Disk
end Entity
end DomainModel
