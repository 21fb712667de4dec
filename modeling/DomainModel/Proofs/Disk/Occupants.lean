import DomainModel.Disk.Export
import DomainModel.Proofs.Tables
import DomainModel.Proofs.Text.Pieces
/-!
# What stands at the places of a disk

Every place holds nothing, a directory or a file. Putting a file or an empty directory where no
directory stands changes that place alone, and where a path leads depends on the directories only.
-/
namespace DomainModel

inductive Occupant where
  | nothing
  | directory
  | file (content : Option String)
  deriving DecidableEq

namespace Occupant

def ofEntry : Option DiskEntry → Occupant
  | none => nothing
  | some (.directory _) => directory
  | some (.file content) => file content

theorem ofEntry_eq_nothing {e : Option DiskEntry} : ofEntry e = nothing ↔ e = none := by
  rcases e with _ | ⟨_ | _⟩ <;> simp [ofEntry]

theorem ofEntry_eq_directory {e : Option DiskEntry} :
    ofEntry e = directory ↔ e.any DiskEntry.isDirectory = true := by
  rcases e with _ | ⟨_ | _⟩ <;> simp [ofEntry, DiskEntry.isDirectory]

end Occupant

namespace DiskEntry

/-- A file or an empty directory. -/
def IsLeaf (e : DiskEntry) : Prop := ∀ name rest, e.at? (name :: rest) = none

theorem file_isLeaf (content : Option String) : (file content).IsLeaf := fun _ _ => rfl

theorem directory_isLeaf : (directory []).IsLeaf := fun _ _ => rfl

private theorem at?_leaf {e : DiskEntry} (h : e.IsLeaf) (names : List String) :
    e.at? names = if names = [] then some e else none := by
  cases names with
  | nil => simp [at?]
  | cons name rest => simp [h name rest]

private theorem below_leaf {e : Option DiskEntry} (h : Occupant.ofEntry e ≠ .directory)
    (name : String) (rest : List String) : e >>= at? (name :: rest) = none := by
  rcases e with _ | ⟨_ | _⟩
  · rfl
  · rfl
  · simp [Occupant.ofEntry] at h

theorem occupant_put? {new : DiskEntry} (hleaf : new.IsLeaf) {names : List String}
    (hnames : names ≠ []) {e e' : DiskEntry} (hfree : Occupant.ofEntry (e.at? names) ≠ .directory)
    (h : put? new names e = some e') (place : List String) :
    Occupant.ofEntry (e'.at? place) =
      if place = names then Occupant.ofEntry (some new) else Occupant.ofEntry (e.at? place) := by
  induction names generalizing e e' place with
  | nil => exact absurd rfl hnames
  | cons name rest ih =>
    cases e with
    | file content => cases rest <;> simp [put?] at h
    | directory entries =>
      cases rest with
      | nil =>
        obtain rfl : directory (Table.put name new entries) = e' := by simpa [put?] using h
        cases place with
        | nil => rfl
        | cons first others =>
          by_cases hfirst : name = first
          · subst hfirst
            have hplace := below_leaf (e := Table.lookup name entries) (by simpa [at?] using hfree)
            cases others with
            | nil => simp [at?, Table.lookup_put]
            | cons second others =>
              simp [at?, Table.lookup_put, at?_leaf hleaf, hplace second others]
          · have hne : ¬ first = name := fun heq => hfirst heq.symm
            simp [at?, Table.lookup_put, hfirst, hne]
      | cons second others =>
        obtain ⟨inner, hinner, inner', hput, rfl⟩ : ∃ inner,
            Table.lookup name entries = some inner ∧ ∃ inner',
              put? new (second :: others) inner = some inner' ∧
                directory (Table.put name inner' entries) = e' := by
          simpa [put?, Option.bind_eq_some_iff] using h
        have hinnerFree : Occupant.ofEntry (inner.at? (second :: others)) ≠ .directory := by
          simpa [at?, hinner] using hfree
        cases place with
        | nil => rfl
        | cons first below =>
          by_cases hfirst : name = first
          · subst hfirst
            have hbelow := ih (by simp) hinnerFree hput below
            simpa [at?, Table.lookup_put, hinner] using hbelow
          · have hne : ¬ first = name := fun heq => hfirst heq.symm
            simp [at?, Table.lookup_put, hfirst, hne]

end DiskEntry

theorem Path.segments_ne_nil (path : String) : Path.segments path ≠ [] := by
  simpa [Path.segments] using piecesBetween_ne_nil Path.separator path.toList

namespace Disk
variable {d d' : Disk} {l : Location} {path : String}

def occupant (d : Disk) (l : Location) : Occupant := .ofEntry (d.entry? l)

theorem isDirectoryAt_iff : d.isDirectoryAt l = true ↔ d.occupant l = .directory :=
  Occupant.ofEntry_eq_directory.symm

theorem occupant_put? {e : DiskEntry} (hleaf : e.IsLeaf) (hfree : d.occupant l ≠ .directory)
    (h : d.put? l e = some d') (place : Location) :
    d'.occupant place = if place = l then Occupant.ofEntry (some e) else d.occupant place := by
  unfold put? at h
  split at h
  · next hname =>
    have hnames : l.names ≠ [] := by
      intro hnil
      simp [hnil] at hname
    obtain ⟨held, hheld, rfl⟩ : ∃ held, DiskEntry.put? e l.names (d.anchor l.anchor) = some held ∧
        ⟨d.anchors.insert l.anchor held⟩ = d' := by
      simpa [Option.bind_eq_some_iff] using h
    obtain ⟨anchor, names⟩ := l
    obtain ⟨anchor', place⟩ := place
    by_cases hanchor : anchor = anchor'
    · subst hanchor
      have hput := DiskEntry.occupant_put? hleaf hnames hfree hheld place
      simpa [occupant, entry?, Disk.anchor, Table.find?_insert] using hput
    · have hne : ¬ anchor' = anchor := fun heq => hanchor heq.symm
      simp [occupant, entry?, Disk.anchor, Table.find?_insert, hanchor, hne]
  · simp at h

section Paths

/-- The same directories, whatever the files. -/
def SameDirectories (d d' : Disk) : Prop :=
  ∀ l, d.occupant l = .directory ↔ d'.occupant l = .directory

theorem SameDirectories.trans {d'' : Disk} (h : SameDirectories d d')
    (h' : SameDirectories d' d'') : SameDirectories d d'' :=
  fun l => (h l).trans (h' l)

theorem walk_congr (h : SameDirectories d d') (here : Location) (segments : List String) :
    d.walk here segments = d'.walk here segments := by
  induction segments generalizing here with
  | nil => rfl
  | cons segment rest ih =>
    have hhere : d.isDirectoryAt here = d'.isDirectoryAt here := by
      rw [Bool.eq_iff_iff, isDirectoryAt_iff, isDirectoryAt_iff]
      exact h here
    rw [walk, walk, hhere, ih]

theorem locate_congr (h : SameDirectories d d') (path : String) :
    d.locate path = d'.locate path := by
  unfold locate
  rw [walk_congr h]

theorem isDirectory_iff :
    d.isDirectory path = true ↔ ∃ l, d.locate path = some l ∧ d.occupant l = .directory := by
  unfold isDirectory at?
  cases d.locate path with
  | none => simp
  | some l => simpa [occupant] using Occupant.ofEntry_eq_directory.symm

theorem isDirectory_congr (h : SameDirectories d d') (path : String) :
    d.isDirectory path = d'.isDirectory path := by
  rw [Bool.eq_iff_iff, isDirectory_iff, isDirectory_iff, locate_congr h]
  exact exists_congr fun l => and_congr_right fun _ => h l

theorem exists?_iff :
    d.exists? path = true ↔ ∃ l, d.locate path = some l ∧ d.occupant l ≠ .nothing := by
  unfold exists? at? occupant
  cases d.locate path with
  | none => simp
  | some l => simp [Occupant.ofEntry_eq_nothing, Option.isSome_iff_ne_none]

theorem isFile_iff :
    d.isFile path = true ↔ ∃ l content, d.locate path = some l ∧ d.occupant l = .file content := by
  unfold isFile at? occupant
  cases d.locate path with
  | none => simp
  | some l =>
    rcases hentry : d.entry? l with _ | ⟨_ | _⟩ <;>
      simp [hentry, Occupant.ofEntry, DiskEntry.isDirectory]

theorem read?_eq_some {text : String} :
    d.read? path = some text ↔
      ∃ l, d.locate path = some l ∧ d.occupant l = .file (some text) := by
  unfold read? at? occupant
  cases d.locate path with
  | none => simp
  | some l =>
    rcases hentry : d.entry? l with _ | ⟨_ | _⟩ <;> simp [hentry, Occupant.ofEntry]

theorem readEntity_eq_ok {c : EntityDescriptor} :
    d.readEntity path = .ok c ↔ path ≠ "" ∧ Path.extension? path = some "json" ∧ ∃ l text,
      d.locate path = some l ∧ d.occupant l = .file (some text) ∧
        EntityDescriptor.parse text = .ok c := by
  unfold readEntity
  by_cases hpath : path = ""
  · simp [hpath]
  · by_cases hfile : d.isFile path = true
    · by_cases hjson : Path.extension? path = some "json"
      · simp only [hpath, hfile, hjson, if_false, Bool.not_true, Bool.false_eq_true, ne_eq,
          not_true_eq_false, not_false_eq_true, true_and]
        cases hread : d.read? path with
        | none =>
          constructor
          · simp [readText, hread, bind, Except.bind]
          · rintro ⟨l, text, hl, htext, -⟩
            rw [read?_eq_some.mpr ⟨l, hl, htext⟩] at hread
            simp at hread
        | some text =>
          obtain ⟨l, hl, htext⟩ := read?_eq_some.mp hread
          simp [readText, hread, bind, Except.bind, hl, htext]
      · simp [hpath, hfile, hjson]
    · constructor
      · simp [hpath, hfile]
      · rintro ⟨-, -, l, text, hl, htext, -⟩
        exact absurd (isFile_iff.mpr ⟨l, _, hl, htext⟩) hfile

theorem current?_eq_some {c : EntityDescriptor} :
    d.current? path = some c ↔ d.readEntity path = .ok c := by
  unfold current?
  cases d.readEntity path <;> simp

end Paths

/-- Writing changes the place of the path alone, where no directory stands. -/
theorem write_spec {text : String} (h : d.write path text = some d') :
    ∃ l, d.locate path = some l ∧ d.occupant l ≠ .directory ∧ ∀ place,
      d'.occupant place = if place = l then .file (some text) else d.occupant place := by
  obtain ⟨l, hl, hput⟩ := Option.bind_eq_some_iff.mp h
  split at hput
  · simp at hput
  · next hfree =>
    have hfree : d.occupant l ≠ .directory := fun heq => hfree (isDirectoryAt_iff.mpr heq)
    exact ⟨l, hl, hfree, occupant_put? (DiskEntry.file_isLeaf _) hfree hput⟩

section Directories

/-- The same files, and directories at least where they were. -/
structure Extends (d d' : Disk) : Prop where
  files : ∀ l content, d'.occupant l = .file content ↔ d.occupant l = .file content
  directories : ∀ l, d.occupant l = .directory → d'.occupant l = .directory

theorem ensureDirectory_spec (h : d.ensureDirectory l = some d') :
    d.Extends d' ∧ d'.occupant l = .directory := by
  unfold ensureDirectory at h
  cases hentry : d.entry? l with
  | some e =>
    rw [hentry] at h
    dsimp only at h
    split at h
    · next hdirectory =>
      obtain rfl : d = d' := by simpa using h
      refine ⟨⟨fun _ _ => Iff.rfl, fun _ => id⟩, Occupant.ofEntry_eq_directory.mpr ?_⟩
      simpa [hentry] using hdirectory
    · simp at h
  | none =>
    rw [hentry] at h
    have hnothing : d.occupant l = .nothing := by simp [occupant, hentry, Occupant.ofEntry]
    have hput := occupant_put? DiskEntry.directory_isLeaf (by simp [hnothing]) h
    refine ⟨⟨fun place content => ?_, fun place hplace => ?_⟩, by simp [hput, Occupant.ofEntry]⟩
    · rw [hput]
      split
      · next heq => simp [heq, hnothing, Occupant.ofEntry]
      · rfl
    · rw [hput]
      split
      · rfl
      · exact hplace

private theorem ensureDirectory_idle (h : d.occupant l = .directory) :
    d.ensureDirectory l = some d := by
  unfold occupant at h
  rcases hentry : d.entry? l with _ | ⟨_ | _⟩ <;>
    simp [hentry, Occupant.ofEntry, ensureDirectory, DiskEntry.isDirectory] at h ⊢

/-- Making directories keeps what is there, and makes nothing where all of them are there. -/
theorem ensureDirectories_spec {segments : List String} {here : Location}
    (h : d.ensureDirectories here segments = (d', true)) :
    d.Extends d' ∧ (∀ l, segments ≠ [] → d'.walk here segments = some l →
      d'.occupant l = .directory) ∧
      ∀ e : Disk, SameDirectories d' e → e.ensureDirectories here segments = (e, true) := by
  induction segments generalizing d here with
  | nil =>
    obtain rfl : d = d' := by simpa [ensureDirectories] using h
    exact ⟨⟨fun _ _ => Iff.rfl, fun _ => id⟩, fun _ hne => absurd rfl hne, fun _ _ => rfl⟩
  | cons segment rest ih =>
    rw [ensureDirectories] at h
    cases hmade : d.ensureDirectory (here.follow segment) with
    | none => simp [hmade] at h
    | some d₁ =>
      rw [hmade] at h
      obtain ⟨hfirst, hthere⟩ := ensureDirectory_spec hmade
      obtain ⟨hrest, hwalk, hidle⟩ := ih h
      refine ⟨⟨fun l content => (hrest.files l content).trans (hfirst.files l content),
        fun l hl => hrest.directories l (hfirst.directories l hl)⟩, ?_, ?_⟩
      · intro l _ hl
        rw [walk] at hl
        split at hl
        · cases rest with
          | nil =>
            obtain rfl : here.follow segment = l := by simpa [walk] using hl
            exact hrest.directories _ hthere
          | cons second others => exact hwalk l (by simp) hl
        · simp at hl
      · intro e he
        have hthere' := (he _).mp (hrest.directories _ hthere)
        rw [ensureDirectories, ensureDirectory_idle hthere']
        exact hidle e he

theorem createDirectories_spec (h : d.createDirectories path = (d', true)) :
    d.Extends d' ∧ (∀ l, d'.locate path = some l → d'.occupant l = .directory) ∧
      ∀ e : Disk, SameDirectories d' e → e.createDirectories path = (e, true) := by
  unfold createDirectories at h
  split at h
  · next hempty =>
    obtain rfl : d = d' := by simpa using h
    refine ⟨⟨fun _ _ => Iff.rfl, fun _ => id⟩, ?_, fun _ _ => by simp [createDirectories, hempty]⟩
    simp [locate, hempty, Path.isUsable]
  · next hpath =>
    split at h
    · simp at h
    · next husable =>
      have husable : Path.isUsable path = true := by simpa using husable
      split at h
      · next hplace =>
        generalize hmade : d.ensureDirectories (origin path)
          (Path.segments ((Path.parent? path).getD "")) = made at h
        obtain ⟨rfl, hboth⟩ := Prod.mk.inj h
        obtain ⟨hall, hdirectory⟩ := Bool.and_eq_true_iff.mp hboth
        obtain ⟨hextends, -, hidle⟩ := ensureDirectories_spec
          (hmade.trans (Prod.ext rfl hall))
        refine ⟨hextends, fun l hl => ?_, fun e he => ?_⟩
        · obtain ⟨k, hk, hoccupant⟩ := isDirectory_iff.mp hdirectory
          obtain rfl := Option.some.inj (hl.symm.trans hk)
          exact hoccupant
        · rw [isDirectory_congr he] at hdirectory
          simp [createDirectories, hpath, husable, hplace, hidle e he, hdirectory]
      · next hplace =>
        obtain ⟨hextends, hwalk, hidle⟩ := ensureDirectories_spec h
        refine ⟨hextends, fun l hl => hwalk l (Path.segments_ne_nil path) ?_, fun e he => ?_⟩
        · simpa [locate, husable] using hl
        · simp [createDirectories, hpath, husable, hplace, hidle e he]

end Directories

end Disk
end DomainModel
