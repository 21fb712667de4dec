import DomainModel.Proofs.Descriptors.Printing
import DomainModel.Proofs.Disk.EntityFiles
import DomainModel.Proofs.Json.Equality
import DomainModel.Proofs.Outcomes
/-!
# What an export does to a disk

An export looks at the file of each entity by itself, because different entities have different
files. A file is left alone exactly when it states its entity already and nothing is forced, so
a second export finds nothing to do.
-/
namespace DomainModel
namespace Disk
variable {d d' : Disk} {directory : String} {indent : Nat} {force : Bool}

/-- The descriptor that the file at a place states, if a readable one is there. -/
def stated? (d : Disk) (l : Location) : Option EntityDescriptor :=
  match d.occupant l with
  | .file (some text) => (EntityDescriptor.parse text).toOption
  | _ => none

/-- What is to be written for a descriptor where its file states `current`. -/
def due? (force : Bool) (current : Option EntityDescriptor) (descriptor : EntityDescriptor) :
    Option EntityDescriptor :=
  if !force && current.any (fun c => c.sameEntity descriptor) then none
  else some (keepingDate current descriptor)

/-- What stands at a place once the answer for it is written. -/
def afterwards (indent : Nat) (before : Occupant) : Option EntityDescriptor → Occupant
  | none => before
  | some written => .file (some (fileText indent written))

theorem stated?_eq_some {l : Location} {c : EntityDescriptor} :
    d.stated? l = some c ↔
      ∃ text, d.occupant l = .file (some text) ∧ EntityDescriptor.parse text = .ok c := by
  unfold stated?
  split
  · next text htext =>
    rw [htext]
    cases hparse : EntityDescriptor.parse text <;> simp [Except.toOption, hparse]
  · next hno =>
    constructor
    · simp
    · rintro ⟨text, htext, -⟩
      exact absurd htext (hno text)

theorem stated?_congr {l : Location} (h : d'.occupant l = d.occupant l) :
    d'.stated? l = d.stated? l := by
  rw [stated?, stated?, h]

theorem due?_eq_none {current : Option EntityDescriptor} {descriptor : EntityDescriptor} :
    due? force current descriptor = none ↔
      force = false ∧ ∃ c, current = some c ∧ c.sameEntity descriptor = true := by
  cases current <;> cases force <;> simp [due?]

theorem due?_eq_some {current : Option EntityDescriptor} {descriptor w : EntityDescriptor}
    (h : due? force current descriptor = some w) : w = keepingDate current descriptor := by
  unfold due? at h
  split at h
  · simp at h
  · exact (Option.some.inj h).symm

theorem keepingDate_eq_dated (current : Option EntityDescriptor) (descriptor : EntityDescriptor) :
    ∃ date, keepingDate current descriptor = descriptor.dated date := by
  unfold keepingDate
  split
  · next date _ => exact ⟨some date, rfl⟩
  · exact ⟨descriptor.changelogDate, rfl⟩

theorem readEntity_entityFilePath {entity : String} (hname : entity ≠ "")
    (hsegment : Path.IsSegment entity) {c : EntityDescriptor} :
    d.readEntity (entityFilePath directory entity) = .ok c ↔
      ∃ l, d.locate (entityFilePath directory entity) = some l ∧ d.stated? l = some c := by
  have hextension := extension?_entityFile directory hname hsegment
  have hpath : entityFilePath directory entity ≠ "" := by
    intro hempty
    rw [hempty] at hextension
    exact absurd hextension (by decide)
  simp only [readEntity_eq_ok, stated?_eq_some, hextension, hpath, ne_eq, not_false_eq_true,
    true_and]
  constructor
  · rintro ⟨l, text, hl, htext, hparse⟩
    exact ⟨l, hl, text, htext, hparse⟩
  · rintro ⟨l, hl, text, htext, hparse⟩
    exact ⟨l, text, hl, htext, hparse⟩

section Step
variable {entity : String} {descriptor : EntityDescriptor} {answer : Option EntityDescriptor}

private theorem current?_entityFilePath (d : Disk) (directory : String) (hname : entity ≠ "")
    (hsegment : Path.IsSegment entity) :
    d.current? (entityFilePath directory entity) =
      (d.locate (entityFilePath directory entity)).bind d.stated? := by
  refine Option.ext fun c => ?_
  rw [current?_eq_some, readEntity_entityFilePath hname hsegment, Option.bind_eq_some_iff]

/-- The export of one entity decides by what its path reads as, and changes nothing else. -/
theorem exportEntity_effect
    (h : d.exportEntity directory indent force entity descriptor = .ok (d', answer)) :
    entity ≠ "" ∧ ∃ l, d.locate (entityFilePath directory entity) = some l ∧
      d.occupant l ≠ .directory ∧
      answer = due? force (d.current? (entityFilePath directory entity)) descriptor ∧
      ∀ place, d'.occupant place =
        if place = l then afterwards indent (d.occupant l) answer else d.occupant place := by
  obtain ⟨path, hpath, h⟩ := Outcome.bind_eq_ok.mp h
  obtain ⟨hname, rfl⟩ := entityPath_eq_ok.mp hpath
  refine ⟨hname, ?_⟩
  dsimp only at h
  split at h
  · next hskip =>
    obtain ⟨rfl, rfl⟩ : d = d' ∧ none = answer := by simpa [pure, Except.pure] using h
    have hdue : due? force (d.current? (entityFilePath directory entity)) descriptor = none := by
      rw [due?, if_pos hskip]
    obtain ⟨-, c, hc, -⟩ := due?_eq_none.mp hdue
    obtain ⟨-, -, l, text, hl, htext, -⟩ := readEntity_eq_ok.mp (current?_eq_some.mp hc)
    refine ⟨l, hl, by simp [htext], hdue.symm, fun place => ?_⟩
    by_cases hplace : place = l <;> simp [hplace, afterwards]
  · next hskip =>
    split at h
    · next e hwrite =>
      obtain ⟨rfl, rfl⟩ : e = d' ∧
          some (keepingDate (d.current? (entityFilePath directory entity)) descriptor) =
            answer := by
        simpa [pure, Except.pure] using h
      obtain ⟨l, hl, hfree, hoccupant⟩ := write_spec hwrite
      exact ⟨l, hl, hfree, by rw [due?, if_neg hskip], hoccupant⟩
    · simp at h

/-- The export of an entity with a file of its own decides by what that file states. -/
theorem exportEntity_spec (hsegment : Path.IsSegment entity)
    (h : d.exportEntity directory indent force entity descriptor = .ok (d', answer)) :
    entity ≠ "" ∧ ∃ l, d.locate (entityFilePath directory entity) = some l ∧
      d.occupant l ≠ .directory ∧ answer = due? force (d.stated? l) descriptor ∧
      ∀ place, d'.occupant place =
        if place = l then afterwards indent (d.occupant l) answer else d.occupant place := by
  obtain ⟨hname, l, hl, hfree, hanswer, hoccupant⟩ := exportEntity_effect h
  rw [current?_entityFilePath d directory hname hsegment, hl, Option.bind_some] at hanswer
  exact ⟨hname, l, hl, hfree, hanswer, hoccupant⟩

end Step

theorem SameDirectories.of_update {l : Location} {o : Occupant} (hfree : d.occupant l ≠ .directory)
    (ho : o ≠ .directory)
    (h : ∀ place, d'.occupant place = if place = l then o else d.occupant place) :
    SameDirectories d d' := by
  intro place
  rw [h]
  split
  · next heq => simp [heq, hfree, ho]
  · rfl

section Run
variable {entities : List (String × EntityDescriptor)} {written written' : Descriptors}

/-- The descriptors written so far, with the answer for one more entity. -/
def gathered (written : Descriptors) (entity : String) : Option EntityDescriptor → Descriptors
  | none => written
  | some dated => written.insert entity dated

theorem entries_gathered {entity : String} (answer : Option EntityDescriptor)
    (h : entity ∉ written.keys) :
    (gathered written entity answer).entries =
      written.entries ++ (answer.map (entity, ·)).toList := by
  cases answer with
  | none => simp [gathered]
  | some dated => exact Table.entries_insert_of_notMem dated h

theorem notMem_keys_gathered {entity other : String} (answer : Option EntityDescriptor)
    (hne : other ≠ entity) (h : other ∉ written.keys) :
    other ∉ (gathered written entity answer).keys := by
  cases answer with
  | none => exact h
  | some dated =>
    rw [gathered, Table.mem_keys_insert, not_or]
    exact ⟨hne, h⟩

theorem exportAll_cons {e : String × EntityDescriptor}
    (h : exportAll directory indent force (e :: entities) d written = (d', .ok written')) :
    ∃ d₁ answer, d.exportEntity directory indent force e.1 e.2 = .ok (d₁, answer) ∧
      exportAll directory indent force entities d₁ (gathered written e.1 answer) =
        (d', .ok written') := by
  rw [exportAll] at h
  split at h
  · simp at h
  · next d₁ hstep => exact ⟨d₁, none, hstep, h⟩
  · next d₁ dated hstep => exact ⟨d₁, some dated, hstep, h⟩

theorem exportAll_spec (hsegments : ∀ e ∈ entities, Path.IsSegment e.1)
    (hdistinct : (entities.map fun e => upperFirst e.1).Nodup)
    (hnew : ∀ e ∈ entities, e.1 ∉ written.keys)
    (h : exportAll directory indent force entities d written = (d', .ok written')) :
    SameDirectories d d' ∧
    (∀ e ∈ entities, e.1 ≠ "" ∧ ∃ l, d.locate (entityFilePath directory e.1) = some l ∧
      d'.occupant l = afterwards indent (d.occupant l) (due? force (d.stated? l) e.2)) ∧
    (∀ l, (∀ e ∈ entities, d.locate (entityFilePath directory e.1) ≠ some l) →
      d'.occupant l = d.occupant l) ∧
    written'.entries = written.entries ++ entities.filterMap fun e =>
      (due? force ((d.locate (entityFilePath directory e.1)).bind d.stated?) e.2).map (e.1, ·) := by
  induction entities generalizing d written with
  | nil =>
    obtain ⟨rfl, rfl⟩ : d = d' ∧ written = written' := by simpa [exportAll] using h
    exact ⟨fun _ => Iff.rfl, by simp, fun _ _ => rfl, by simp⟩
  | cons first rest ih =>
    obtain ⟨hfirst, hrest⟩ := List.nodup_cons.mp hdistinct
    obtain ⟨hsegment, hsegments⟩ := List.forall_mem_cons.mp hsegments
    obtain ⟨hunwritten, hnew⟩ := List.forall_mem_cons.mp hnew
    obtain ⟨d₁, answer, hstep, hrun⟩ := exportAll_cons h
    obtain ⟨hname, l, hl, hfree, hanswer, hoccupant⟩ := exportEntity_spec hsegment hstep
    have hsame₁ : SameDirectories d d₁ := by
      refine SameDirectories.of_update hfree ?_ hoccupant
      cases answer <;> simp [afterwards, hfree]
    -- what was written for the first entity is at none of the places of the others
    have hplace : ∀ e ∈ rest, d.locate (entityFilePath directory e.1) ≠ some l := by
      intro e he hk
      have heq := locate_entityFile_inj (hsegments e he) hsegment hk hl
      exact hfirst (List.mem_map.mpr ⟨e, he, heq⟩)
    have hapart : ∀ e ∈ rest, ∀ k, d.locate (entityFilePath directory e.1) = some k →
        d₁.occupant k = d.occupant k := by
      intro e he k hk
      rw [hoccupant, if_neg]
      rintro rfl
      exact hplace e he hk
    have hkeys : ∀ e ∈ rest, e.1 ∉ (gathered written first.1 answer).keys := by
      intro e he
      refine notMem_keys_gathered answer ?_ (hnew e he)
      intro heq
      exact hfirst (List.mem_map.mpr ⟨e, he, by rw [heq]⟩)
    obtain ⟨hsame, hplaces, huntouched, hentries⟩ := ih hsegments hrest hkeys hrun
    refine ⟨hsame₁.trans hsame, ?_, ?_, ?_⟩
    · intro e he
      rcases List.mem_cons.mp he with rfl | he
      · refine ⟨hname, l, hl, ?_⟩
        rw [huntouched l, hoccupant, if_pos rfl, hanswer]
        intro e he hk
        exact hplace e he ((locate_congr hsame₁ _).trans hk)
      · obtain ⟨hname', k, hk, hkept⟩ := hplaces e he
        rw [← locate_congr hsame₁] at hk
        rw [stated?_congr (hapart e he k hk), hapart e he k hk] at hkept
        exact ⟨hname', k, hk, hkept⟩
    · intro k hk
      obtain ⟨hhead, htail⟩ := List.forall_mem_cons.mp hk
      rw [huntouched k, hoccupant, if_neg]
      · rintro rfl
        exact hhead hl
      · intro e he
        rw [← locate_congr hsame₁]
        exact htail e he
    · have htail : rest.filterMap (fun e =>
            (due? force ((d₁.locate (entityFilePath directory e.1)).bind d₁.stated?) e.2).map
              (e.1, ·)) =
          rest.filterMap (fun e =>
            (due? force ((d.locate (entityFilePath directory e.1)).bind d.stated?) e.2).map
              (e.1, ·)) := by
        refine List.filterMap_congr fun e he => ?_
        rw [← locate_congr hsame₁]
        cases hk : d.locate (entityFilePath directory e.1) with
        | none => rfl
        | some k => simp [stated?_congr (hapart e he k hk)]
      rw [hentries, htail, entries_gathered answer hunwritten, List.filterMap_cons, hl,
        Option.bind_some, ← hanswer]
      cases answer <;> simp

end Run

section Directory

/-- The descriptor is read back from its text, whatever changelog date it has. -/
def ReadsBack (indent : Nat) (c : EntityDescriptor) : Prop :=
  ∀ date, EntityDescriptor.parse (fileText indent (c.dated date)) = .ok (c.dated date)

theorem readsBack_of_clean {c : EntityDescriptor} (hclean : c.Clean)
    (hfaithful : ∀ date, Json.parse (fileText indent (c.dated date)) = some (c.dated date).toJson) :
    ReadsBack indent c := by
  intro date
  have hdated : (c.dated date).Clean := ⟨hclean.fields, hclean.relationships, hclean.others⟩
  simp [EntityDescriptor.parse, hfaithful date, EntityDescriptor.ofJson?_toJson hdated,
    Outcome.ofReading]

theorem parse_fileText {c : EntityDescriptor} (h : c.Printable) (date : Option String) :
    Json.parse (fileText indent (c.dated date)) = some (c.dated date).toJson := by
  have hdated : (c.dated date).Printable := ⟨h.fields, h.relationships, h.others⟩
  exact Json.parse_chars hdated.printable_toJson (some indent)

/-- What a successful export of these entities to a directory leaves behind. -/
structure Exported (d d' : Disk) (directory : String) (indent : Nat) (force : Bool)
    (entities written : Descriptors) : Prop where
  /-- Each entity is stated by its file. -/
  stated : ∀ e ∈ entities.entries, ∃ c,
    d'.readEntity (entityFilePath directory e.1) = .ok c ∧ c.sameEntity e.2 = true
  /-- Each answer is what its file reads back to. -/
  answered : ∀ e ∈ written.entries,
    e.1 ∈ entities.keys ∧ d'.readEntity (entityFilePath directory e.1) = .ok e.2
  /-- Only a file that states its entity is left as it is, and then there is no answer for it. -/
  decided : ∀ e ∈ entities.entries, ∀ l, d'.locate (entityFilePath directory e.1) = some l →
    if force = false ∧ ∃ c, d.stated? l = some c ∧ c.sameEntity e.2 = true then
      e.1 ∉ written.keys ∧ d'.occupant l = d.occupant l
    else
      (e.1, keepingDate (d.stated? l) e.2) ∈ written.entries ∧
        d'.occupant l = .file (some (fileText indent (keepingDate (d.stated? l) e.2)))
  /-- All other files stay as they are. -/
  untouched : ∀ l content,
    (∀ name ∈ entities.keys, d'.locate (entityFilePath directory name) ≠ some l) →
      (d'.occupant l = .file content ↔ d.occupant l = .file content)
  /-- The same entities, with any changelog dates, are not written again. -/
  settled : ∀ later : Descriptors,
    (∀ e ∈ later.entries, ∃ descriptor date,
      (e.1, descriptor) ∈ entities.entries ∧ e.2 = descriptor.dated date) →
    d'.exportTo directory indent false later = (d', .ok ∅)

private theorem exportEntity_idle {entity : String} {c descriptor : EntityDescriptor}
    (hname : entity ≠ "") (hread : d.readEntity (entityFilePath directory entity) = .ok c)
    (hsame : c.sameEntity descriptor = true) :
    d.exportEntity directory indent false entity descriptor = .ok (d, none) := by
  have hpath : entityPath directory entity = .ok (entityFilePath directory entity) :=
    entityPath_eq_ok.mpr ⟨hname, rfl⟩
  have hcurrent := current?_eq_some.mpr hread
  simp [exportEntity, hpath, hcurrent, hsame, bind, Except.bind, pure, Except.pure]

private theorem exportAll_idle {later : List (String × EntityDescriptor)} {written : Descriptors}
    (h : ∀ e ∈ later, d.exportEntity directory indent false e.1 e.2 = .ok (d, none)) :
    exportAll directory indent false later d written = (d, .ok written) := by
  induction later with
  | nil => rfl
  | cons e rest ih =>
    have hfirst := h e List.mem_cons_self
    simp only [exportAll, hfirst]
    exact ih fun x hx => h x (List.mem_cons_of_mem e hx)

/-- Where the directory is there and every file states its entity, nothing is written. -/
theorem exportTo_idle {entities : Descriptors}
    (hthere : (d.exists? directory && !d.isDirectory directory) = false)
    (hmade : d.createDirectories directory = (d, true))
    (h : ∀ e ∈ entities.entries, e.1 ≠ "" ∧ ∃ c,
      d.readEntity (entityFilePath directory e.1) = .ok c ∧ c.sameEntity e.2 = true) :
    d.exportTo directory indent false entities = (d, .ok ∅) := by
  simp only [exportTo, hthere, hmade, Bool.false_eq_true, if_false]
  refine exportAll_idle fun e he => ?_
  obtain ⟨hname, c, hc, hsame⟩ := h e he
  exact exportEntity_idle hname hc hsame

section Effect
variable {entities written : Descriptors}

/-- An export in terms of what is due at the place of each entity. -/
structure Effect (d d' : Disk) (directory : String) (indent : Nat) (force : Bool)
    (entities written : Descriptors) : Prop where
  places : ∀ e ∈ entities.entries, e.1 ≠ "" ∧ ∃ l,
    d'.locate (entityFilePath directory e.1) = some l ∧
    d'.occupant l = afterwards indent (d.occupant l) (due? force (d.stated? l) e.2) ∧
    ∀ w, (e.1, w) ∈ written.entries ↔ due? force (d.stated? l) e.2 = some w
  answers : ∀ e ∈ written.entries, e.1 ∈ entities.keys
  untouched : ∀ l content,
    (∀ name ∈ entities.keys, d'.locate (entityFilePath directory name) ≠ some l) →
      (d'.occupant l = .file content ↔ d.occupant l = .file content)
  isThere : (d'.exists? directory && !d'.isDirectory directory) = false
  isMade : d'.createDirectories directory = (d', true)

theorem exportTo_effect (hsegments : ∀ name ∈ entities.keys, Path.IsSegment name)
    (hdistinct : (entities.keys.map upperFirst).Nodup)
    (h : d.exportTo directory indent force entities = (d', .ok written)) :
    Effect d d' directory indent force entities written := by
  unfold exportTo at h
  split at h
  · simp at h
  split at h
  · simp at h
  next d₁ hmade =>
  obtain ⟨hextends, hdirectory, hidle⟩ := createDirectories_spec hmade
  have hkeys : ∀ e ∈ entities.entries, e.1 ∈ entities.keys := fun e he => List.mem_map_of_mem he
  obtain ⟨hsame, hplaces, huntouched, hentries⟩ := exportAll_spec
    (fun e he => hsegments e.1 (hkeys e he))
    (by simpa [Table.keys, List.map_map, Function.comp_def] using hdistinct) (by simp) h
  rw [Table.entries_empty, List.nil_append] at hentries
  have hbefore : ∀ l, d₁.stated? l = d.stated? l := by
    intro l
    refine Option.ext fun c => ?_
    simp only [stated?_eq_some, hextends.files]
  have hafter : ∀ l e, afterwards indent (d₁.occupant l) (due? force (d.stated? l) e) =
      afterwards indent (d.occupant l) (due? force (d.stated? l) e) := by
    intro l e
    cases hdue : due? force (d.stated? l) e with
    | some w => rfl
    | none =>
      obtain ⟨-, c, hc, -⟩ := due?_eq_none.mp hdue
      obtain ⟨text, htext, -⟩ := stated?_eq_some.mp hc
      exact ((hextends.files l _).mpr htext).trans htext.symm
  refine ⟨?_, ?_, ?_, ?_, hidle d' hsame⟩
  · intro e he
    obtain ⟨hname, l, hl, hoccupant⟩ := hplaces e he
    rw [hbefore, hafter] at hoccupant
    refine ⟨hname, l, (locate_congr hsame _).symm.trans hl, hoccupant, fun w => ?_⟩
    rw [hentries, List.mem_filterMap]
    constructor
    · rintro ⟨e', he', hw⟩
      obtain ⟨w', hdue, heq⟩ := Option.map_eq_some_iff.mp hw
      obtain ⟨hname', rfl⟩ := Prod.mk.inj heq
      have hlisted' : entities.find? e.1 = some e'.2 := by
        rw [← hname']
        exact Table.find?_eq_some_iff.mpr he'
      have hlisted : entities.find? e.1 = some e.2 := Table.find?_eq_some_iff.mpr he
      have hvalue := Option.some.inj (hlisted'.symm.trans hlisted)
      rw [hname', hl, Option.bind_some, hbefore, hvalue] at hdue
      exact hdue
    · intro hdue
      exact ⟨e, he, by rw [hl, Option.bind_some, hbefore, hdue]; rfl⟩
  · intro e he
    obtain ⟨e', he', hw⟩ := List.mem_filterMap.mp (hentries ▸ he)
    obtain ⟨w', -, rfl⟩ := Option.map_eq_some_iff.mp hw
    exact hkeys e' he'
  · intro l content hl
    rw [huntouched l, hextends.files]
    intro e he
    rw [locate_congr hsame]
    exact hl e.1 (hkeys e he)
  · cases hexists : d'.exists? directory with
    | false => rfl
    | true =>
      obtain ⟨l, hl, -⟩ := exists?_iff.mp hexists
      have hoccupant := (hsame l).mp (hdirectory l ((locate_congr hsame directory).trans hl))
      simp [isDirectory_iff.mpr ⟨l, hl, hoccupant⟩]

namespace Effect

theorem read (h : Effect d d' directory indent force entities written)
    (hsegments : ∀ name ∈ entities.keys, Path.IsSegment name)
    (hback : ∀ e ∈ entities.entries, ReadsBack indent e.2) {e : String × EntityDescriptor}
    (he : e ∈ entities.entries) {w : EntityDescriptor} (hw : (e.1, w) ∈ written.entries) :
    d'.readEntity (entityFilePath directory e.1) = .ok w ∧ w.sameEntity e.2 = true := by
  obtain ⟨hname, l, hl, hoccupant, hdue⟩ := h.places e he
  have hsome := (hdue w).mp hw
  obtain ⟨date, hdate⟩ := keepingDate_eq_dated (d.stated? l) e.2
  obtain rfl : w = e.2.dated date := (due?_eq_some hsome).trans hdate
  rw [hsome] at hoccupant
  have hsegment := hsegments e.1 (List.mem_map_of_mem he)
  refine ⟨(readEntity_entityFilePath hname hsegment).mpr ⟨l, hl, ?_⟩, ?_⟩
  · exact stated?_eq_some.mpr ⟨_, hoccupant, hback e he date⟩
  · rw [EntityDescriptor.sameEntity_dated_left, EntityDescriptor.sameEntity_refl]

theorem stated (h : Effect d d' directory indent force entities written)
    (hsegments : ∀ name ∈ entities.keys, Path.IsSegment name)
    (hback : ∀ e ∈ entities.entries, ReadsBack indent e.2) {e : String × EntityDescriptor}
    (he : e ∈ entities.entries) :
    ∃ c, d'.readEntity (entityFilePath directory e.1) = .ok c ∧ c.sameEntity e.2 = true := by
  obtain ⟨hname, l, hl, hoccupant, hdue⟩ := h.places e he
  cases hwritten : due? force (d.stated? l) e.2 with
  | some w => exact ⟨w, h.read hsegments hback he ((hdue w).mpr hwritten)⟩
  | none =>
    obtain ⟨-, c, hc, hsame⟩ := due?_eq_none.mp hwritten
    rw [hwritten] at hoccupant
    have hsegment := hsegments e.1 (List.mem_map_of_mem he)
    refine ⟨c, (readEntity_entityFilePath hname hsegment).mpr ⟨l, hl, ?_⟩, hsame⟩
    rw [stated?_congr hoccupant, hc]

end Effect

theorem exportTo_exported (hsegments : ∀ name ∈ entities.keys, Path.IsSegment name)
    (hdistinct : (entities.keys.map upperFirst).Nodup)
    (hback : ∀ e ∈ entities.entries, ReadsBack indent e.2)
    (h : d.exportTo directory indent force entities = (d', .ok written)) :
    Exported d d' directory indent force entities written := by
  have heffect := exportTo_effect hsegments hdistinct h
  refine ⟨fun e he => heffect.stated hsegments hback he, ?_, ?_, heffect.untouched, ?_⟩
  · rintro ⟨name, w⟩ hw
    have hkey := heffect.answers _ hw
    obtain ⟨descriptor, hmem⟩ := Table.mem_keys.mp hkey
    exact ⟨hkey, (heffect.read hsegments hback hmem hw).1⟩
  · intro e he l hl
    obtain ⟨-, k, hk, hoccupant, hdue⟩ := heffect.places e he
    obtain rfl := Option.some.inj (hk.symm.trans hl)
    split
    · next hkept =>
      have hnone := due?_eq_none.mpr hkept
      rw [hnone] at hoccupant
      refine ⟨fun hmem => ?_, hoccupant⟩
      obtain ⟨w, hw⟩ := Table.mem_keys.mp hmem
      simp [(hdue w).mp hw] at hnone
    · next hwritten =>
      have hsome : due? force (d.stated? k) e.2 = some (keepingDate (d.stated? k) e.2) := by
        cases hcase : due? force (d.stated? k) e.2 with
        | none => exact absurd (due?_eq_none.mp hcase) hwritten
        | some w => rw [due?_eq_some hcase]
      rw [hsome] at hoccupant
      exact ⟨(hdue _).mpr hsome, hoccupant⟩
  · intro later hlater
    refine exportTo_idle heffect.isThere heffect.isMade fun e he => ?_
    obtain ⟨descriptor, date, hmem, hdated⟩ := hlater e he
    obtain ⟨c, hc, hsame⟩ := heffect.stated hsegments hback hmem
    refine ⟨(heffect.places _ hmem).1, c, hc, ?_⟩
    rw [hdated, EntityDescriptor.sameEntity_dated_right, hsame]

end Effect
end Directory

/-- An export brings the files of its entities in line and touches no others, and the same entities
are not written again. -/
theorem exportEntities_exported {plan : ExportPlan} {entities written : Descriptors}
    (hsegments : ∀ name ∈ entities.keys, Path.IsSegment name)
    (hdistinct : (entities.keys.map upperFirst).Nodup)
    (hclean : ∀ e ∈ entities.entries, e.2.Clean)
    (hfaithful : ∀ e ∈ entities.entries, ∀ date,
      Json.parse (fileText plan.indent (e.2.dated date)) = some (e.2.dated date).toJson)
    (h : d.exportEntities plan force entities = (d', .ok written)) :
    Exported d d' plan.entityPath plan.indent force entities written :=
  exportTo_exported hsegments hdistinct
    (fun e he => readsBack_of_clean (hclean e he) (hfaithful e he)) h

/-- A book whose file has a date of its own, and an author whose file is unreadable. -/
def shelf : Disk :=
  let book := EntityDescriptor.empty.dated (some "20200101000000")
  let files := [("Author.json", .file none), ("Book.json", .file (some (fileText 4 book)))]
  ⟨Table.ofList [(.above 0, .directory [(entityDirectory, .directory files)])]⟩

def catalogue : Descriptors :=
  Table.ofList
    [("Book", .empty), ("Author", { EntityDescriptor.empty with comment := some "writes" })]

theorem exportEntities_shelf : ∃ d' written,
    shelf.exportEntities .standard false catalogue = (d', .ok written) ∧
      written.keys = ["Author"] ∧
      Exported shelf d' ExportPlan.standard.entityPath 4 false catalogue written := by
  have hrun : (shelf.exportEntities .standard false catalogue).2.toOption.map Table.keys =
      some ["Author"] := by decide +kernel
  have hplain : ∀ e ∈ catalogue.entries,
      e.2.fields = [] ∧ e.2.relationships = [] ∧ e.2.extra = ∅ := by decide +kernel
  have hclean : ∀ e ∈ catalogue.entries, e.2.Clean := by
    intro e he
    constructor <;> simp [hplain e he, Json.Others]
  have hprintable : ∀ e ∈ catalogue.entries, e.2.Printable := by
    intro e he
    constructor <;> simp [hplain e he, Json.PrintableEntries]
  generalize hresult : shelf.exportEntities .standard false catalogue = result at hrun ⊢
  obtain ⟨d', outcome⟩ := result
  cases outcome with
  | error f => simp [Except.toOption] at hrun
  | ok written =>
    exact ⟨d', written, rfl, by simpa [Except.toOption] using hrun,
      exportEntities_exported (by decide +kernel) (by decide +kernel) hclean
        (fun e he date => parse_fileText (hprintable e he) date) hresult⟩

end Disk
end DomainModel
