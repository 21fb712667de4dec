import DomainModel.Proofs.Disk.Applications
import DomainModel.Proofs.Disk.Listings
import DomainModel.Proofs.Text.Identifiers
/-!
# Reading an exported directory back

Descriptors exported to a directory that holds no other readable ones are read back from it as they
are, in the order of their files. So an exported application is read as its descriptors would be in
memory, into the model of its generator settings, which the export leaves alone.
-/
namespace DomainModel

namespace Descriptors
variable {entities : Descriptors}

/-- The same descriptors in the order of their files. -/
def byFile (entities : Descriptors) : Descriptors :=
  Table.ofList
    ((DiskEntry.inOrder (entities.entries.map fun e => (entityFile e.1, e))).map Prod.snd)

private theorem filed_perm (entities : Descriptors) :
    ((DiskEntry.inOrder (entities.entries.map fun e => (entityFile e.1, e))).map Prod.snd).Perm
      entities.entries := by
  have hperm := (DiskEntry.inOrder_perm
    (entities.entries.map fun e => (entityFile e.1, e))).map Prod.snd
  simpa [List.map_map, Function.comp_def] using hperm

private theorem entries_byFile (entities : Descriptors) : entities.byFile.entries =
    (DiskEntry.inOrder (entities.entries.map fun e => (entityFile e.1, e))).map Prod.snd := by
  apply Table.entries_ofList
  exact ((filed_perm entities).map Prod.fst).nodup_iff.mpr entities.distinct

theorem mem_byFile {e : String × EntityDescriptor} :
    e ∈ entities.byFile.entries ↔ e ∈ entities.entries := by
  rw [entries_byFile]
  exact (filed_perm entities).mem_iff

theorem pairwise_byFile (entities : Descriptors) :
    entities.byFile.entries.Pairwise fun x y => entityFile x.1 ≤ entityFile y.1 := by
  rw [entries_byFile, List.pairwise_map]
  refine (DiskEntry.pairwise_inOrder _).imp_of_mem fun {x y} hx hy hle => ?_
  have hfile : ∀ z ∈ DiskEntry.inOrder (entities.entries.map fun e => (entityFile e.1, e)),
      z.1 = entityFile z.2.1 := by
    intro z hz
    obtain ⟨e, -, rfl⟩ := List.mem_map.mp ((DiskEntry.inOrder_perm _).subset hz)
    rfl
  rwa [← hfile x hx, ← hfile y hy]

end Descriptors

namespace Disk
variable {d d' : Disk} {directory : String} {indent : Nat} {force : Bool}
  {entities written : Descriptors} {l : Location} {name : String}

/-- Nothing in the directory at a place, if there is one, can be read as a descriptor; the names
that it lists are single ones, as on any disk. -/
structure Unclaimed (d : Disk) (l : Location) : Prop where
  plain : ∀ name ∈ d.namesIn l, Path.IsPlain name
  unreadable : ∀ name ∈ d.namesIn l, (Path.stemAndExtension name).2 = some "json" →
    d.stated? (l.child name) = none

/-- The descriptor under a name in a directory, with the stem of the name. -/
private def entry (d : Disk) (directory name : String) : Option (String × EntityDescriptor) :=
  match Path.stemAndExtension name, d.readEntity (Path.join directory name) with
  | (stem, some "json"), .ok descriptor => some (stem, descriptor)
  | _, _ => none

private theorem entry_eq_some {e : String × EntityDescriptor} :
    d.entry directory name = some e ↔ Path.stemAndExtension name = (e.1, some "json") ∧
      d.readEntity (Path.join directory name) = .ok e.2 := by
  unfold entry
  obtain ⟨stem, ending⟩ := Path.stemAndExtension name
  split
  · next hname hread =>
    obtain ⟨rfl, rfl⟩ := Prod.mk.inj hname
    simp [hread, Prod.ext_iff]
  · next hno =>
    constructor
    · simp
    · intro ⟨hname, hread⟩
      exact absurd hread (hno _ _ hname)

theorem readDescriptors_eq (hl : d.locate directory = some l) (hthere : d.occupant l = .directory) :
    d.readDescriptors directory = Table.ofList ((d.namesIn l).filterMap (d.entry directory)) := by
  unfold readDescriptors
  rw [hl]
  exact if_pos (isDirectoryAt_iff.mpr hthere)

section Exported
variable (hcapital : ∀ name ∈ entities.keys, startsWithCapital name = true)
  (hsegments : ∀ name ∈ entities.keys, Path.IsSegment name)
  (h : d.exportTo directory indent force entities = (d', .ok written))
  (hl : d'.locate directory = some l) (hclear : d.Unclaimed l)

include hcapital in
private theorem stem_exported (hname : name ∈ entities.keys) :
    Path.stemAndExtension (entityFile name) = (name, some "json") := by
  have hnonempty : name ≠ "" := by
    rintro rfl
    exact absurd (hcapital "" hname) (by decide)
  rw [stemAndExtension_entityFile hnonempty, upperFirst_of_startsWithCapital (hcapital name hname)]

include hcapital in
private theorem nodup_upperFirst : (entities.keys.map upperFirst).Nodup := by
  have hsame : entities.keys.map upperFirst = entities.keys.map id :=
    List.map_congr_left fun name hname => upperFirst_of_startsWithCapital (hcapital name hname)
  rw [hsame, List.map_id]
  exact entities.distinct

include hcapital hsegments h in
private theorem effect_exported : Effect d d' directory indent force entities written :=
  exportTo_effect hsegments (nodup_upperFirst hcapital) h

include hcapital hsegments h in
private theorem exportTo_made :
    ∃ d₁, d.createDirectories directory = (d₁, true) ∧ SameDirectories d₁ d' := by
  obtain ⟨d₁, hmade, hall⟩ := exportTo_ok h
  have hdistinct : (entities.entries.map fun e => upperFirst e.1).Nodup := by
    simpa [Table.keys, List.map_map, Function.comp_def] using nodup_upperFirst hcapital
  have hspec := exportAll_spec (fun e he => hsegments e.1 (List.mem_map_of_mem he)) hdistinct
    (by simp) hall
  exact ⟨d₁, hmade, hspec.1⟩

include hcapital hsegments h hl

private theorem locate_exported (hname : name ∈ entities.keys) :
    d'.locate (entityFilePath directory name) = some (l.child (entityFile name)) := by
  have heffect := effect_exported hcapital hsegments h
  obtain ⟨descriptor, he⟩ := Table.mem_keys.mp hname
  obtain ⟨-, k, hk, -⟩ := heffect.places _ he
  obtain ⟨here, hhere, -, rfl⟩ :=
    locate_join (ne_empty_of_locate hl) (Path.entityFile_isPlain (hsegments name hname)) hk
  rw [hk, Option.some.inj (hhere.symm.trans hl)]

private theorem file_exported {content : Option String}
    (hfile : d'.occupant (l.child name) = .file content) :
    (∃ entity ∈ entities.keys, name = entityFile entity) ∨
      d.occupant (l.child name) = .file content := by
  by_cases hentity : ∃ entity ∈ entities.keys, name = entityFile entity
  · exact .inl hentity
  · have heffect := effect_exported hcapital hsegments h
    refine .inr ((heffect.untouched _ _ ?_).mp hfile)
    intro entity hkey hplace
    apply hentity
    refine ⟨entity, hkey, ?_⟩
    rw [locate_exported hcapital hsegments h hl hkey] at hplace
    exact (Location.child_inj (Option.some.inj hplace)).symm

include hclear

private theorem stated_exported
    (hback : ∀ e ∈ entities.entries, EntityDescriptor.parse (fileText indent e.2) = .ok e.2)
    {e : String × EntityDescriptor} (he : e ∈ entities.entries) :
    d'.stated? (l.child (entityFile e.1)) = some e.2 := by
  have hname : e.1 ∈ entities.keys := List.mem_map_of_mem he
  have heffect := effect_exported hcapital hsegments h
  obtain ⟨hnonempty, k, hk, hoccupant, -⟩ := heffect.places e he
  obtain rfl := Option.some.inj
    (hk.symm.trans (locate_exported hcapital hsegments h hl hname))
  -- nothing readable was there before, so the descriptor is written as it is
  have hnone : d.stated? (l.child (entityFile e.1)) = none := by
    by_cases hlisted : entityFile e.1 ∈ d.namesIn l
    · apply hclear.unreadable _ hlisted
      rw [stemAndExtension_entityFile hnonempty]
    · rw [mem_namesIn, not_not] at hlisted
      simp [stated?, hlisted]
  have hwritten : due? force (d.stated? (l.child (entityFile e.1))) e.2 = some e.2 := by
    simp [hnone, due?, keepingDate]
  rw [hwritten] at hoccupant
  exact stated?_eq_some.mpr ⟨_, hoccupant, hback e he⟩

private theorem plain_exported (hlisted : name ∈ d'.namesIn l) : Path.IsPlain name := by
  by_cases hbefore : name ∈ d.namesIn l
  · exact hclear.plain name hbefore
  · rw [mem_namesIn, not_not] at hbefore
    rw [mem_namesIn] at hlisted
    cases hoccupant : d'.occupant (l.child name) with
    | nothing => exact absurd hoccupant hlisted
    | file content =>
      rcases file_exported hcapital hsegments h hl hoccupant with hentity | hfile
      · obtain ⟨entity, hkey, rfl⟩ := hentity
        exact Path.entityFile_isPlain (hsegments entity hkey)
      · simp [hbefore] at hfile
    | directory =>
      -- only the directories of the path were made
      obtain ⟨d₁, hmade, hsame⟩ := exportTo_made hcapital hsegments h
      have hchanged : d₁.occupant (l.child name) ≠ d.occupant (l.child name) := by
        rw [(hsame _).mpr hoccupant, hbefore]
        exact Occupant.noConfusion
      exact createDirectories_named hmade hchanged name (by simp [Location.child])

variable (hback : ∀ e ∈ entities.entries, EntityDescriptor.parse (fileText indent e.2) = .ok e.2)
include hback

private theorem entry_exported (hlisted : name ∈ d'.namesIn l) {e : String × EntityDescriptor}
    (hentry : d'.entry directory name = some e) :
    e ∈ entities.entries ∧ name = entityFile e.1 := by
  obtain ⟨hstem, hread⟩ := entry_eq_some.mp hentry
  have hplain := plain_exported hcapital hsegments h hl hclear hlisted
  have hthere := stated?_of_readEntity (ne_empty_of_locate hl) hl hplain hread
  obtain ⟨text, htext, hparse⟩ := stated?_eq_some.mp hthere
  rcases file_exported hcapital hsegments h hl htext with hentity | hbefore
  · obtain ⟨entity, hkey, rfl⟩ := hentity
    obtain ⟨descriptor, hmem⟩ := Table.mem_keys.mp hkey
    have hstated := stated_exported hcapital hsegments h hl hclear hback hmem
    obtain ⟨hentity, -⟩ := Prod.mk.inj ((stem_exported hcapital hkey).symm.trans hstem)
    have hdescriptor : descriptor = e.2 := Option.some.inj (hstated.symm.trans hthere)
    rw [← hentity]
    exact ⟨by rwa [hentity, hdescriptor] at hmem, rfl⟩
  · have hlisted' : name ∈ d.namesIn l := by simp [mem_namesIn, hbefore]
    have hnone := hclear.unreadable name hlisted' (by rw [hstem])
    rw [stated?_eq_some.mpr ⟨text, hbefore, hparse⟩] at hnone
    simp at hnone

private theorem exported_entry {e : String × EntityDescriptor} (he : e ∈ entities.entries) :
    entityFile e.1 ∈ d'.namesIn l ∧ d'.entry directory (entityFile e.1) = some e := by
  have hname : e.1 ∈ entities.keys := List.mem_map_of_mem he
  have hstated := stated_exported hcapital hsegments h hl hclear hback he
  have hplace := locate_exported hcapital hsegments h hl hname
  have hread : d'.readEntity (entityFilePath directory e.1) = .ok e.2 := by
    obtain ⟨hnonempty, -⟩ := (effect_exported hcapital hsegments h).places e he
    exact (readEntity_entityFilePath hnonempty (hsegments e.1 hname)).mpr ⟨_, hplace, hstated⟩
  refine ⟨?_, entry_eq_some.mpr ⟨stem_exported hcapital hname, hread⟩⟩
  obtain ⟨text, htext, -⟩ := stated?_eq_some.mp hstated
  simp [mem_namesIn, htext]

theorem readDescriptors_exported : d'.readDescriptors directory = entities.byFile := by
  have hthere : d'.occupant l = .directory := by
    obtain ⟨d₁, hmade, hsame⟩ := exportTo_made hcapital hsegments h
    exact (hsame l).mp ((createDirectories_spec hmade).2.1 l ((locate_congr hsame _).trans hl))
  -- the names of the files tell the descriptors apart
  have hnamed : ∀ name ∈ d'.namesIn l, ∀ e, d'.entry directory name = some e →
      e ∈ entities.entries ∧ name = entityFile e.1 := fun _ hlisted _ hentry =>
    entry_exported hcapital hsegments h hl hclear hback hlisted hentry
  rw [readDescriptors_eq hl hthere]
  apply Table.ofList_of_pairwise (r := fun a b => entityFile a ≤ entityFile b)
  · intro a ha b hb hab hba
    have hkeys : ∀ name ∈ entities.byFile.keys, startsWithCapital name = true := by
      intro name hname
      obtain ⟨descriptor, he⟩ := Table.mem_keys.mp hname
      exact hcapital name (Table.mem_keys.mpr ⟨descriptor, Descriptors.mem_byFile.mp he⟩)
    have hupper := entityFile_inj (String.le_antisymm hab hba)
    rwa [upperFirst_of_startsWithCapital (hkeys a ha),
      upperFirst_of_startsWithCapital (hkeys b hb)] at hupper
  · exact entities.pairwise_byFile
  · rw [List.pairwise_filterMap]
    refine (pairwise_namesIn d' l).imp_of_mem fun {x y} hx hy hle => ?_
    intro e he e' he'
    rwa [← (hnamed x hx e he).2, ← (hnamed y hy e' he').2]
  · intro e
    rw [Descriptors.mem_byFile, List.mem_filterMap]
    constructor
    · rintro ⟨name, hlisted, hentry⟩
      exact (hnamed name hlisted e hentry).1
    · intro he
      exact ⟨_, exported_entry hcapital hsegments h hl hclear hback he⟩

end Exported

end Disk

/-- The section of the generator in the content of a settings file. -/
def Json.generatorSection? (content : Json) : Option Settings :=
  match content.canonical.get? generatorSection with
  | some (.record entries) => some (Table.ofList entries)
  | _ => none

/-- The model that reading starts from: that of the generator settings, empty without them. -/
def Model.ofSettingsFile (content : Option Json) : Outcome Model :=
  match content.bind Json.generatorSection? with
  | some settings => Model.ofGeneratorSettings settings
  | none => .ok ∅

namespace Disk
variable {d d' : Disk} {application : String} {indent : Nat} {force : Bool}
  {entities written : Descriptors} {here : Location} {content : Option Json}

/-- Where an application has its settings file once an export has made the directories, there was
no file before the export, or one with the text of a value. -/
inductive Configured (d d' : Disk) (application : String) : Option Json → Prop
  | missing (h : ∀ l content, d'.locate (Path.join application generatorFile) = some l →
      d.occupant l ≠ .file content) : Configured d d' application none
  | valid {l : Location} {text : String} {content : Json}
      (hl : d'.locate (Path.join application generatorFile) = some l)
      (htext : d.occupant l = .file (some text)) (hparse : Json.parse text = some content) :
      Configured d d' application (some content)

section Application
variable (hcapital : ∀ name ∈ entities.keys, startsWithCapital name = true)
  (hsegments : ∀ name ∈ entities.keys, Path.IsSegment name)
  (hhere : d'.locate application = some here)
  (h : d.exportEntities ⟨application, entityDirectory, indent⟩ force entities = (d', .ok written))

include hcapital hsegments hhere h

private theorem locate_entityDirectory :
    d'.locate (Path.join application entityDirectory) = some (here.child entityDirectory) ∧
      d'.occupant here = .directory := by
  have hplain : Path.IsPlain entityDirectory := by decide
  obtain ⟨d₁, hmade, hsame⟩ := exportTo_made hcapital hsegments h
  obtain ⟨before, hbefore⟩ := Path.segments_join application
  obtain ⟨hjoined, habsolute⟩ := hbefore _ hplain.segment
  have hplace : Path.endsInPlace (Path.join application entityDirectory) = false := by
    rw [Path.endsInPlace, hjoined, List.reverse_append]
    rfl
  have hstart : d₁.occupant (origin (Path.join application entityDirectory)) = .directory := by
    rw [hsame, origin, habsolute]
    exact occupant_origin hhere
  have hnonempty : Path.join application entityDirectory ≠ "" := by
    intro hempty
    have hlast : (Path.segments "").getLast? = some entityDirectory := by
      rw [← hempty, hjoined, List.getLast?_concat]
    exact absurd hlast (by decide)
  obtain ⟨l, hl⟩ := createDirectories_locate hmade hnonempty hplace hstart
  rw [locate_congr hsame] at hl
  obtain ⟨k, hk, hthere, rfl⟩ := locate_join (ne_empty_of_locate hhere) hplain hl
  obtain rfl := Option.some.inj (hk.symm.trans hhere)
  exact ⟨hl, hthere⟩

private theorem generatorFile_exported {l : Location} {held : Option String}
    (hl : d'.locate (Path.join application generatorFile) = some l) :
    d'.occupant l = .file held ↔ d.occupant l = .file held := by
  -- the settings are left alone, since no descriptor goes to the directory that holds them
  obtain ⟨k, hk, -, rfl⟩ := locate_join (ne_empty_of_locate hhere) (by decide) hl
  obtain rfl := Option.some.inj (hk.symm.trans hhere)
  apply (effect_exported hcapital hsegments h).untouched
  intro name hname hplace
  have hentity := (locate_entityDirectory hcapital hsegments hhere h).1
  rw [locate_exported hcapital hsegments h hentity hname] at hplace
  have hnames := congrArg (fun l => l.names.length) (Option.some.inj hplace)
  simp [Location.child] at hnames

theorem generatorSettings_exported (hsettings : Configured d d' application content) :
    d'.generatorSettings application = .ok (content.bind Json.generatorSection?) := by
  unfold generatorSettings
  dsimp only
  cases hsettings with
  | missing hnone =>
    have hmissing : d'.isFile (Path.join application generatorFile) = false := by
      rw [Bool.eq_false_iff, ne_eq, isFile_iff]
      rintro ⟨l, held, hl, hfile⟩
      exact hnone l held hl ((generatorFile_exported hcapital hsegments hhere h hl).mp hfile)
    rw [hmissing]
    rfl
  | @valid _ text _ hl htext hparse =>
    have hfile := (generatorFile_exported hcapital hsegments hhere h hl).mpr htext
    have hthere := isFile_iff.mpr ⟨_, _, hl, hfile⟩
    have hread : d'.readText (Path.join application generatorFile) = .ok text := by
      rw [readText, read?_eq_some.mpr ⟨_, hl, hfile⟩]
    rw [hthere, hread]
    simp only [Bool.not_true, Bool.false_eq_true, if_false, Outcome.ofReading, hparse, bind,
      Except.bind, Option.bind, Json.generatorSection?]
    split <;> simp_all [pure, Except.pure]

/-- An exported application is read as its descriptors, in the order of their files, would be in
memory: into the same model on top of that of its generator settings, or with the same failure.
Here `here` is where the application is, whose directories the export makes if they are missing. -/
theorem readApplication_exported
    (hback : ∀ e ∈ entities.entries, EntityDescriptor.parse (fileText indent e.2) = .ok e.2)
    (hclear : d.Unclaimed (here.child entityDirectory))
    (hsettings : Configured d d' application content) :
    d'.readApplication application =
      (do Descriptors.toModelFrom entities.byFile (← Model.ofSettingsFile content)) := by
  obtain ⟨hentity, hthere⟩ := locate_entityDirectory hcapital hsegments hhere h
  have hdirectory := isDirectory_iff.mpr ⟨here, hhere, hthere⟩
  have hdescriptors : d'.readDescriptors (Path.join application entityDirectory) =
      entities.byFile := readDescriptors_exported hcapital hsegments h hentity hclear hback
  have hsettings := generatorSettings_exported hcapital hsegments hhere h hsettings
  rw [readApplication, if_neg (ne_empty_of_locate hhere), hdirectory, hsettings, hdescriptors]
  cases hsection : content.bind Json.generatorSection? with
  | none =>
    rw [Model.ofSettingsFile, hsection]
    rfl
  | some settings =>
    rw [Model.ofSettingsFile, hsection]
    rfl

end Application

def dispensarySettings : Json :=
  .record [(generatorSection, .record [(OptionName.skipServer, .bool true)])]

/-- An application with settings, among whose descriptors are notes and a draft that states none. -/
def dispensary : Disk :=
  let files := [("notes.txt", .file (some "to do")), ("Draft.json", .file (some "unfinished"))]
  let application := [(generatorFile, .file (some (dispensarySettings.pretty 2))),
    (entityDirectory, .directory files)]
  ⟨Table.ofList [(.above 0, .directory [("dispensary", .directory application)])]⟩

def remedies : Descriptors :=
  Table.ofList
    [("Tablet", .empty), ("Dose", { EntityDescriptor.empty with comment := some "for a day" })]

private theorem dispensary_unclaimed :
    dispensary.Unclaimed ⟨.above 0, ["dispensary", entityDirectory]⟩ := by
  have hnames : ∀ name ∈ dispensary.namesIn ⟨.above 0, ["dispensary", entityDirectory]⟩,
      name ∈ ["notes.txt", "Draft.json"] := by
    have hperm := namesIn_perm (d := dispensary) (l := ⟨.above 0, ["dispensary", entityDirectory]⟩)
      rfl
    exact fun name hname => hperm.subset hname
  constructor
  · intro name hname
    have hall : ∀ name ∈ ["notes.txt", "Draft.json"], Path.IsPlain name := by decide
    exact hall name (hnames name hname)
  · intro name hname _
    have hall : ∀ name ∈ ["notes.txt", "Draft.json"], dispensary.stated?
        (Location.child ⟨.above 0, ["dispensary", entityDirectory]⟩ name) = none := by
      decide +kernel
    exact hall name (hnames name hname)

theorem readApplication_dispensary : ∃ d' written,
    dispensary.exportEntities ⟨"dispensary", entityDirectory, 2⟩ false remedies =
      (d', .ok written) ∧
    d'.readApplication "dispensary" =
      (do Descriptors.toModelFrom remedies.byFile (← Model.ofSettingsFile dispensarySettings)) := by
  have hrun : (dispensary.exportEntities ⟨"dispensary", entityDirectory, 2⟩ false
      remedies).2.toOption.isSome = true := by decide +kernel
  have hback : ∀ e ∈ remedies.entries, EntityDescriptor.parse (fileText 2 e.2) = .ok e.2 := by
    decide +kernel
  have hhere : (dispensary.exportEntities ⟨"dispensary", entityDirectory, 2⟩ false
      remedies).1.locate "dispensary" = some ⟨.above 0, ["dispensary"]⟩ := by decide +kernel
  have hfile : (dispensary.exportEntities ⟨"dispensary", entityDirectory, 2⟩ false
      remedies).1.locate (Path.join "dispensary" generatorFile) =
        some ⟨.above 0, ["dispensary", generatorFile]⟩ := by decide +kernel
  generalize hresult : dispensary.exportEntities ⟨"dispensary", entityDirectory, 2⟩ false
    remedies = result at hrun hhere hfile ⊢
  obtain ⟨d', outcome⟩ := result
  cases outcome with
  | error f => simp [Except.toOption] at hrun
  | ok written =>
    have hsettings : Configured dispensary d' "dispensary" (some dispensarySettings) :=
      .valid hfile rfl (by decide +kernel)
    exact ⟨d', written, rfl, readApplication_exported (by decide +kernel) (by decide +kernel) hhere
      hresult hback dispensary_unclaimed hsettings⟩

end Disk
end DomainModel
