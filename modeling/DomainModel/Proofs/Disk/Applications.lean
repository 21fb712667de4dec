import DomainModel.Proofs.Descriptors.Conversion
import DomainModel.Proofs.Disk.Dates
import DomainModel.Proofs.Disk.Places
import DomainModel.Proofs.Models.Runs
/-!
# Exporting to applications

The owners that a descriptor states are the applications that name its entity. Exported for the
applications of a model, each descriptor gets one file for each of its owners, in a directory that
no other application shares.
-/
namespace DomainModel

namespace Model
variable {m : Model} {name : String} {a : Application}

/-- An application owns the entities that it names, whatever other applications there are. -/
theorem ownedBy_describe (hm : m.Reachable) (ha : (name, a) ∈ m.applications.entries) (e : Entity)
    (date : String) : (m.describe e date).ownedBy name = a.entityNames.contains e.name := by
  have hnamed := hm.filed.applications
  have hsome : m.applications.isEmpty = false := by
    cases hentries : m.applications.entries with
    | nil => simp [hentries] at ha
    | cons => simp [Table.isEmpty, hentries]
  have howners : (m.describe e date).ownedBy name =
      ((m.applications.values.filter fun b => b.entityNames.contains e.name).filterMap
        Application.baseName?).contains name := by
    simp [describe, EntityDescriptor.ownedBy, ownersOf, hsome, Owners.includes]
  rw [howners, Bool.eq_iff_iff, List.contains_iff_mem, List.mem_filterMap]
  constructor
  · rintro ⟨b, hb, hname⟩
    obtain ⟨hb, howns⟩ := List.mem_filter.mp hb
    obtain ⟨key, hkey⟩ := Table.mem_values.mp hb
    obtain rfl : key = name := Option.some.inj ((hnamed key b hkey).1.symm.trans hname)
    have hsame := (Table.find?_eq_some_iff.mpr hkey).symm.trans (Table.find?_eq_some_iff.mpr ha)
    exact Option.some.inj hsame ▸ howns
  · intro howns
    exact ⟨a, List.mem_filter.mpr ⟨Table.mem_values.mpr ⟨name, ha⟩, howns⟩, (hnamed name a ha).1⟩

theorem filter_ownedBy (hm : m.Reachable) (ha : (name, a) ∈ m.applications.entries) (start : Int) :
    (m.toDescriptors start).filter (fun _ d => d.ownedBy name) =
      (m.toDescriptors start).filter fun entity _ => a.entityNames.contains entity := by
  refine Table.ext_entries (List.filter_congr fun x hx => ?_)
  obtain ⟨e, date, he, hd⟩ := mem_toDescriptors hm.wellFormed hx
  change x.2.ownedBy name = a.entityNames.contains x.1
  rw [hd, ownedBy_describe hm ha, (hm.wellFormed.entities _ e he).1]

end Model

namespace Disk
variable {d d' : Disk} {directory : String} {indent : Nat} {force : Bool}

/-- No directory is lost. -/
def Grows (d d' : Disk) : Prop := ∀ l, d.occupant l = .directory → d'.occupant l = .directory

theorem Grows.trans {d'' : Disk} (h : Grows d d') (h' : Grows d' d'') : Grows d d'' :=
  fun l hl => h' l (h l hl)

theorem reach?_grown (h : Grows d d') {path : String} {l : Location} (hl : d.reach? path = some l) :
    d'.reach? path = some l :=
  walk_grown h hl

theorem exportTo_ok {entities written : Descriptors}
    (h : d.exportTo directory indent force entities = (d', .ok written)) :
    ∃ d₁, d.createDirectories directory = (d₁, true) ∧
      exportAll directory indent force entities.entries d₁ ∅ = (d', .ok written) := by
  unfold exportTo at h
  split at h
  · simp at h
  · split at h
    · simp at h
    · next d₁ hmade => exact ⟨d₁, hmade, h⟩

section Single
variable {entities written : Descriptors} (hsegments : ∀ name ∈ entities.keys, Path.IsSegment name)
  (hdistinct : (entities.keys.map upperFirst).Nodup)
  (h : d.exportTo directory indent force entities = (d', .ok written))
include hsegments hdistinct h

/-- An export loses no directory and answers in the order of the entities. -/
theorem exportTo_answers : Grows d d' ∧ written.entries = entities.entries.filterMap fun e =>
    (due? force ((d'.locate (entityFilePath directory e.1)).bind d.stated?) e.2).map (e.1, ·) := by
  obtain ⟨d₁, hmade, hall⟩ := exportTo_ok h
  obtain ⟨hextends, -, -⟩ := createDirectories_spec hmade
  obtain ⟨hsame, -, -, hentries⟩ := exportAll_spec
    (fun e he => hsegments e.1 (List.mem_map_of_mem he))
    (by simpa [Table.keys, List.map_map, Function.comp_def] using hdistinct) (by simp) hall
  have hbefore : d₁.stated? = d.stated? := by
    funext l
    refine Option.ext fun c => ?_
    simp only [stated?_eq_some, hextends.files]
  refine ⟨fun l hl => (hsame l).mp (hextends.directories l hl), ?_⟩
  simp only [hentries, Table.entries_empty, List.nil_append, locate_congr hsame, hbefore]

theorem exportTo_free
    (hfree : ∀ name ∈ entities.keys, ∀ l, d'.locate (entityFilePath directory name) = some l →
      ∀ content, d.occupant l ≠ .file content) :
    written = entities ∧ ∀ e ∈ entities.entries, ∃ l,
      d'.locate (entityFilePath directory e.1) = some l ∧
        d'.occupant l = .file (some (fileText indent e.2)) := by
  have heffect := exportTo_effect hsegments hdistinct h
  have hdue : ∀ e ∈ entities.entries, ∀ l,
      d'.locate (entityFilePath directory e.1) = some l →
        due? force (d.stated? l) e.2 = some e.2 := by
    intro e he l hl
    have hnone : d.stated? l = none := by
      refine Option.eq_none_iff_forall_ne_some.mpr fun c hc => ?_
      obtain ⟨text, htext, -⟩ := stated?_eq_some.mp hc
      exact hfree e.1 (List.mem_map_of_mem he) l hl _ htext
    simp [hnone, due?, keepingDate]
  refine ⟨Table.ext_entries ?_, fun e he => ?_⟩
  · rw [(exportTo_answers hsegments hdistinct h).2]
    refine (List.filterMap_congr fun e he => ?_).trans List.filterMap_some
    obtain ⟨-, l, hl, -⟩ := heffect.places e he
    rw [hl, Option.bind_some, hdue e he l hl]
    rfl
  · obtain ⟨-, l, hl, hoccupant, -⟩ := heffect.places e he
    rw [hdue e he l hl] at hoccupant
    exact ⟨l, hl, hoccupant⟩

end Single

section Several
variable {d₁ : Disk} {directoryOf : String → String} {entities : Descriptors}
  {place : String → String → Location} {a : String} {applications : List String}

/-- From `d` on, `place` tells where the files of the applications lie: those of different
applications at different places, and nothing is there yet. -/
structure Layout (d : Disk) (directoryOf : String → String) (entities : Descriptors)
    (place : String → String → Location) (applications : List String) : Prop where
  tells : ∀ e, Grows d e → ∀ a ∈ applications, ∀ name ∈ entities.keys, ∀ l,
    e.locate (entityFilePath (directoryOf a) name) = some l → l = place a name
  apart : ∀ a ∈ applications, ∀ b ∈ applications, ∀ name ∈ entities.keys,
    ∀ other ∈ entities.keys, place a name = place b other → a = b
  free : ∀ a ∈ applications, ∀ name ∈ entities.keys, ∀ content,
    d.occupant (place a name) ≠ .file content

/-- What an export to applications leaves behind where `place` tells the files. -/
structure Dealt (d d' : Disk) (directoryOf : String → String) (indent : Nat)
    (entities : Descriptors) (place : String → String → Location) (applications : List String) :
    Prop where
  grows : Grows d d'
  places : ∀ a ∈ applications, ∀ e ∈ entities.entries, e.2.ownedBy a = true →
    d'.locate (entityFilePath (directoryOf a) e.1) = some (place a e.1) ∧
      d'.occupant (place a e.1) = .file (some (fileText indent e.2))
  untouched : ∀ l content,
    (∀ a ∈ applications, ∀ e ∈ entities.entries, e.2.ownedBy a = true → place a e.1 ≠ l) →
      (d'.occupant l = .file content ↔ d.occupant l = .file content)

theorem Layout.first (h : Layout d directoryOf entities place (a :: applications)) :
    Layout d directoryOf entities place [a] := by
  have hmem : ∀ b ∈ [a], b ∈ a :: applications := by simp
  exact ⟨fun e he b hb => h.tells e he b (hmem b hb),
    fun b hb c hc => h.apart b (hmem b hb) c (hmem c hc), fun b hb => h.free b (hmem b hb)⟩

private theorem Layout.between (h : Layout d directoryOf entities place (a :: applications))
    (ha : a ∉ applications) {b : String} (hb : b ∈ applications) {name other : String}
    (hname : name ∈ entities.keys) (hother : other ∈ entities.keys) :
    place a name ≠ place b other := by
  intro heq
  have hab := h.apart a List.mem_cons_self b (List.mem_cons_of_mem a hb) name hname other hother heq
  exact ha (hab ▸ hb)

theorem Layout.rest (h : Layout d directoryOf entities place (a :: applications))
    (ha : a ∉ applications) (hfirst : Dealt d d₁ directoryOf indent entities place [a]) :
    Layout d₁ directoryOf entities place applications := by
  have hmem : ∀ b ∈ applications, b ∈ a :: applications := fun b => List.mem_cons_of_mem a
  refine ⟨fun e he b hb => h.tells e (hfirst.grows.trans he) b (hmem b hb),
    fun b hb c hc => h.apart b (hmem b hb) c (hmem c hc), ?_⟩
  intro b hb name hname content hfile
  refine h.free b (hmem b hb) name hname content ((hfirst.untouched _ _ ?_).mp hfile)
  intro c hc e he _
  obtain rfl := List.mem_singleton.mp hc
  exact h.between ha hb (List.mem_map_of_mem he) hname

theorem Dealt.cons (h : Layout d directoryOf entities place (a :: applications))
    (ha : a ∉ applications) (hfirst : Dealt d d₁ directoryOf indent entities place [a])
    (hrest : Dealt d₁ d' directoryOf indent entities place applications) :
    Dealt d d' directoryOf indent entities place (a :: applications) := by
  refine ⟨hfirst.grows.trans hrest.grows, ?_, ?_⟩
  · intro b hb e he howned
    rcases List.mem_cons.mp hb with rfl | hb
    · obtain ⟨hl, hfile⟩ := hfirst.places b (List.mem_singleton.mpr rfl) e he howned
      refine ⟨locate_grown hrest.grows hl, (hrest.untouched _ _ ?_).mpr hfile⟩
      intro c hc x hx _ heq
      exact h.between ha hc (List.mem_map_of_mem he) (List.mem_map_of_mem hx) heq.symm
    · exact hrest.places b hb e he howned
  · intro l content hl
    rw [hrest.untouched l content fun b hb => hl b (List.mem_cons_of_mem a hb)]
    refine hfirst.untouched l content fun b hb => ?_
    exact hl b (List.mem_singleton.mp hb ▸ List.mem_cons_self)

variable (hsegments : ∀ name ∈ entities.keys, Path.IsSegment name)
  (hdistinct : (entities.keys.map upperFirst).Nodup)
include hsegments hdistinct

theorem exportTo_dealt {written : Descriptors}
    (hlayout : Layout d directoryOf entities place [a])
    (h : d.exportTo (directoryOf a) indent force (entities.filter fun _ e => e.ownedBy a) =
      (d', .ok written)) :
    written = (entities.filter fun _ e => e.ownedBy a) ∧
      Dealt d d' directoryOf indent entities place [a] := by
  have hentries : ∀ e, e ∈ (entities.filter fun _ e => e.ownedBy a).entries ↔
      e ∈ entities.entries ∧ e.2.ownedBy a = true := fun e => List.mem_filter
  have hkeys : ∀ name ∈ (entities.filter fun _ e => e.ownedBy a).keys, name ∈ entities.keys := by
    intro name hname
    obtain ⟨e, he⟩ := Table.mem_keys.mp hname
    exact Table.mem_keys.mpr ⟨e, ((hentries _).mp he).1⟩
  have hsegments₁ := fun name hname => hsegments name (hkeys name hname)
  have hdistinct₁ : ((entities.filter fun _ e => e.ownedBy a).keys.map upperFirst).Nodup :=
    hdistinct.sublist ((List.filter_sublist.map _).map _)
  have hgrows := (exportTo_answers hsegments₁ hdistinct₁ h).1
  have hmem := List.mem_singleton.mpr (rfl : a = a)
  have htells := fun name hname => hlayout.tells d' hgrows a hmem name (hkeys name hname)
  obtain ⟨hwritten, hfilled⟩ := exportTo_free hsegments₁ hdistinct₁ h fun name hname l hl =>
    htells name hname l hl ▸ hlayout.free a hmem name (hkeys name hname)
  refine ⟨hwritten, hgrows, ?_, ?_⟩
  · intro b hb e he howned
    obtain rfl := List.mem_singleton.mp hb
    have hown := (hentries e).mpr ⟨he, howned⟩
    obtain ⟨l, hl, hfile⟩ := hfilled e hown
    obtain rfl := htells e.1 (List.mem_map_of_mem hown) l hl
    exact ⟨hl, hfile⟩
  · intro l content hl
    refine (exportTo_effect hsegments₁ hdistinct₁ h).untouched l content fun name hname hthere => ?_
    obtain ⟨e, he⟩ := Table.mem_keys.mp hname
    obtain ⟨he, howned⟩ := (hentries _).mp he
    exact hl a hmem _ he howned (htells name hname l hthere).symm

/-- Each application in turn receives what it owns. -/
theorem exportEach_dealt {done written : Table String Descriptors}
    (happlications : applications.Nodup)
    (hnew : ∀ a ∈ applications, a ∉ done.keys)
    (hlayout : Layout d directoryOf entities place applications)
    (h : exportEach directoryOf indent force entities applications d done = (d', .ok written)) :
    written.entries = done.entries ++
        applications.map (fun a => (a, entities.filter fun _ e => e.ownedBy a)) ∧
      Dealt d d' directoryOf indent entities place applications := by
  induction applications generalizing d done with
  | nil =>
    obtain ⟨rfl, rfl⟩ : d = d' ∧ done = written := by simpa [exportEach] using h
    exact ⟨by simp, fun _ => id, by simp, fun _ _ _ => Iff.rfl⟩
  | cons a rest ih =>
    obtain ⟨ha, hrest⟩ := List.nodup_cons.mp happlications
    obtain ⟨hfresh, hnew⟩ := List.forall_mem_cons.mp hnew
    rw [exportEach] at h
    split at h
    · simp at h
    next d₁ own hstep =>
    obtain ⟨rfl, hfirst⟩ := exportTo_dealt hsegments hdistinct hlayout.first hstep
    have hnew₁ : ∀ b ∈ rest,
        b ∉ (done.insert a (entities.filter fun _ e => e.ownedBy a)).keys := by
      intro b hb hheld
      rcases Table.mem_keys_insert.mp hheld with rfl | hheld
      · exact ha hb
      · exact hnew b hb hheld
    obtain ⟨hwritten, hdealt⟩ := ih hrest hnew₁ (hlayout.rest ha hfirst) h
    refine ⟨?_, hfirst.cons hlayout ha hdealt⟩
    rw [hwritten, Table.entries_insert_of_notMem _ hfresh]
    simp

end Several

end Disk

/-- The place lies within another, or is that place itself. -/
def Location.Below (l r : Location) : Prop := ∃ names, l = ⟨r.anchor, r.names ++ names⟩

namespace ExportPlan

/-- The directory of one of so many applications: a single one uses the plain directory. -/
def directoryFor (p : ExportPlan) (count : Nat) (application : String) : String :=
  if count = 1 then p.entityPath else p.applicationPath application

/-- The place of the file of an entity, for a root at `r`. -/
private def placeFor (p : ExportPlan) (count : Nat) (r : Location) (application entity : String) :
    Location :=
  ⟨r.anchor, r.names ++ ((if count = 1 then [] else [application]) ++
    (Path.properNames p.directory ++ [entityFile entity]))⟩

variable {p : ExportPlan} {count : Nat} {r : Location} {application entity : String}

private theorem placeFor_below : (p.placeFor count r application entity).Below r :=
  ⟨_, rfl⟩

private theorem placeFor_inj {other otherEntity : String}
    (h : p.placeFor count r application entity = p.placeFor count r other otherEntity) :
    (count ≠ 1 → application = other) ∧ upperFirst entity = upperFirst otherEntity := by
  have hnames := List.append_cancel_left (Location.mk.inj h).2
  obtain ⟨hfirst, hrest⟩ := List.append_inj hnames (by split <;> rfl)
  obtain ⟨-, hlast⟩ := List.append_inj' hrest rfl
  refine ⟨fun hcount => ?_, entityFile_inj (List.cons.inj hlast).1⟩
  simpa [hcount] using hfirst

private theorem locate_directoryFor {d : Disk} {l : Location}
    (hdirectory : Path.Descends p.directory)
    (hplain : Path.IsPlain application) (hentity : Path.IsSegment entity)
    (hroot : d.reach? p.root = some r)
    (hl : d.locate (entityFilePath (p.directoryFor count application) entity) = some l) :
    l = p.placeFor count r application entity := by
  have hfile := Path.entityFile_isPlain hentity
  obtain ⟨here, hhere, rfl⟩ :=
    Disk.reach?_join_descends hfile.descends (Disk.reach?_of_locate hl)
  rw [hfile.properNames]
  unfold directoryFor at hhere
  split at hhere
  · next hcount =>
    obtain ⟨base, hbase, rfl⟩ := Disk.reach?_join_descends hdirectory hhere
    obtain rfl := Option.some.inj (hbase.symm.trans hroot)
    simp [placeFor, hcount]
  · next hcount =>
    obtain ⟨base, hbase, rfl⟩ := Disk.reach?_join_descends hdirectory hhere
    obtain ⟨start, hstart, rfl⟩ := Disk.reach?_join_descends hplain.descends hbase
    obtain rfl := Option.some.inj (hstart.symm.trans hroot)
    simp [placeFor, hcount, hplain.properNames]

end ExportPlan

namespace Disk
variable {d d' : Disk} {force : Bool}

theorem exportApplications_eq {plan : ExportPlan} {entities : Descriptors}
    {applications : List Application} (h : applications ≠ []) :
    d.exportApplications plan force entities applications =
      exportEach (plan.directoryFor applications.length) plan.indent force entities
        (applications.map fun a => a.baseName?.getD "") d ∅ := by
  unfold exportApplications
  match applications with
  | [] => exact absurd rfl h
  | [a] => rfl
  | a :: b :: rest =>
    have hcount : plan.directoryFor (a :: b :: rest).length = plan.applicationPath := by
      funext name
      simp [ExportPlan.directoryFor]
    rw [hcount]
    rfl

end Disk

namespace Model
variable {m : Model} {d d' : Disk} {force : Bool} {plan : ExportPlan} {r : Location} {start : Int}

/-- The application of this name names the entity, which the model holds. -/
def Owns (m : Model) (application entity : String) : Prop :=
  entity ∈ m.entities.keys ∧
    ∃ a, (application, a) ∈ m.applications.entries ∧ entity ∈ a.entityNames

/-- The path of the file of an entity in the directory of an application. -/
def filePath (m : Model) (plan : ExportPlan) (application entity : String) : String :=
  entityFilePath (plan.directoryFor m.applications.size application) entity

/-- Below the root at `r`, each application has received exactly the entities that it owns. -/
structure Delivered (m : Model) (plan : ExportPlan) (r : Location) (descriptors : Descriptors)
    (d d' : Disk) (written : Table String Descriptors) : Prop where
  /-- An owned entity has a file, which states its descriptor. -/
  files : ∀ application entity descriptor, m.Owns application entity →
    (entity, descriptor) ∈ descriptors.entries → ∃ l, l.Below r ∧
      d'.locate (m.filePath plan application entity) = some l ∧
      d'.occupant l = .file (some (Disk.fileText plan.indent descriptor))
  /-- No file is that of two entities or applications. -/
  apart : ∀ application entity other otherEntity l, m.Owns application entity →
    m.Owns other otherEntity → d'.locate (m.filePath plan application entity) = some l →
    d'.locate (m.filePath plan other otherEntity) = some l →
    application = other ∧ entity = otherEntity
  /-- There is no other file. -/
  only : ∀ l content, l.Below r → d'.occupant l = .file content → ∃ application entity,
    m.Owns application entity ∧ d'.locate (m.filePath plan application entity) = some l
  outside : ∀ l content, ¬ l.Below r →
    (d'.occupant l = .file content ↔ d.occupant l = .file content)
  answers : written.entries = m.applications.entries.map fun x =>
    (x.1, descriptors.filter fun entity _ => x.2.entityNames.contains entity)

private theorem ownedBy_iff (hm : m.Reachable) {application : String}
    (happlication : application ∈ m.applications.keys) {e : String × EntityDescriptor}
    (he : e ∈ (m.toDescriptors start).entries) :
    e.2.ownedBy application = true ↔ m.Owns application e.1 := by
  obtain ⟨a, ha⟩ := Table.mem_keys.mp happlication
  obtain ⟨entity, date, hentity, hdescriptor⟩ := mem_toDescriptors hm.wellFormed he
  rw [hdescriptor, ownedBy_describe hm ha, (hm.wellFormed.entities _ entity hentity).1]
  constructor
  · intro howned
    exact ⟨List.mem_map_of_mem hentity, a, ha, of_decide_eq_true howned⟩
  · rintro ⟨-, b, hb, howned⟩
    have hsame := (Table.find?_eq_some_iff.mpr hb).symm.trans (Table.find?_eq_some_iff.mpr ha)
    exact decide_eq_true (Option.some.inj hsame ▸ howned)

private theorem names_of_values (hm : m.Reachable) :
    (m.applications.values.map fun a => a.baseName?.getD "") = m.applications.keys := by
  rw [Table.values, List.map_map]
  exact List.map_congr_left fun x hx => by simp [(hm.filed.applications x.1 x.2 hx).1]

private theorem layout_applications
    (hnames : ∀ name ∈ m.applications.keys, Path.IsPlain name) {descriptors : Descriptors}
    (hsegments : ∀ name ∈ descriptors.keys, Path.IsSegment name)
    (hdirectory : Path.Descends plan.directory) (hroot : d.reach? plan.root = some r)
    (hempty : ∀ l content, l.Below r → d.occupant l ≠ .file content) :
    Disk.Layout d (plan.directoryFor m.applications.size) descriptors
      (plan.placeFor m.applications.size r) m.applications.keys := by
  refine ⟨?_, ?_, fun _ _ _ _ content => hempty _ content ExportPlan.placeFor_below⟩
  · intro e he application happlication entity hentity l hl
    exact ExportPlan.locate_directoryFor hdirectory (hnames application happlication)
      (hsegments entity hentity) (Disk.reach?_grown he hroot) hl
  · intro a ha b hb entity _ other _ heq
    by_cases hcount : m.applications.size = 1
    · obtain ⟨x, hx⟩ := List.length_eq_one_iff.mp hcount
      rw [Table.keys, hx] at ha hb
      exact (List.mem_singleton.mp ha).trans (List.mem_singleton.mp hb).symm
    · exact (ExportPlan.placeFor_inj heq).1 hcount

/-- An export for the applications of a model into an empty root gives each of them exactly the
entities that it owns. -/
theorem exportApplications_delivered (hm : m.Reachable) (hsome : m.applications ≠ ∅)
    (hnames : ∀ name ∈ m.applications.keys, Path.IsPlain name)
    (hsegments : ∀ name ∈ m.entities.keys, Path.IsSegment name)
    (hdistinct : (m.entities.keys.map upperFirst).Nodup)
    (hdirectory : Path.Descends plan.directory) (hroot : d.reach? plan.root = some r)
    (hempty : ∀ l content, l.Below r → d.occupant l ≠ .file content)
    {written : Table String Descriptors}
    (h : d.exportApplications plan force (m.toDescriptors start) m.applications.values =
      (d', .ok written)) :
    m.Delivered plan r (m.toDescriptors start) d d' written := by
  have hkeys := keys_toDescriptors hm.wellFormed start
  have hvalues : m.applications.values ≠ [] := by
    intro hnil
    exact hsome (Table.ext_entries (List.map_eq_nil_iff.mp hnil))
  have hcount : m.applications.values.length = m.applications.size := List.length_map _
  rw [Disk.exportApplications_eq hvalues, names_of_values hm, hcount] at h
  have hlayout := layout_applications hnames (hkeys ▸ hsegments) hdirectory hroot hempty
  obtain ⟨hwritten, hdealt⟩ := Disk.exportEach_dealt (hkeys ▸ hsegments) (hkeys ▸ hdistinct)
    m.applications.distinct (by simp) hlayout h
  have hnamed : ∀ application entity, m.Owns application entity →
      application ∈ m.applications.keys := by
    rintro application entity ⟨-, a, ha, -⟩
    exact Table.mem_keys.mpr ⟨a, ha⟩
  have hfile : ∀ application entity descriptor, m.Owns application entity →
      (entity, descriptor) ∈ (m.toDescriptors start).entries →
      d'.locate (m.filePath plan application entity) =
          some (plan.placeFor m.applications.size r application entity) ∧
        d'.occupant (plan.placeFor m.applications.size r application entity) =
          .file (some (Disk.fileText plan.indent descriptor)) := by
    intro application entity descriptor howns hdescriptor
    have happlication := hnamed application entity howns
    have howned := (ownedBy_iff hm happlication hdescriptor).mpr howns
    exact hdealt.places application happlication (entity, descriptor) hdescriptor howned
  have hplace : ∀ application entity, m.Owns application entity →
      d'.locate (m.filePath plan application entity) =
        some (plan.placeFor m.applications.size r application entity) := by
    intro application entity howns
    obtain ⟨descriptor, hdescriptor⟩ := Table.mem_keys.mp (hkeys ▸ howns.1)
    exact (hfile application entity descriptor howns hdescriptor).1
  refine ⟨?_, ?_, ?_, ?_, ?_⟩
  · intro application entity descriptor howns hdescriptor
    exact ⟨_, ExportPlan.placeFor_below, hfile application entity descriptor howns hdescriptor⟩
  · intro application entity other otherEntity l howns hother hl hl'
    have heq : plan.placeFor m.applications.size r application entity =
        plan.placeFor m.applications.size r other otherEntity := by
      apply Option.some.inj
      rw [← hplace application entity howns, ← hplace other otherEntity hother, hl, hl']
    have hdescribed : ∀ name ∈ m.entities.keys, name ∈ (m.toDescriptors start).keys :=
      fun name hname => by rwa [hkeys]
    exact ⟨hlayout.apart application (hnamed _ _ howns) other (hnamed _ _ hother) entity
      (hdescribed _ howns.1) otherEntity (hdescribed _ hother.1) heq,
      List.inj_on_of_nodup_map hdistinct howns.1 hother.1 (ExportPlan.placeFor_inj heq).2⟩
  · intro l content hbelow hthere
    by_contra hnone
    refine hempty l content hbelow ((hdealt.untouched l content ?_).mp hthere)
    intro application happlication e he howned heq
    have howns := (ownedBy_iff hm happlication he).mp howned
    exact hnone ⟨application, e.1, howns, heq ▸ hplace application e.1 howns⟩
  · intro l content houtside
    refine hdealt.untouched l content fun application happlication e he _ heq => ?_
    exact houtside (heq ▸ ExportPlan.placeFor_below)
  · simp only [hwritten, Table.entries_empty, List.nil_append, List.map_map]
    exact List.map_congr_left fun x hx => by simp [filter_ownedBy hm hx]

def front : Application :=
  (Application.new ⟨"secret", "key"⟩ (Table.ofList [("baseName", .text "front")])).addEntityNames
    ["Region", "Country", "Ghost"]

def geo : Application :=
  (Application.new ⟨"secret", "key"⟩ (Table.ofList [("baseName", .text "geo")])).addEntityNames
    ["Region"]

/-- Two applications that share an entity; one names an entity that there is not, and no application
owns the last entity. -/
def atlas : Model :=
  { (∅ : Model) with
    applications := (∅ : Table String Application).insertAll
      ([front, geo].map fun a => (a.baseName?.getD "", a))
    entities := (∅ : Table String Entity).insertAll
      (["Region", "Country", "Town"].map fun name => (name, .named name)) }

private theorem atlas_reachable : atlas.Reachable := by
  have hfront : Reachable _ := .application .empty
    (addApplication_eq_ok.mpr ⟨(by decide +kernel : front.problems = []), rfl⟩)
  have hgeo : Reachable _ := .application hfront
    (addApplication_eq_ok.mpr ⟨(by decide +kernel : geo.problems = []), rfl⟩)
  have hregion : Reachable _ := .entity hgeo
    (addEntity_eq_ok.mpr ⟨(by decide : (Entity.named "Region").problems = []), rfl⟩)
  have hcountry : Reachable _ := .entity hregion
    (addEntity_eq_ok.mpr ⟨(by decide : (Entity.named "Country").problems = []), rfl⟩)
  exact .entity hcountry
    (addEntity_eq_ok.mpr ⟨(by decide : (Entity.named "Town").problems = []), rfl⟩)

private theorem occupant_empty (l : Location) (content : Option String) :
    (∅ : Disk).occupant l ≠ .file content := by
  obtain ⟨anchor, names⟩ := l
  cases names with
  | nil => exact Occupant.noConfusion
  | cons name rest => exact Occupant.noConfusion

theorem atlas_delivered : ∃ d' written,
    (∅ : Disk).exportApplications .standard true (atlas.toDescriptors 0) atlas.applications.values =
      (d', .ok written) ∧
    written.entries.map (fun x => (x.1, x.2.keys)) =
      [("front", ["Region", "Country"]), ("geo", ["Region"])] ∧
    atlas.Delivered .standard ⟨.above 0, []⟩ (atlas.toDescriptors 0) ∅ d' written := by
  have hrun : ((∅ : Disk).exportApplications .standard true (atlas.toDescriptors 0)
      atlas.applications.values).2.toOption.map (fun w => w.entries.map fun x => (x.1, x.2.keys)) =
        some [("front", ["Region", "Country"]), ("geo", ["Region"])] := by decide +kernel
  generalize hresult : (∅ : Disk).exportApplications .standard true (atlas.toDescriptors 0)
    atlas.applications.values = result at hrun ⊢
  obtain ⟨d', outcome⟩ := result
  cases outcome with
  | error f => simp [Except.toOption] at hrun
  | ok written =>
    refine ⟨d', written, rfl, by simpa [Except.toOption] using hrun, ?_⟩
    exact exportApplications_delivered atlas_reachable (by decide +kernel) (by decide +kernel)
      (by decide +kernel) (by decide +kernel) (by decide +kernel) (by decide +kernel)
      (fun l content _ => occupant_empty l content) hresult

end Model
end DomainModel
