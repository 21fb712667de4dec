import DomainModel.Proofs.Disk.Export
/-!
# Changelog dates stay on disk

Every step of an export keeps the readable files and their changelog dates: making directories
touches no file, and a file is written again only after it was read, with the date it had. So a
date stays through any run of exports, also where entities share a file.
-/
namespace DomainModel

namespace Path

private theorem getLast?_piecesBetween {sep c : Char} {cs : List Char} (hc : c ≠ sep)
    (hlast : cs.getLast? = some c) :
    ∃ piece, (piecesBetween sep cs).getLast? = some piece ∧ piece.getLast? = some c := by
  induction cs with
  | nil => simp at hlast
  | cons d rest ih =>
    cases rest with
    | nil =>
      have hd : d = c := by simpa using hlast
      exact ⟨[c], by simp [piecesBetween, hd, hc], rfl⟩
    | cons e others =>
      obtain ⟨piece, hpiece, hend⟩ := ih (by simpa using hlast)
      by_cases hd : d = sep
      · rw [piecesBetween, if_pos hd]
        exact ⟨piece, by rw [List.getLast?_cons, hpiece]; rfl, hend⟩
      · cases hpieces : piecesBetween sep (e :: others) with
        | nil => simp [hpieces] at hpiece
        | cons first pieces =>
          rw [hpieces] at hpiece
          rw [piecesBetween, if_neg hd, hpieces]
          cases pieces with
          | nil =>
            obtain rfl : first = piece := by simpa using hpiece
            exact ⟨d :: first, rfl, by simp [List.getLast?_cons, hend]⟩
          | cons second pieces => exact ⟨piece, by simpa using hpiece, hend⟩

private theorem getLast?_join (directory : String) {part : String} {c : Char}
    (hlast : part.toList.getLast? = some c) : (join directory part).toList.getLast? = some c := by
  unfold join
  split
  · exact hlast
  · split <;> simp [List.getLast?_append, List.getLast?_cons, hlast]

theorem fileName?_of_segments {path last : String} {before : List String}
    (hsegments : segments path = before ++ [last]) (hidle : isIdle last = false) :
    fileName? path = if last = ".." then none else some last := by
  have hlast : ((segments path).filter fun s => !isIdle s).getLast? = some last := by
    rw [hsegments, List.filter_append, List.filter_cons_of_pos (by simp [hidle])]
    simp
  rw [fileName?, hlast]

theorem exists_fileName?_entityFilePath (directory entity : String) :
    ∃ name, fileName? (entityFilePath directory entity) = some name := by
  have hlast : (entityFilePath directory entity).toList.getLast? = some 'n' :=
    getLast?_join directory (by simp [entityFile])
  have hn : 'n' ≠ separator := by decide
  obtain ⟨piece, hpiece, hend⟩ := getLast?_piecesBetween hn hlast
  obtain ⟨before, hbefore⟩ := List.getLast?_eq_some_iff.mp hpiece
  have hne : ∀ s : String, s.toList.getLast? ≠ some 'n' → String.ofList piece ≠ s := by
    intro s hs heq
    rw [← heq, String.toList_ofList] at hs
    exact hs hend
  have hsegments : segments (entityFilePath directory entity) =
      before.map String.ofList ++ [String.ofList piece] := by
    simp [segments, hbefore]
  have hidle : isIdle (String.ofList piece) = false := by
    simp [isIdle, hne "" (by decide), hne "." (by decide)]
  exact ⟨_, (fileName?_of_segments hsegments hidle).trans (if_neg (hne ".." (by decide)))⟩

end Path

namespace Disk
variable {d d' : Disk} {l : Location} {directory : String} {indent : Nat} {force : Bool}

section Places
variable {content : Option String}

/-- A file lies under the name of every path that leads to it. -/
theorem names_of_file {path name : String} (hl : d.locate path = some l)
    (hfile : d.occupant l = .file content) (hname : Path.fileName? path = some name) :
    ∃ before, l.names = before ++ [name] := by
  rcases List.eq_nil_or_concat (Path.segments path) with hnil | ⟨before, last, hsegments⟩
  · simp [Path.fileName?, hnil] at hname
  · rw [List.concat_eq_append] at hsegments
    cases hidle : Path.isIdle last with
    | true =>
      -- a path that ends in place leads to a directory
      unfold locate at hl
      split at hl
      · rw [hsegments, walk_append] at hl
        obtain ⟨here, -, hlast⟩ := Option.bind_eq_some_iff.mp hl
        simp only [walk, Location.follow, hidle, if_true] at hlast
        split at hlast
        · next hdirectory =>
          obtain rfl := Option.some.inj hlast
          rw [isDirectoryAt_iff, hfile] at hdirectory
          simp at hdirectory
        · simp at hlast
      · simp at hl
    | false =>
      rw [Path.fileName?_of_segments hsegments hidle] at hname
      split at hname
      · simp at hname
      · next hparent =>
        obtain rfl := Option.some.inj hname
        obtain ⟨here, -, rfl⟩ := locate_eq_some hsegments hidle hparent hl
        exact ⟨here.names, rfl⟩

theorem extension?_eq_of_file {path path' name name' : String} (hl : d.locate path = some l)
    (hl' : d.locate path' = some l) (hfile : d.occupant l = .file content)
    (hname : Path.fileName? path = some name) (hname' : Path.fileName? path' = some name') :
    Path.extension? path = Path.extension? path' := by
  obtain ⟨before, hbefore⟩ := names_of_file hl hfile hname
  obtain ⟨before', hbefore'⟩ := names_of_file hl' hfile hname'
  obtain ⟨-, hlast⟩ := List.append_inj' (hbefore.symm.trans hbefore') rfl
  obtain ⟨rfl, -⟩ := List.cons.inj hlast
  rw [Path.extension?, Path.extension?, hname, hname']

theorem current?_of_readEntity {path entity : String} {c : EntityDescriptor}
    (hread : d.readEntity path = .ok c) (hl : d.locate path = some l)
    (hentity : d.locate (entityFilePath directory entity) = some l) :
    d.current? (entityFilePath directory entity) = some c := by
  obtain ⟨-, hjson, k, text, hk, htext, hparse⟩ := readEntity_eq_ok.mp hread
  obtain rfl := Option.some.inj (hk.symm.trans hl)
  obtain ⟨name, hname⟩ := Path.exists_fileName?_entityFilePath directory entity
  obtain ⟨name', hname', -⟩ := Option.bind_eq_some_iff.mp hjson
  have hext := (extension?_eq_of_file hentity hl htext hname hname').trans hjson
  have hpath : entityFilePath directory entity ≠ "" := by
    intro hempty
    rw [hempty] at hext
    exact absurd hext (by decide)
  exact current?_eq_some.mpr (readEntity_eq_ok.mpr ⟨hpath, hext, k, text, hentity, htext, hparse⟩)

end Places

section Growth

theorem walk_grown (h : ∀ k, d.occupant k = .directory → d'.occupant k = .directory)
    {here : Location} {segments : List String} (hwalk : d.walk here segments = some l) :
    d'.walk here segments = some l := by
  induction segments generalizing here with
  | nil => exact hwalk
  | cons segment rest ih =>
    rw [walk] at hwalk ⊢
    split at hwalk
    · next hhere =>
      rw [if_pos (isDirectoryAt_iff.mpr (h here (isDirectoryAt_iff.mp hhere)))]
      exact ih hwalk
    · simp at hwalk

theorem locate_grown (h : ∀ k, d.occupant k = .directory → d'.occupant k = .directory)
    {path : String} (hl : d.locate path = some l) : d'.locate path = some l := by
  unfold locate at hl ⊢
  split at hl
  · next husable =>
    rw [if_pos husable]
    exact walk_grown h hl
  · simp at hl

end Growth

/-- Every file that reads as a descriptor with a changelog date goes on doing so, with this date. -/
def DatesKept (d d' : Disk) : Prop :=
  ∀ path c date, d.readEntity path = .ok c → c.changelogDate = some date →
    ∃ c', d'.readEntity path = .ok c' ∧ c'.changelogDate = some date

namespace DatesKept

theorem refl (d : Disk) : DatesKept d d :=
  fun _ c _ hread hdate => ⟨c, hread, hdate⟩

theorem trans {d'' : Disk} (h : DatesKept d d') (h' : DatesKept d' d'') : DatesKept d d'' := by
  intro path c date hread hdate
  obtain ⟨c', hread', hdate'⟩ := h path c date hread hdate
  exact h' path c' date hread' hdate'

end DatesKept

theorem Extends.datesKept (h : d.Extends d') : DatesKept d d' := by
  intro path c date hread hdate
  obtain ⟨hpath, hjson, l, text, hl, htext, hparse⟩ := readEntity_eq_ok.mp hread
  have hkept := (h.files l _).mpr htext
  exact ⟨c, readEntity_eq_ok.mpr ⟨hpath, hjson, l, text, locate_grown h.directories hl, hkept,
    hparse⟩, hdate⟩

/-- The export of one entity keeps the dates on disk, whatever file it leads to. -/
theorem exportEntity_datesKept {entity : String} {descriptor : EntityDescriptor}
    {answer : Option EntityDescriptor} (hback : ReadsBack indent descriptor)
    (h : d.exportEntity directory indent force entity descriptor = .ok (d', answer)) :
    DatesKept d d' := by
  obtain ⟨-, l, hl, hfree, hanswer, hoccupant⟩ := exportEntity_effect h
  have hsame : SameDirectories d d' := by
    refine SameDirectories.of_update hfree ?_ hoccupant
    cases answer <;> simp [afterwards, hfree]
  intro path c date hread hdate
  obtain ⟨hpath, hjson, k, text, hk, htext, hparse⟩ := readEntity_eq_ok.mp hread
  have hk' : d'.locate path = some k := locate_congr hsame path ▸ hk
  have hthere := hoccupant k
  by_cases hplace : k = l
  · subst hplace
    rw [if_pos rfl] at hthere
    cases answer with
    | none =>
      exact ⟨c, readEntity_eq_ok.mpr ⟨hpath, hjson, k, text, hk', hthere.trans htext, hparse⟩,
        hdate⟩
    | some written =>
      -- the file was read before it was written, so its date was carried over
      have hcurrent := current?_of_readEntity hread hk hl
      have hdated : written = descriptor.dated (some date) := by
        rw [due?_eq_some hanswer.symm, hcurrent, keepingDate, Option.bind_some, hdate]
        rfl
      subst hdated
      exact ⟨_, readEntity_eq_ok.mpr ⟨hpath, hjson, k, _, hk', hthere, hback (some date)⟩, rfl⟩
  · rw [if_neg hplace] at hthere
    exact ⟨c, readEntity_eq_ok.mpr ⟨hpath, hjson, k, text, hk', hthere.trans htext, hparse⟩, hdate⟩

theorem exportAll_datesKept {entities : List (String × EntityDescriptor)}
    {written written' : Descriptors} (hback : ∀ e ∈ entities, ReadsBack indent e.2)
    (h : exportAll directory indent force entities d written = (d', .ok written')) :
    DatesKept d d' := by
  induction entities generalizing d written with
  | nil =>
    obtain ⟨rfl, -⟩ : d = d' ∧ written = written' := by simpa [exportAll] using h
    exact .refl d
  | cons first rest ih =>
    obtain ⟨hfirst, hrest⟩ := List.forall_mem_cons.mp hback
    obtain ⟨d₁, answer, hstep, hrun⟩ := exportAll_cons h
    exact (exportEntity_datesKept hfirst hstep).trans (ih hrest hrun)

theorem exportTo_datesKept {entities written : Descriptors}
    (hback : ∀ e ∈ entities.entries, ReadsBack indent e.2)
    (h : d.exportTo directory indent force entities = (d', .ok written)) : DatesKept d d' := by
  unfold exportTo at h
  split at h
  · simp at h
  · split at h
    · simp at h
    · next d₁ hmade =>
      obtain ⟨hextends, -, -⟩ := createDirectories_spec hmade
      exact hextends.datesKept.trans (exportAll_datesKept hback h)

theorem exportEach_datesKept {directoryOf : String → String} {entities : Descriptors}
    {applications : List String} {done written : Table String Descriptors}
    (hback : ∀ e ∈ entities.entries, ReadsBack indent e.2)
    (h : exportEach directoryOf indent force entities applications d done = (d', .ok written)) :
    DatesKept d d' := by
  induction applications generalizing d done with
  | nil =>
    obtain ⟨rfl, -⟩ : d = d' ∧ done = written := by simpa [exportEach] using h
    exact .refl d
  | cons application rest ih =>
    rw [exportEach] at h
    split at h
    · simp at h
    · next d₁ own hstep =>
      have hown : DatesKept d d₁ :=
        exportTo_datesKept (fun e he => hback e (List.mem_filter.mp he).1) hstep
      exact hown.trans (ih h)

/-- For whom an export is made. -/
inductive Receiver where
  | everyone
  | application (name : String) (type : ApplicationType)
  | applications (list : List Application)

structure ExportCall where
  plan : ExportPlan
  force : Bool
  receiver : Receiver
  entities : Descriptors

namespace ExportCall

private def diskIfOk {α : Type} : Disk × Outcome α → Option Disk
  | (d, .ok _) => some d
  | (_, .error _) => none

/-- The disk after the call, if the call succeeds. -/
def perform? (call : ExportCall) (d : Disk) : Option Disk :=
  match call.receiver with
  | .everyone => diskIfOk (d.exportEntities call.plan call.force call.entities)
  | .application name type => diskIfOk (d.exportFor call.plan call.force name type call.entities)
  | .applications list => diskIfOk (d.exportApplications call.plan call.force call.entities list)

/-- The disk after calls in turn, if all of them succeed. -/
def performAll? (calls : List ExportCall) (d : Disk) : Option Disk :=
  calls.foldlM (fun d call => call.perform? d) d

/-- No other key of a descriptor repeats a known one, and texts of descriptors are read back. -/
def Faithful (call : ExportCall) : Prop :=
  ∀ e ∈ call.entities.entries, e.2.Clean ∧ ∀ date,
    Json.parse (fileText call.plan.indent (e.2.dated date)) = some (e.2.dated date).toJson

private theorem diskIfOk_eq_some {α : Type} {x : Disk × Outcome α} :
    diskIfOk x = some d ↔ ∃ a, x = (d, .ok a) := by
  obtain ⟨e, _ | a⟩ := x <;> simp [diskIfOk]

theorem perform?_datesKept {call : ExportCall} (hfaithful : call.Faithful)
    (h : call.perform? d = some d') : DatesKept d d' := by
  obtain ⟨plan, force, receiver, entities⟩ := call
  have hback : ∀ e ∈ entities.entries, ReadsBack plan.indent e.2 :=
    fun e he => readsBack_of_clean (hfaithful e he).1 (hfaithful e he).2
  cases receiver with
  | everyone =>
    obtain ⟨written, h⟩ := diskIfOk_eq_some.mp h
    exact exportTo_datesKept hback h
  | application name type =>
    obtain ⟨written, h⟩ := diskIfOk_eq_some.mp h
    unfold exportFor at h
    split at h
    · exact exportTo_datesKept (fun e he => hback e (List.mem_filter.mp he).1) h
    · exact exportTo_datesKept hback h
  | applications list =>
    obtain ⟨written, h⟩ := diskIfOk_eq_some.mp h
    unfold exportApplications at h
    dsimp only at h
    split at h
    · simp at h
    · exact exportEach_datesKept hback h
    · exact exportEach_datesKept hback h

end ExportCall

/-- A changelog date that a file has once states stays through every run of successful exports. -/
theorem changelogDate_permanent {calls : List ExportCall}
    (hfaithful : ∀ call ∈ calls, call.Faithful)
    (h : ExportCall.performAll? calls d = some d') : DatesKept d d' := by
  induction calls generalizing d with
  | nil =>
    obtain rfl : d = d' := by simpa [ExportCall.performAll?] using h
    exact .refl d
  | cons call rest ih =>
    obtain ⟨hfirst, hrest⟩ := List.forall_mem_cons.mp hfaithful
    obtain ⟨d₁, hstep, hrun⟩ := Option.bind_eq_some_iff.mp h
    exact (ExportCall.perform?_datesKept hfirst hstep).trans (ih hrest hrun)

/-- Two entities with one file and dates of their own, forced. -/
def namesakes : ExportCall :=
  ⟨.standard, true, .everyone, Table.ofList
    [("book", EntityDescriptor.empty.dated (some "20210101000000")),
      ("Book", EntityDescriptor.empty.dated (some "20210101000001"))]⟩

/-- The books of a store, its only application. -/
def stock : ExportCall :=
  ⟨.standard, false,
    .applications [.new ⟨"", ""⟩ (Table.ofList [("baseName", .text "store")])],
    Table.ofList [("Book", { EntityDescriptor.empty with comment := some "for sale" })]⟩

theorem changelogDate_shelf : ∃ d' c, ExportCall.performAll? [namesakes, stock] shelf = some d' ∧
    (∀ call ∈ [namesakes, stock], call.Faithful) ∧
    d'.readEntity (entityFilePath ExportPlan.standard.entityPath "Book") = .ok c ∧
    c.changelogDate = some "20200101000000" := by
  have hplain : ∀ call ∈ [namesakes, stock], ∀ e ∈ call.entities.entries,
      e.2.fields = [] ∧ e.2.relationships = [] ∧ e.2.extra = ∅ := by decide +kernel
  have hfaithful : ∀ call ∈ [namesakes, stock], call.Faithful := by
    intro call hcall e he
    obtain ⟨hfields, hrelationships, hextra⟩ := hplain call hcall e he
    obtain ⟨hclean, hprintable⟩ :=
      EntityDescriptor.clean_printable_of_bare hfields hrelationships hextra
    exact ⟨hclean, fun date => parse_fileText hprintable date⟩
  have hrun : (ExportCall.performAll? [namesakes, stock] shelf).isSome = true := by decide +kernel
  obtain ⟨d', hd'⟩ := Option.isSome_iff_exists.mp hrun
  obtain ⟨hclean, hprintable⟩ :=
    EntityDescriptor.clean_printable_of_bare (d := EntityDescriptor.empty) rfl rfl rfl
  have hbook : ReadsBack 4 EntityDescriptor.empty :=
    readsBack_of_clean hclean fun date => parse_fileText hprintable date
  have hread : shelf.readEntity (entityFilePath ExportPlan.standard.entityPath "Book") =
      .ok (EntityDescriptor.empty.dated (some "20200101000000")) :=
    readEntity_eq_ok.mpr ⟨by decide +kernel, by decide +kernel,
      ⟨.above 0, [entityDirectory, "Book.json"]⟩, _, by decide +kernel, rfl, hbook _⟩
  obtain ⟨c, hc, hdate⟩ := changelogDate_permanent hfaithful hd' _ _ _ hread rfl
  exact ⟨d', c, hd', hfaithful, hc, hdate⟩

end Disk
end DomainModel
