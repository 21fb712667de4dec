import DomainModel.Proofs.Descriptors.Conversion
import DomainModel.Proofs.Disk.Export
/-!
# Exporting the descriptors of a model

The descriptors of a well-formed model are read back from their text if the values of validations
can be printed. An export then states the options of the model, except that a file which is left
alone keeps the options by which descriptors are not compared.
-/
namespace DomainModel
namespace Model

/-- The value of each validation has every key once and can be printed within a descriptor. -/
def Printable (m : Model) : Prop :=
  ∀ e ∈ m.entities.values, ∀ f ∈ e.fields.values, ∀ v ∈ f.validations.values, ∀ value,
    v.value = some value → value.canonical = value ∧ value.Printable 124

theorem mem_extra_describeField {m : Model} {f : Field} {e : String × Json}
    (h : e ∈ (m.describeField f).extra.entries) : ∃ v ∈ f.validations.values,
      v.value = some e.2 ∧ e.1 = ValidationName.descriptorKey v.name := by
  have hfold : ∀ (validations : List Validation) (d : FieldDescriptor),
      e ∈ (validations.foldl describeValidation d).extra.entries →
      e ∈ d.extra.entries ∨ ∃ v ∈ validations,
        v.value = some e.2 ∧ e.1 = ValidationName.descriptorKey v.name := by
    intro validations
    induction validations with
    | nil => exact fun _ he => .inl he
    | cons v rest ih =>
      intro d he
      rcases ih _ he with hold | ⟨w, hw, hvalue⟩
      · have hfind := Table.find?_eq_some_iff.mpr (show (e.1, e.2) ∈ _ from hold)
        rw [find?_describeValidation] at hfind
        split at hfind
        · next value hvalue =>
          split at hfind
          · next hstored =>
            obtain rfl := Option.some.inj hfind
            exact .inr ⟨v, List.mem_cons_self, hvalue, hstored.2.symm⟩
          · exact .inl (Table.find?_eq_some_iff.mp hfind)
        · exact .inl (Table.find?_eq_some_iff.mp hfind)
      · exact .inr ⟨w, List.mem_cons_of_mem v hw, hvalue⟩
  rcases hfold f.validations.values _ h with hstart | hvalue
  · simp [FieldDescriptor.named] at hstart
  · exact hvalue

theorem extra_relationships_describe {m : Model} {e : Entity} {date : String}
    {r : RelationshipDescriptor} (hr : r ∈ (m.describe e date).relationships) : r.extra = ∅ := by
  obtain ⟨s, -, hs⟩ := List.mem_flatMap.mp hr
  rcases List.mem_append.mp hs with hs | hs
  · split at hs
    · rw [List.mem_singleton.mp hs]
      rfl
    · simp at hs
  · split at hs
    · rw [List.mem_singleton.mp hs]
      rfl
    · simp at hs

/-- The descriptors of a well-formed model are read back from their text. -/
theorem readsBack_describe {m : Model} (hvalues : m.Printable) {e : Entity}
    (he : e ∈ m.entities.values) (hproblems : e.problems = []) (date : String) (indent : Nat) :
    Disk.ReadsBack indent (m.describe e date) := by
  have hstored : ∀ d ∈ (m.describe e date).fields, ∀ x ∈ d.extra.entries,
      x.1 ∉ FieldDescriptor.knownKeys ∧ x.2.canonical = x.2 ∧ x.2.Printable 124 := by
    intro d hd x hx
    obtain ⟨f, hf, rfl⟩ := List.mem_map.mp hd
    obtain ⟨v, hv, hvalue, hkey⟩ := mem_extra_describeField hx
    obtain ⟨-, -, hvalidations⟩ :=
      Field.problems_eq_nil.mp ((Entity.problems_eq_nil.mp hproblems).2.2 f hf)
    obtain ⟨-, hknown, -⟩ := Validation.problems_eq_nil.mp (hvalidations v hv)
    have hother : ∀ name ∈ ValidationName.withoutValue ++ ValidationName.withValue,
        ValidationName.descriptorKey name ∉ FieldDescriptor.knownKeys := by decide +kernel
    refine ⟨hkey ▸ hother v.name ?_, hvalues e he f hf v hv _ hvalue⟩
    simpa [ValidationName.isKnown] using hknown
  have hclean : (m.describe e date).Clean := by
    refine ⟨fun d hd x hx => ?_, fun r hr => ?_, ?_⟩
    · obtain ⟨hkey, hcanonical, -⟩ := hstored d hd x hx
      exact ⟨hkey, hcanonical⟩
    · simp [extra_relationships_describe hr, Json.Others]
    · rintro x ⟨⟩
  have hprintable : (m.describe e date).Printable := by
    refine ⟨fun d hd => Json.printableEntries_iff.mpr fun x hx => (hstored d hd x hx).2.2,
      fun r hr => ?_, trivial⟩
    simp [extra_relationships_describe hr, Json.PrintableEntries]
  exact Disk.readsBack_of_clean hclean fun written => Disk.parse_fileText hprintable written

/-- The two descriptors agree in the options by which descriptors are compared. -/
structure ComparedOptions (a b : EntityDescriptor) : Prop where
  dto : a.dto = b.dto
  service : a.service = b.service
  pagination : a.pagination = b.pagination
  searchEngine : a.searchEngine = b.searchEngine
  filtering : a.filtering = some true ↔ b.filtering = some true

theorem comparedOptions_of_sameEntity {a b : EntityDescriptor} (h : a.sameEntity b = true) :
    ComparedOptions a b := by
  have hoptions : a.sameOptions b = true := (Bool.and_eq_true_iff.mp h).2
  simp only [EntityDescriptor.sameOptions, Bool.and_eq_true, beq_iff_eq] at hoptions
  obtain ⟨⟨⟨⟨⟨⟨hdto, hservice⟩, hpagination⟩, hsearch⟩, -⟩, -⟩, hfiltering⟩ := hoptions
  have hon : ∀ o : Option Bool, o = some true ↔ o.getD false = true := by
    intro o
    cases o <;> simp
  exact ⟨hdto, hservice, hpagination, hsearch, by rw [hon, hon, hfiltering]⟩

/-- After an export the file of each entity states the options by which descriptors are compared. It
states all options if it was written; if not, it is as it was and stated the same entity before. -/
theorem exportEntities_options {m : Model} (hm : m.Reachable) {start : Int} {plan : ExportPlan}
    {d d' : Disk} {written : Descriptors}
    (hnames : ∀ name ∈ m.entities.keys, Path.IsSegment name ∧ upperFirst name = name)
    (hvalues : m.Printable)
    (h : d.exportEntities plan false (m.toDescriptors start) = (d', .ok written))
    {name : String} {descriptor : EntityDescriptor}
    (hmem : (name, descriptor) ∈ (m.toDescriptors start).entries) :
    ∃ l c, d'.locate (entityFilePath plan.entityPath name) = some l ∧
      d'.readEntity (entityFilePath plan.entityPath name) = .ok c ∧
      ComparedOptions c descriptor ∧
      if name ∈ written.keys then
        c.binaryOptions = descriptor.binaryOptions ∧ c.unaryOptions = descriptor.unaryOptions
      else d.stated? l = some c ∧ c.sameEntity descriptor = true := by
  have hwell := hm.wellFormed
  have hkeys := keys_toDescriptors hwell start
  have hupper : (m.toDescriptors start).keys.map upperFirst = (m.toDescriptors start).keys := by
    rw [hkeys, List.map_congr_left fun name hname => (hnames name hname).2, List.map_id']
  have hback : ∀ e ∈ (m.toDescriptors start).entries, Disk.ReadsBack plan.indent e.2 := by
    rintro ⟨name, descriptor⟩ he
    obtain ⟨e, date, hentity, rfl⟩ := mem_toDescriptors hwell he
    exact readsBack_describe hvalues (Table.mem_values.mpr ⟨name, hentity⟩)
      (hwell.entities name e hentity).2 date plan.indent
  have hexported := Disk.exportTo_exported (fun name hname => (hnames name (hkeys ▸ hname)).1)
    (by rw [hupper]; exact (m.toDescriptors start).distinct) hback h
  obtain ⟨c, hc, hsame⟩ := hexported.stated _ hmem
  obtain ⟨-, -, l, text, hl, htext, hparse⟩ := Disk.readEntity_eq_ok.mp hc
  have hstated := Disk.stated?_eq_some.mpr ⟨text, htext, hparse⟩
  have hdecided := hexported.decided _ hmem l hl
  refine ⟨l, c, hl, hc, comparedOptions_of_sameEntity hsame, ?_⟩
  split at hdecided
  · obtain ⟨hnone, hoccupant⟩ := hdecided
    rw [if_neg hnone]
    exact ⟨(Disk.stated?_congr hoccupant).symm.trans hstated, hsame⟩
  · obtain ⟨hwritten, hfile⟩ := hdecided
    rw [if_pos (Table.mem_keys.mpr ⟨_, hwritten⟩)]
    obtain ⟨date, hdate⟩ := Disk.keepingDate_eq_dated (d.stated? l) descriptor
    have hread := (hexported.answered _ hwritten).2
    obtain rfl : c = descriptor.dated date :=
      Except.ok.inj (hc.symm.trans (hread.trans (congrArg Except.ok hdate)))
    exact ⟨rfl, rfl⟩

/-- A model of books with further options. -/
def library (options : List GeneratorOption) : Model :=
  { (∅ : Model) with
    entities := Table.ofList [("Book", Entity.named "Book")]
    options := options.foldl OptionTable.add ∅ }

theorem library_reachable {options : List GeneratorOption}
    (h : ∀ o ∈ options, o.Built ∧ o.problems = []) : (library options).Reachable := by
  have hbook : (library []).Reachable :=
    .entity .empty (addEntity_eq_ok.mpr ⟨(by decide : (Entity.named "Book").problems = []), rfl⟩)
  exact hbook.options h

def withoutClient : GeneratorOption := .unary OptionName.skipClient Scope.all

def mappedAuthors : GeneratorOption :=
  .binary OptionName.dto "mapstruct" ⟨NameSet.singleton "Author", ∅⟩

/-- The books and their authors. -/
def readingRoom : Model :=
  { library [withoutClient, mappedAuthors] with
    entities := (library []).entities.insert "Author" (Entity.named "Author") }

theorem readingRoom_reachable : readingRoom.Reachable := by
  have hlibrary : (library [withoutClient, mappedAuthors]).Reachable := by
    refine library_reachable fun o ho => ?_
    rcases List.mem_pair.mp ho with rfl | rfl
    · exact ⟨GeneratorOption.Legal.built (by decide), by decide⟩
    · exact ⟨GeneratorOption.Legal.built (by decide), by decide⟩
  have hauthor : (Entity.named "Author").problems = [] := by decide
  exact .entity hlibrary (addEntity_eq_ok.mpr ⟨hauthor, rfl⟩)

/-- The books without options, as far as descriptors are compared. -/
def plainBook : EntityDescriptor :=
  { EntityDescriptor.empty with
    tableName := some "Book", dto := some "no", pagination := some "no", service := some "no" }

/-- A disk with the file of the books alone. -/
def bookcase : Disk :=
  ⟨Table.ofList [(.above 0, .directory [(entityDirectory,
    .directory [("Book.json", .file (some (Disk.fileText 4 plainBook)))])])]⟩

theorem exportEntities_bookcase : ∃ d' written,
    bookcase.exportEntities .standard false (readingRoom.toDescriptors 0) = (d', .ok written) ∧
      written.keys = ["Author"] ∧
      ∀ name descriptor, (name, descriptor) ∈ (readingRoom.toDescriptors 0).entries →
        ∃ l c, d'.locate (entityFilePath ExportPlan.standard.entityPath name) = some l ∧
          d'.readEntity (entityFilePath ExportPlan.standard.entityPath name) = .ok c ∧
          ComparedOptions c descriptor ∧
          if name ∈ written.keys then
            c.binaryOptions = descriptor.binaryOptions ∧ c.unaryOptions = descriptor.unaryOptions
          else bookcase.stated? l = some c ∧ c.sameEntity descriptor = true := by
  have hvalues : readingRoom.Printable := by
    intro e he f hf
    have hbare : ∀ e ∈ readingRoom.entities.values, e.fields.values = [] := by decide
    rw [hbare e he] at hf
    cases hf
  have hrun : (bookcase.exportEntities .standard false
      (readingRoom.toDescriptors 0)).2.toOption.map Table.keys = some ["Author"] := by
    decide +kernel
  generalize hresult : bookcase.exportEntities .standard false
    (readingRoom.toDescriptors 0) = result at hrun ⊢
  obtain ⟨d', outcome⟩ := result
  cases outcome with
  | error f => simp [Except.toOption] at hrun
  | ok written =>
    exact ⟨d', written, rfl, by simpa [Except.toOption] using hrun, fun name descriptor hmem =>
      exportEntities_options readingRoom_reachable (by decide +kernel) hvalues hresult hmem⟩

theorem readEntity_bookcase : bookcase.readEntity
    (entityFilePath ExportPlan.standard.entityPath "Book") = .ok plainBook := by
  obtain ⟨hclean, hprintable⟩ :=
    EntityDescriptor.clean_printable_of_bare (d := plainBook) rfl rfl rfl
  have hback : Disk.ReadsBack 4 plainBook :=
    Disk.readsBack_of_clean hclean fun date => Disk.parse_fileText hprintable date
  exact Disk.readEntity_eq_ok.mpr ⟨by decide +kernel, by decide +kernel,
    ⟨.above 0, [entityDirectory, "Book.json"]⟩, Disk.fileText 4 plainBook, by decide +kernel, rfl,
    hback none⟩

/-- An option by which descriptors are not compared may be missing from the file afterwards. -/
theorem skipClient_unwritten : ¬ ∀ (m : Model) (start : Int) (d d' : Disk) (written : Descriptors),
    m.Reachable → (∀ name ∈ m.entities.keys, Path.IsSegment name ∧ upperFirst name = name) →
    d.exportEntities .standard false (m.toDescriptors start) = (d', .ok written) →
    ∀ name descriptor, (name, descriptor) ∈ (m.toDescriptors start).entries →
      ∃ c, d'.readEntity (entityFilePath ExportPlan.standard.entityPath name) = .ok c ∧
        c.binaryOptions = descriptor.binaryOptions ∧ c.unaryOptions = descriptor.unaryOptions := by
  intro hclaim
  have hreach : (library [withoutClient]).Reachable :=
    library_reachable fun o ho => by
      rw [List.mem_singleton.mp ho]
      exact ⟨GeneratorOption.Legal.built (by decide), by decide⟩
  have hstated : ∀ e ∈ ((library [withoutClient]).toDescriptors 0).entries,
      e.1 = "Book" ∧ plainBook.sameEntity e.2 = true ∧
        e.2.unaryOptions = [OptionName.skipClient] := by decide +kernel
  have hskipped : bookcase.exportEntities .standard false
      ((library [withoutClient]).toDescriptors 0) = (bookcase, .ok ∅) := by
    refine Disk.exportTo_idle (by decide +kernel) rfl fun e he => ?_
    obtain ⟨hname, hsame, -⟩ := hstated e he
    rw [hname]
    exact ⟨by decide, plainBook, readEntity_bookcase, hsame⟩
  obtain ⟨date, hmem⟩ := exists_toDescriptors hreach.wellFormed 0
    (show ("Book", Entity.named "Book") ∈ _ by decide)
  obtain ⟨c, hc, -, hunary⟩ := hclaim _ _ _ _ _ hreach (by decide +kernel) hskipped _ _ hmem
  obtain rfl := Except.ok.inj (hc.symm.trans readEntity_bookcase)
  rw [(hstated _ hmem).2.2] at hunary
  exact absurd hunary (by decide)

end Model
end DomainModel
