import DomainModel.Proofs.Documents.Databases
/-!
# Options that a database refuses

A declared option fails if a database that it is checked against refuses it. With the wildcard these
are the databases of the entities that the option applies to; in a list of names an excluded entity
still counts.
-/
namespace DomainModel
namespace Document
variable {d : Document} {target : Target} {m : Model} {name : String} {o : DeclaredOption}

theorem mem_keys_of_mem_optionTargets
    (hnames : ∀ n ∈ o.listed ++ o.excluded, n = allEntities ∨ n ∈ m.entities.keys) {n : String}
    (h : n ∈ optionTargets m o) : n ∈ m.entities.keys := by
  unfold optionTargets at h
  split at h
  · exact (List.mem_filter.mp h).1
  · next hexplicit =>
    have hne : n ≠ allEntities := by
      rintro rfl
      exact hexplicit (by simp [h])
    exact (hnames n (List.mem_append_left _ h)).resolve_left hne

theorem checkOptionDatabase_fails_iff :
    (∃ f, d.checkOptionDatabase target m name o = .error f) ↔
      ∃ t ∈ d.optionDatabases target m o, (OptionName.refusal? name t).isSome = true := by
  simp only [Outcome.fails_iff, checkOptionDatabase_eq_ok, exists_const, not_forall,
    Option.isSome_iff_ne_none, exists_prop, ne_eq]

/-- An option over declared entities is refused exactly if the database of an entity refuses it that
the option applies to, or that it lists by name and excludes at once. -/
theorem optionRefused_iff {built : GeneratorOption}
    (hnames : ∀ n ∈ o.listed ++ o.excluded, n = allEntities ∨ n ∈ m.entities.keys)
    (hbuilt : buildOption name o = .ok built)
    (happlies : ∃ n ∈ m.entities.keys, built.appliesTo n = true) :
    (∃ f, d.checkOptionDatabase target m name o = .error f) ↔
      ∃ n ∈ m.entities.keys,
        (built.appliesTo n = true ∨ n ∈ o.listed ∧ n ∈ o.excluded ∧ allEntities ∉ o.listed) ∧
          (OptionName.refusal? name (d.databaseOf target n)).isSome = true := by
  have hscope : ∀ n, built.appliesTo n = o.scope.appliesTo n := by
    intro n
    rw [GeneratorOption.appliesTo, (buildOption_spec hbuilt).2.2]
  have htargets : optionTargets m o ≠ [] := by
    obtain ⟨n, hn, happlies⟩ := happlies
    exact List.ne_nil_of_mem ((mem_optionTargets_iff hn).mpr (.inl (hscope n ▸ happlies)))
  simp only [checkOptionDatabase_fails_iff, mem_optionDatabases_iff htargets, hscope]
  constructor
  · rintro ⟨_, ⟨n, htarget, rfl⟩, hrefused⟩
    have hn := mem_keys_of_mem_optionTargets hnames htarget
    exact ⟨n, hn, (mem_optionTargets_iff hn).mp htarget, hrefused⟩
  · rintro ⟨n, hn, hchecked, hrefused⟩
    exact ⟨_, ⟨n, (mem_optionTargets_iff hn).mpr hchecked, rfl⟩, hrefused⟩

/-- A paper whose events are kept in an archive with a database of its own. -/
def gazette : Document :=
  { empty with
    applications :=
      [⟨Table.ofList [("baseName", .text "archive"), ("databaseType", .text "cassandra")],
        some ⟨["Event"], []⟩⟩]
    entities := [⟨"Article", none, none, []⟩, ⟨"Event", none, none, []⟩] }

def gazetteEntities : Model :=
  { (∅ : Model) with
    entities :=
      Table.ofList [("Article", Entity.named "Article"), ("Event", Entity.named "Event")] }

/-- Paging for both entities but the second. -/
def pagedArticles : DeclaredOption :=
  ⟨OptionName.pagination, some "pager", ["Article", "Event"], ["Event"]⟩

def builtPaging : GeneratorOption :=
  .binary OptionName.pagination "pager"
    ⟨NameSet.ofList ["Article", "Event"], NameSet.ofList ["Event"]⟩

theorem pagedArticles_refused :
    (∀ n ∈ pagedArticles.listed ++ pagedArticles.excluded,
      n = allEntities ∨ n ∈ gazetteEntities.entities.keys) ∧
    buildOption OptionName.pagination pagedArticles = .ok builtPaging ∧
    (∃ n ∈ gazetteEntities.entities.keys, builtPaging.appliesTo n = true) ∧
    ((∃ f, gazette.checkOptionDatabase .any gazetteEntities OptionName.pagination
        pagedArticles = .error f) ↔
      ∃ n ∈ gazetteEntities.entities.keys,
        (builtPaging.appliesTo n = true ∨ n ∈ pagedArticles.listed ∧
          n ∈ pagedArticles.excluded ∧ allEntities ∉ pagedArticles.listed) ∧
        (OptionName.refusal? OptionName.pagination (gazette.databaseOf .any n)).isSome = true) := by
  have hnames : ∀ n ∈ pagedArticles.listed ++ pagedArticles.excluded,
      n = allEntities ∨ n ∈ gazetteEntities.entities.keys := by decide
  have hbuilt : buildOption OptionName.pagination pagedArticles = .ok builtPaging := by decide
  have happlies : ∃ n ∈ gazetteEntities.entities.keys, builtPaging.appliesTo n = true := by decide
  exact ⟨hnames, hbuilt, happlies, optionRefused_iff hnames hbuilt happlies⟩

/-- The database of an entity that an option excludes may refuse the option. -/
theorem pagedArticles_refusedByExcluded :
    ¬ ∀ (d : Document) (target : Target) (m : Model) (name : String) (o : DeclaredOption)
      (built : GeneratorOption),
      (∀ n ∈ o.listed ++ o.excluded, n = allEntities ∨ n ∈ m.entities.keys) →
      buildOption name o = .ok built → (∃ n ∈ m.entities.keys, built.appliesTo n = true) →
      ((∃ f, d.checkOptionDatabase target m name o = .error f) ↔
        ∃ n ∈ m.entities.keys, built.appliesTo n = true ∧
          (OptionName.refusal? name (d.databaseOf target n)).isSome = true) := by
  intro hclaim
  have hrefused : ∃ f, gazette.checkOptionDatabase .any gazetteEntities OptionName.pagination
      pagedArticles = .error f := checkOptionDatabase_fails_iff.mpr (by decide)
  have happly := (hclaim gazette .any gazetteEntities OptionName.pagination pagedArticles
    builtPaging (by decide) (by decide) (by decide)).mp hrefused
  exact absurd happly (by decide)

end Document
end DomainModel
