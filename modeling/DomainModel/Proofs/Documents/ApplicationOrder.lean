import DomainModel.Proofs.Documents.Databases
/-!
# The order of declared applications

Declared applications are resolved last and add nothing but themselves. Before that they are asked
for one thing, the databases of entities, where the last application that selects an entity decides.
Their order therefore matters for an entity only that applications with different databases select.
-/
namespace DomainModel

namespace Document
variable {d : Document} {target : Target} {draw draw' : Nat → Secrets} {m m' : Model}
  {l : List DeclaredApplication}

/-- The same declarations with these applications in the place of its own. -/
def withApplications (d : Document) (l : List DeclaredApplication) : Document :=
  { d with applications := l }

/-- What a declared application must satisfy to be added to a model with these entities. -/
def Addable (m : Model) (a : DeclaredApplication) : Prop :=
  (∀ s, a.selection = some s →
    ∀ n ∈ s.listed ++ s.excluded, n = allEntities ∨ n ∈ m.entities.keys) ∧
  Application.problems ⟨a.settings.withDefaults ⟨"", ""⟩, ∅⟩ = []

theorem addApplications_succeeds_iff :
    (∃ m', d.addApplications draw m = .ok m') ↔ ∀ a ∈ d.applications, Addable m a := by
  have hsteps : (∃ m', d.addApplications draw m = .ok m') ↔
      ∀ x ∈ d.applications.zipIdx, Addable m x.1 := by
    apply Outcome.foldlM_succeeds_iff_of_keeps
      (Q := fun k : Model => k.entities = m.entities) _ _ rfl
    · rintro ⟨a, i⟩ _ k hk
      have hproblems : (a.application m.entityNames (draw i)).problems =
          Application.problems ⟨a.settings.withDefaults ⟨"", ""⟩, ∅⟩ := by
        apply Application.problems_congr
        rw [DeclaredApplication.settings_application]
        exact Settings.sameButSecrets_withSecret _ _ _
      simp only [Outcome.bind_eq_ok, buildApplication_eq_ok, Model.addApplication_eq_ok, hk]
      constructor
      · rintro ⟨k', b, ⟨hnames, rfl⟩, hnone, -⟩
        exact ⟨hnames, hproblems.symm.trans hnone⟩
      · rintro ⟨hnames, hnone⟩
        exact ⟨_, _, ⟨hnames, rfl⟩, hproblems.trans hnone, rfl⟩
    · rintro ⟨a, i⟩ _ k k' hk hstep
      obtain ⟨b, -, hadd⟩ := Outcome.bind_eq_ok.mp hstep
      rw [(Model.addApplication_eq_ok.mp hadd).2]
      exact hk
  rw [hsteps]
  constructor
  · intro h a ha
    obtain ⟨i, hi⟩ := List.mem_iff_getElem?.mp ha
    exact h (a, i) (List.mem_zipIdx_iff_getElem?.mpr hi)
  · intro h x hx
    exact h x.1 (List.fst_mem_of_mem_zipIdx hx)

theorem selected_declared (h : d.toModel target draw = .ok m) {a : DeclaredApplication}
    (ha : a ∈ d.applications) {n : String} (hn : n ∈ a.selected d.entityNames) :
    n ∈ d.entityNames := by
  obtain ⟨k, k', -, -, happlications⟩ := toModelFrom_eq_ok.mp h
  obtain ⟨rfl, hnames⟩ := addApplications_spec happlications
  unfold DeclaredApplication.selected at hn
  split at hn
  · exact absurd hn List.not_mem_nil
  · next s hs =>
    rcases (mem_choose hn).2 with hdeclared | ⟨hlisted, hne⟩
    · exact hdeclared
    · have hentity := (hnames a ha s hs n (List.mem_append_left _ hlisted)).resolve_left hne
      exact (keys_toModel h n).mp hentity

theorem lastDatabase?_eq_none {n : String}
    (h : ∀ a ∈ d.applications, n ∉ a.selected d.entityNames) : d.lastDatabase? n = none := by
  have hnone : d.applications.filter (fun a => (a.selected d.entityNames).contains n) = [] :=
    List.filter_eq_nil_iff.mpr fun a ha => by simpa using h a ha
  rw [lastDatabase?, hnone]
  rfl

theorem databaseOf_withApplications (hperm : l.Perm d.applications)
    (hlast : target.databaseType = none →
      ∀ n ∈ d.entityNames, (d.withApplications l).lastDatabase? n = d.lastDatabase? n)
    (h : d.toModel target draw = .ok m) (n : String) :
    d.databaseOf target n = (d.withApplications l).databaseOf target n := by
  rw [databaseOf_eq, databaseOf_eq]
  cases htarget : target.databaseType with
  | some t => rfl
  | none =>
    by_cases hn : n ∈ d.entityNames
    · rw [hlast htarget n hn]
    · have hnone : ∀ a ∈ d.applications, n ∉ a.selected d.entityNames :=
        fun a ha hna => hn (selected_declared h ha hna)
      have hreordered : (d.withApplications l).lastDatabase? n = none :=
        lastDatabase?_eq_none fun a ha => hnone a (hperm.mem_iff.mp ha)
      rw [lastDatabase?_eq_none hnone, hreordered]

theorem succeeds_withApplications (hperm : l.Perm d.applications)
    (hlast : target.databaseType = none →
      ∀ n ∈ d.entityNames, (d.withApplications l).lastDatabase? n = d.lastDatabase? n)
    (h : d.toModel target draw = .ok m) :
    ∃ m', (d.withApplications l).toModel target draw' = .ok m' := by
  have hdeclare : d.declare target = (d.withApplications l).declare target :=
    declare_congr (fun _ => rfl) (databaseOf_withApplications hperm hlast h)
  obtain ⟨k, k', hrun, hmicroservice, happlications⟩ := toModelFrom_eq_ok.mp h
  have haddable := addApplications_succeeds_iff.mp ⟨m, happlications⟩
  have hadded : ∃ m', (d.withApplications l).addApplications draw' k' = .ok m' :=
    addApplications_succeeds_iff.mpr fun a ha => haddable a (hperm.mem_iff.mp ha)
  obtain ⟨m', hm'⟩ := hadded
  exact ⟨m', toModelFrom_eq_ok.mpr ⟨k, k', hdeclare ▸ hrun, hmicroservice, hm'⟩⟩

/-- What a declaration adds depends on the applications in no way. -/
theorem declare_withApplications {x : Declaration} {k : Model}
    (h : d.declare target k x = .ok m)
    (h' : (d.withApplications l).declare target k x = .ok m') : m = m' := by
  obtain ⟨p, hp, -, -, rfl⟩ := declare_eq_ok.mp h
  obtain ⟨p', hp', -, -, rfl⟩ := declare_eq_ok.mp h'
  exact congrArg k.put (Except.ok.inj (hp.symm.trans hp'))

/-- If a document is resolved with its applications in two orders, the models have the same
entities, enumerations, relationships and options. It is resolved in both orders or in none if the
last applications that select an entity have the same database, unless the target names the
database. -/
theorem toModel_applicationsReordered (hperm : l.Perm d.applications) (target : Target)
    (draw draw' : Nat → Secrets) :
    (∀ m m', d.toModel target draw = .ok m → (d.withApplications l).toModel target draw' = .ok m' →
      m'.entities = m.entities ∧ m'.enumerations = m.enumerations ∧
        m'.relationships = m.relationships ∧ m'.options = m.options) ∧
    ((target.databaseType = none →
        ∀ n ∈ d.entityNames, (d.withApplications l).lastDatabase? n = d.lastDatabase? n) →
      ((∃ m, d.toModel target draw = .ok m) ↔
        ∃ m', (d.withApplications l).toModel target draw' = .ok m')) := by
  constructor
  · intro m m' h h'
    obtain ⟨k₁, k₂, hrun, hmicroservice, happlications⟩ := toModelFrom_eq_ok.mp h
    obtain ⟨k₁', k₂', hrun', hmicroservice', happlications'⟩ := toModelFrom_eq_ok.mp h'
    obtain rfl : k₁ = k₁' :=
      Outcome.foldlM_agree (fun _ _ _ _ => declare_withApplications) hrun hrun'
    obtain rfl : k₂ = k₂' := Except.ok.inj (hmicroservice.symm.trans hmicroservice')
    obtain ⟨rfl, -⟩ := addApplications_spec happlications
    obtain ⟨rfl, -⟩ := addApplications_spec happlications'
    exact ⟨rfl, rfl, rfl, rfl⟩
  · intro hlast
    constructor
    · rintro ⟨m, h⟩
      exact succeeds_withApplications hperm hlast h
    · rintro ⟨m', h⟩
      exact succeeds_withApplications (d := d.withApplications l) (l := d.applications)
        hperm.symm (fun htarget n hn => (hlast htarget n hn).symm) h

/-- A shop, and a store with a database of its own that keeps the events of the shop. -/
def shop : DeclaredApplication :=
  ⟨Table.ofList [("baseName", .text "shop")], some ⟨["Event", "Order"], []⟩⟩

def store : DeclaredApplication :=
  ⟨Table.ofList [("baseName", .text "store"), ("databaseType", .text "cassandra")],
    some ⟨[allEntities], ["Order"]⟩⟩

def desk : DeclaredApplication := ⟨Table.ofList [("baseName", .text "desk")], some ⟨["Order"], []⟩⟩

/-- Orders and events, which the shop and the store both select. -/
def market : Document :=
  { empty with
    applications := [shop, store, desk]
    entities :=
      [⟨"Order", none, none, [.field ⟨"total", "BigDecimal", []⟩, .field ⟨"note", "TextBlob", []⟩]⟩,
        ⟨"Event", none, none, [.field ⟨"key", "UUID", []⟩]⟩]
    options := [⟨"paginate", some "pager", ["Order"], []⟩] }

theorem market_reordered : [desk, shop, store].Perm market.applications ∧
    (∀ n ∈ market.entityNames,
      (market.withApplications [desk, shop, store]).lastDatabase? n = market.lastDatabase? n) ∧
    ∃ m m', market.toModel .any (fun _ => ⟨"", ""⟩) = .ok m ∧
      (market.withApplications [desk, shop, store]).toModel .any (fun _ => ⟨"key", ""⟩) = .ok m' ∧
      m'.entities = m.entities ∧ m'.enumerations = m.enumerations ∧
        m'.relationships = m.relationships ∧ m'.options = m.options := by
  have hperm : [desk, shop, store].Perm market.applications :=
    (List.perm_append_singleton desk [shop, store]).symm
  have hlast : ∀ n ∈ market.entityNames,
      (market.withApplications [desk, shop, store]).lastDatabase? n = market.lastDatabase? n := by
    decide +kernel
  have hrun : (market.toModel .any (fun _ => ⟨"", ""⟩)).toOption.isSome = true := by decide +kernel
  have hreordered := toModel_applicationsReordered hperm .any (fun _ => ⟨"", ""⟩)
    (fun _ => ⟨"key", ""⟩)
  cases hresult : market.toModel .any (fun _ => ⟨"", ""⟩) with
  | error f => simp [hresult, Except.toOption] at hrun
  | ok m =>
    obtain ⟨m', hm'⟩ := (hreordered.2 fun _ => hlast).mp ⟨m, hresult⟩
    exact ⟨hperm, hlast, m, m', rfl, hm', hreordered.1 m m' hresult hm'⟩

/-- With the shop behind the store, the events of the store get the database of the shop, which
knows no type of their keys. -/
theorem market_shopLast_refused : ¬ ∀ (d : Document) (l : List DeclaredApplication)
    (target : Target) (draw : Nat → Secrets), l.Perm d.applications →
    (d.applications.map fun a => a.settings.baseName?).Nodup →
    ((∃ m, d.toModel target draw = .ok m) ↔
      ∃ m', (d.withApplications l).toModel target draw = .ok m') := by
  intro hclaim
  have hrun : (market.toModel .any (fun _ => ⟨"", ""⟩)).toOption.isSome = true := by decide +kernel
  have hrefused : ((market.withApplications [store, shop, desk]).toModel .any
      (fun _ => ⟨"", ""⟩)).toOption.isSome = false := by decide +kernel
  have hiff := hclaim market [store, shop, desk] .any (fun _ => ⟨"", ""⟩) (List.Perm.swap _ _ _)
    (by decide +kernel)
  cases hresult : market.toModel .any (fun _ => ⟨"", ""⟩) with
  | error f => simp [hresult, Except.toOption] at hrun
  | ok m =>
    obtain ⟨m', hm'⟩ := hiff.mp ⟨m, hresult⟩
    simp [hm', Except.toOption] at hrefused

end Document
end DomainModel
