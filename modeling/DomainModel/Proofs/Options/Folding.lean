import DomainModel.Proofs.Descriptors.Rejection
/-!
# Options folded over descriptors

The options that descriptors state, each for its own entity alone, fold into one option for each
name and value. It lists the entities that state it in the order of the descriptors, so it applies
to an entity exactly where the descriptor of the entity states it.
-/
namespace DomainModel

/-- Where every item contributes its own key only, dropping repetitions leaves the keys of the items
that contribute, in their order. -/
theorem eraseDups_flatMap_own {κ α : Type} [DecidableEq κ] {l : List (κ × α)}
    {f : κ × α → List κ} (hown : ∀ e ∈ l, ∀ k ∈ f e, k = e.1) (hd : (l.map Prod.fst).Nodup) :
    (l.flatMap f).eraseDups = (l.filter fun e => !(f e).isEmpty).map Prod.fst := by
  induction l with
  | nil => rfl
  | cons e rest ih =>
    obtain ⟨hnew, hrest⟩ := List.nodup_cons.mp hd
    have hfirst : ∀ k ∈ f e, k = e.1 := hown e List.mem_cons_self
    have hlater : (rest.flatMap f).removeAll (f e) = rest.flatMap f := by
      refine List.filter_eq_self.mpr fun k hk => ?_
      obtain ⟨x, hx, hkx⟩ := List.mem_flatMap.mp hk
      obtain rfl := hown x (List.mem_cons_of_mem e hx) k hkx
      have hout : x.1 ∉ f e := fun h => hnew (hfirst x.1 h ▸ List.mem_map_of_mem hx)
      simpa using hout
    rw [List.flatMap_cons, List.eraseDups_append, hlater,
      ih (fun x hx => hown x (List.mem_cons_of_mem e hx)) hrest]
    cases hf : f e with
    | nil => simp [hf]
    | cons k ks =>
      have hk : k = e.1 := hfirst k (hf ▸ List.mem_cons_self)
      have hks : ks.filter (fun b => !b == e.1) = [] := by
        refine List.filter_eq_nil_iff.mpr fun b hb => ?_
        simp [hfirst b (hf ▸ List.mem_cons_of_mem k hb)]
      simp [hf, List.eraseDups_cons, hk, hks]

namespace EntityDescriptor

/-- What the descriptor says about the options that are flags. -/
def flags (d : EntityDescriptor) : List (String × Bool) :=
  [(OptionName.noFluentMethod, d.fluentMethods == some false),
    (OptionName.filter, d.filtering == some true),
    (OptionName.skipClient, d.skipClient == some true),
    (OptionName.skipServer, d.skipServer == some true)]

/-- The value that the descriptor sets for a binary option. -/
def statedValue? (d : EntityDescriptor) (name : String) : Option String :=
  (Table.lookup name (d.cataloguedOptions ++ d.freeOptions)).bind setValue

/-- Whether the descriptor sets a flag. -/
def statesFlag (d : EntityDescriptor) (name : String) : Bool :=
  (Table.lookup name d.flags).getD false

/-- The descriptor sets the flag, or the option of this name to this value. -/
def States (d : EntityDescriptor) : GeneratorOption → Prop
  | .unary name _ => d.statesFlag name = true
  | .binary name value _ => d.statedValue? name = some value

variable {d : EntityDescriptor}

theorem statedValue?_eq_some {name value : String} :
    d.statedValue? name = some value ↔ (name, value) ∈ d.binaryOptions := by
  have hnames : ((d.cataloguedOptions ++ d.freeOptions).map Prod.fst).Nodup := by
    change (OptionName.binaries.map Prod.fst).Nodup
    decide
  change _ ↔ (name, value) ∈ (d.cataloguedOptions ++ d.freeOptions).filterMap _
  simp only [statedValue?, Option.bind_eq_some_iff, List.mem_filterMap, Option.map_eq_some_iff,
    Prod.mk.injEq]
  constructor
  · rintro ⟨stated, hstated, hset⟩
    exact ⟨(name, stated), Table.mem_of_lookup hstated, value, hset, rfl, rfl⟩
  · rintro ⟨⟨_, stated⟩, hstated, _, hset, rfl, rfl⟩
    exact ⟨stated, Table.lookup_of_mem hnames hstated, hset⟩

theorem statesFlag_iff {name : String} : d.statesFlag name = true ↔ name ∈ d.unaryOptions := by
  have hnames : (d.flags.map Prod.fst).Nodup := by
    change [OptionName.noFluentMethod, OptionName.filter, OptionName.skipClient,
      OptionName.skipServer].Nodup
    decide
  change _ ↔ name ∈ (d.flags.filter Prod.snd).map Prod.fst
  simp only [statesFlag, List.mem_map, List.mem_filter]
  constructor
  · intro h
    cases hflag : Table.lookup name d.flags with
    | none => simp [hflag] at h
    | some b =>
      obtain rfl : b = true := by simpa [hflag] using h
      exact ⟨(name, true), ⟨Table.mem_of_lookup hflag, rfl⟩, rfl⟩
  · rintro ⟨⟨_, _⟩, ⟨hmem, rfl⟩, rfl⟩
    rw [Table.lookup_of_mem hnames hmem]
    rfl

theorem mem_statedOptions {entity : String} {o : GeneratorOption} :
    o ∈ d.statedOptions entity ↔ o.scope = ⟨NameSet.ofList [entity], ∅⟩ ∧ d.States o := by
  rw [statedOptions, List.mem_append, List.mem_map, List.mem_map]
  constructor
  · rintro (⟨⟨name, value⟩, hmem, rfl⟩ | ⟨name, hmem, rfl⟩)
    · exact ⟨rfl, statedValue?_eq_some.mpr hmem⟩
    · exact ⟨rfl, statesFlag_iff.mpr hmem⟩
  · rintro ⟨hscope, hstates⟩
    cases o with
    | unary name scope =>
      obtain rfl : scope = _ := hscope
      exact .inr ⟨name, statesFlag_iff.mp hstates, rfl⟩
    | binary name value scope =>
      obtain rfl : scope = _ := hscope
      exact .inl ⟨(name, value), statedValue?_eq_some.mp hstates, rfl⟩

theorem States.congr {o p : GeneratorOption} (h : d.States o) (hname : p.name = o.name)
    (hvalue : p.value? = o.value?) : d.States p := by
  cases o with
  | unary name scope =>
    cases p with
    | unary name' scope' => exact (show name' = name from hname) ▸ h
    | binary name' value' scope' => cases hvalue
  | binary name value scope =>
    cases p with
    | unary name' scope' => cases hvalue
    | binary name' value' scope' =>
      obtain rfl : name' = name := hname
      obtain rfl : value' = value := Option.some.inj hvalue
      exact h

theorem States.withScope {o : GeneratorOption} (h : d.States o) (scope : Scope) :
    d.States (o.withScope scope) :=
  h.congr (GeneratorOption.name_withScope o scope) (GeneratorOption.value?_withScope o scope)

theorem statesFlag_eq_false_of_isBinary {name : String} (h : OptionName.isBinary name = true) :
    d.statesFlag name = false := by
  refine Bool.eq_false_iff.mpr fun hflag => ?_
  have hunary := isUnary_of_mem_unaryOptions (statesFlag_iff.mp hflag)
  rw [OptionName.isUnary_eq_false_of_isBinary h] at hunary
  cases hunary

theorem statedValue?_eq_none_of_isUnary {name : String} (h : OptionName.isUnary name = true) :
    d.statedValue? name = none := by
  cases hvalue : d.statedValue? name with
  | none => rfl
  | some value =>
    have hmem := (mem_binaryOptions.mp (statedValue?_eq_some.mp hvalue)).1
    rw [OptionName.isUnary_eq_false_of_isBinary (isBinary_of_mem hmem)] at h
    cases h

theorem states_iff_of_isBinary {o : GeneratorOption} {name : String}
    (h : OptionName.isBinary name = true) (hname : o.name = name) :
    d.States o ↔ (d.statedValue? name).map some = some o.value? := by
  subst hname
  cases o with
  | unary name scope =>
    have hflag : d.statesFlag name = false := statesFlag_eq_false_of_isBinary h
    simp [States, hflag, GeneratorOption.value?]
  | binary name value scope => simp [States, GeneratorOption.name, GeneratorOption.value?]

theorem states_iff_of_isUnary {o : GeneratorOption} {name : String}
    (h : OptionName.isUnary name = true) (hname : o.name = name) :
    d.States o ↔ (if d.statesFlag name then some none else none) = some o.value? := by
  subst hname
  cases o with
  | unary name scope => by_cases hflag : d.statesFlag name <;>
      simp [States, GeneratorOption.name, GeneratorOption.value?, hflag]
  | binary name value scope =>
    have hvalue : d.statedValue? name = none := statedValue?_eq_none_of_isUnary h
    simp [States, hvalue, GeneratorOption.value?]

theorem Acceptable.legal {entity : String} (h : d.Acceptable entity) {o : GeneratorOption}
    (ho : d.States o) : o.Legal := by
  cases o with
  | unary name scope => exact isUnary_of_mem_unaryOptions (statesFlag_iff.mp ho)
  | binary name value scope => exact h.options _ (statedValue?_eq_some.mp ho)

end EntityDescriptor

namespace Descriptors

/-- The options that the descriptors state, folded into one collection. -/
def folded (entities : Descriptors) : OptionTable :=
  (∅ : OptionTable).addAll (entities.entries.flatMap fun e => e.2.statedOptions e.1)

variable {entities : Descriptors} {p : GeneratorOption} {entity : String} {d : EntityDescriptor}

theorem toModel_options {m : Model} (h : entities.toModel = .ok m) :
    m.options = entities.folded := by
  rw [toModelFrom_eq_readInto h]
  rfl

private theorem scope_folded (hp : p ∈ entities.folded.toList) :
    p.scope = Scope.union
      (((entities.entries.flatMap fun e => e.2.statedOptions e.1).filter
        fun o => o.key == p.key).map GeneratorOption.scope) := by
  obtain ⟨key, hkey⟩ := OptionTable.mem_toList.mp hp
  obtain rfl := (OptionTable.added_of_get?_addAll hkey).1
  rw [folded, OptionTable.get?_addAll_empty] at hkey
  exact (GeneratorOption.gathered_eq_some hkey).1

theorem excluded_folded (hp : p ∈ entities.folded.toList) : p.scope.excluded.names = [] := by
  refine List.eq_nil_iff_forall_not_mem.mpr fun n hn => ?_
  rw [scope_folded hp] at hn
  obtain ⟨scope, hscope, hexcluded⟩ := Scope.mem_excluded_union.mp hn
  obtain ⟨o, ho, rfl⟩ := List.mem_map.mp hscope
  obtain ⟨e, -, hstated⟩ := List.mem_flatMap.mp (List.mem_filter.mp ho).1
  rw [(EntityDescriptor.mem_statedOptions.mp hstated).1] at hexcluded
  exact List.not_mem_nil hexcluded

/-- A folded option lists the entities whose descriptors state it, in their order. -/
theorem included_folded (hp : p ∈ entities.folded.toList) :
    p.scope.included.names = (entities.entries.filter fun e =>
      (e.2.statedOptions e.1).any fun o => o.key == p.key).map Prod.fst := by
  have hnames : ∀ e : String × EntityDescriptor, ∀ o ∈ e.2.statedOptions e.1,
      o.scope.included.names = [e.1] := by
    intro e o ho
    rw [(EntityDescriptor.mem_statedOptions.mp ho).1]
    rfl
  rw [scope_folded hp, Scope.union]
  dsimp only
  rw [NameSet.names_ofList, List.flatMap_map, List.filter_flatMap, List.flatMap_assoc,
    eraseDups_flatMap_own _ entities.distinct]
  · refine congrArg (List.map Prod.fst) (List.filter_congr fun e _ => ?_)
    rw [Bool.eq_iff_iff, Bool.not_eq_true', List.isEmpty_eq_false_iff, List.any_eq_true, ne_eq,
      List.flatMap_eq_nil_iff]
    simp only [List.mem_filter, not_forall, exists_prop]
    refine exists_congr fun o => ⟨fun h => h.1, fun h => ⟨h, ?_⟩⟩
    rw [hnames e o h.1]
    exact List.cons_ne_nil _ _
  · intro e _ k hk
    obtain ⟨o, ho, hk⟩ := List.mem_flatMap.mp hk
    rw [hnames e o (List.mem_filter.mp ho).1] at hk
    exact List.mem_singleton.mp hk

theorem exists_states_of_mem_folded (hp : p ∈ entities.folded.toList) :
    ∃ entity d, (entity, d) ∈ entities.entries ∧ d.States p := by
  obtain ⟨key, hkey⟩ := OptionTable.mem_toList.mp hp
  obtain ⟨-, o, ho, hmade⟩ := OptionTable.added_of_get?_addAll hkey
  obtain ⟨e, he, hstated⟩ := List.mem_flatMap.mp ho
  refine ⟨e.1, e.2, he, ?_⟩
  rw [hmade]
  exact (EntityDescriptor.mem_statedOptions.mp hstated).2.withScope p.scope

section Legal
variable (hlegal : ∀ entity d, (entity, d) ∈ entities.entries → ∀ o, d.States o → o.Legal)
include hlegal

theorem legal_of_mem_folded (hp : p ∈ entities.folded.toList) : p.Legal := by
  obtain ⟨entity, d, hd, hstates⟩ := exists_states_of_mem_folded hp
  exact hlegal entity d hd p hstates

/-- A folded option lists an entity exactly where the descriptor of the entity states it. -/
theorem mem_included_folded (hd : (entity, d) ∈ entities.entries)
    (hp : p ∈ entities.folded.toList) : entity ∈ p.scope.included ↔ d.States p := by
  have hmem : entity ∈ p.scope.included ↔
      (d.statedOptions entity).any (fun o => o.key == p.key) := by
    change entity ∈ p.scope.included.names ↔ _
    rw [included_folded hp, List.mem_map]
    constructor
    · rintro ⟨⟨_, d'⟩, he, rfl⟩
      obtain ⟨hd', hany⟩ := List.mem_filter.mp he
      have hsame := (Table.find?_eq_some_iff.mpr hd).symm.trans (Table.find?_eq_some_iff.mpr hd')
      exact Option.some.inj hsame ▸ hany
    · exact fun hany => ⟨(entity, d), List.mem_filter.mpr ⟨hd, hany⟩, rfl⟩
  have hplegal := legal_of_mem_folded hlegal hp
  rw [hmem, List.any_eq_true]
  constructor
  · rintro ⟨o, ho, hkey⟩
    have hstates := (EntityDescriptor.mem_statedOptions.mp ho).2
    obtain ⟨hname, hvalue⟩ := (hplegal.key_eq_iff (hlegal entity d hd o hstates)).mp
      (beq_iff_eq.mp hkey).symm
    exact hstates.congr hname hvalue
  · intro hstates
    refine ⟨p.withScope ⟨NameSet.ofList [entity], ∅⟩, ?_, ?_⟩
    · exact EntityDescriptor.mem_statedOptions.mpr ⟨GeneratorOption.scope_withScope p _,
        hstates.withScope _⟩
    · rw [GeneratorOption.key_withScope]
      exact beq_self_eq_true p.key

/-- Whatever a descriptor states is folded. -/
theorem exists_folded (hd : (entity, d) ∈ entities.entries) {o : GeneratorOption}
    (ho : d.States o) : ∃ p ∈ entities.folded.toList, p.name = o.name ∧ p.value? = o.value? := by
  have hstated : o.withScope ⟨NameSet.ofList [entity], ∅⟩ ∈
      entities.entries.flatMap fun e => e.2.statedOptions e.1 := by
    refine List.mem_flatMap.mpr ⟨(entity, d), hd, EntityDescriptor.mem_statedOptions.mpr ⟨?_, ?_⟩⟩
    · rw [GeneratorOption.scope_withScope]
    · exact ho.withScope _
  have hheld : (entities.folded.get? o.key).isSome = true := by
    rw [folded, OptionTable.get?_addAll_empty, GeneratorOption.gathered_isSome_iff]
    exact List.ne_nil_of_mem (List.mem_filter.mpr ⟨hstated, by simp⟩)
  obtain ⟨p, hp⟩ := Option.isSome_iff_exists.mp hheld
  have hmem := OptionTable.mem_toList.mpr ⟨o.key, hp⟩
  have hkey := (OptionTable.added_of_get?_addAll hp).1
  exact ⟨p, hmem, ((legal_of_mem_folded hlegal hmem).key_eq_iff (hlegal entity d hd o ho)).mp hkey⟩

variable (hwildcard : allEntities ∉ entities.keys)
include hwildcard

theorem appliesTo_folded (hd : (entity, d) ∈ entities.entries)
    (hp : p ∈ entities.folded.toList) : p.appliesTo entity = true ↔ d.States p := by
  have hkept : entity ∉ p.scope.excluded := by
    change entity ∉ p.scope.excluded.names
    rw [excluded_folded hp]
    exact List.not_mem_nil
  have hunlisted : allEntities ∉ p.scope.included := by
    change allEntities ∉ p.scope.included.names
    rw [included_folded hp]
    exact fun h => hwildcard ((List.filter_sublist.map Prod.fst).subset h)
  rw [GeneratorOption.appliesTo, Scope.appliesTo_iff, and_iff_right hkept,
    or_iff_right hunlisted, mem_included_folded hlegal hd hp]

/-- Where a descriptor states at most one value under a name, the options of this name that apply to
its entity are exactly the one with the value, or none. -/
theorem applying_folded (hd : (entity, d) ∈ entities.entries) {name : String}
    {v : Option (Option String)}
    (hv : ∀ o : GeneratorOption, o.name = name → (d.States o ↔ v = some o.value?)) :
    ((entities.folded.named name).filter fun o => o.appliesTo entity).map
      GeneratorOption.value? = v.toList := by
  set applying := (entities.folded.named name).filter fun o => o.appliesTo entity with happlying
  have hmem : ∀ p, p ∈ applying ↔
      p ∈ entities.folded.toList ∧ p.name = name ∧ v = some p.value? := by
    intro p
    rw [happlying, List.mem_filter, OptionTable.named, List.mem_filter, beq_iff_eq, and_assoc]
    refine and_congr_right fun hp => and_congr_right fun hname => ?_
    rw [appliesTo_folded hlegal hwildcard hd hp, hv p hname]
  have hnodup : applying.Nodup :=
    ((OptionTable.nodup_toList_addAll _).filter _).filter _
  cases v with
  | none =>
    have hnone : applying = [] := List.eq_nil_iff_forall_not_mem.mpr fun p hp => by
      simpa using ((hmem p).mp hp).2.2
    rw [hnone]
    rfl
  | some w =>
    obtain ⟨o, hname, hvalue⟩ : ∃ o : GeneratorOption, o.name = name ∧ o.value? = w := by
      cases w with
      | none => exact ⟨.unary name Scope.all, rfl, rfl⟩
      | some value => exact ⟨.binary name value Scope.all, rfl, rfl⟩
    obtain ⟨p, hp, hpname, hpvalue⟩ := exists_folded hlegal hd ((hv o hname).mpr (hvalue ▸ rfl))
    have honly : applying = [p] := by
      refine List.perm_singleton.mp ((List.perm_ext_iff_of_nodup hnodup
        (List.nodup_singleton p)).mpr fun q => ?_)
      rw [hmem, List.mem_singleton]
      constructor
      · rintro ⟨hq, hqname, hqvalue⟩
        refine OptionTable.eq_of_key_eq hq hp (((legal_of_mem_folded hlegal hq).key_eq_iff
          (legal_of_mem_folded hlegal hp)).mpr ⟨?_, ?_⟩)
        · rw [hqname, hpname, hname]
        · rw [hpvalue, hvalue, Option.some.inj hqvalue]
      · rintro rfl
        exact ⟨hp, hpname.trans hname, by rw [hpvalue, hvalue]⟩
    rw [honly, List.map_singleton, hpvalue, hvalue]
    rfl

end Legal

/-- The options say what the descriptors state and nothing else: under each name, to an entity
applies the one option that its descriptor states, or none; no name and value occur twice; and an
option lists entities of the descriptors in their order, and excludes none. -/
structure FoldedInto (entities : Descriptors) (t : OptionTable) : Prop where
  values : ∀ entity d, entities.find? entity = some d → ∀ name, OptionName.isBinary name = true →
    ((t.named name).filter fun o => o.appliesTo entity).map GeneratorOption.value? =
      (d.statedValue? name).toList.map some
  flags : ∀ entity d, entities.find? entity = some d → ∀ name, OptionName.isUnary name = true →
    ((t.named name).filter fun o => o.appliesTo entity).map GeneratorOption.value? =
      if d.statesFlag name then [none] else []
  distinct : (t.toList.map fun o => (o.name, o.value?)).Nodup
  known : ∀ o ∈ t.toList, ∀ n ∈ o.scope.included, n ∈ entities.keys
  excluded : ∀ o ∈ t.toList, o.scope.excluded.names = []
  ordered : ∀ o ∈ t.toList, o.scope.included.names.Sublist entities.keys

/-- Reading descriptors folds their options exactly. -/
theorem toModel_folds {m : Model} (h : entities.toModel = .ok m)
    (hwildcard : allEntities ∉ entities.keys) : entities.FoldedInto m.options := by
  have hlegal : ∀ entity d, (entity, d) ∈ entities.entries → ∀ o, d.States o → o.Legal :=
    fun entity d hd o ho => ((toModelFrom_succeeds_iff.mp ⟨m, h⟩).2 entity d hd).legal ho
  have hordered : ∀ o ∈ entities.folded.toList, o.scope.included.names.Sublist entities.keys := by
    intro o ho
    rw [included_folded ho]
    exact List.filter_sublist.map Prod.fst
  rw [toModel_options h]
  refine ⟨fun entity d hd name hbinary => ?_, fun entity d hd name hunary => ?_, ?_,
    fun o ho n hn => (hordered o ho).subset hn, fun o ho => excluded_folded ho, hordered⟩
  · rw [applying_folded hlegal hwildcard (Table.find?_eq_some_iff.mp hd) fun o hname =>
      EntityDescriptor.states_iff_of_isBinary hbinary hname]
    cases d.statedValue? name <;> rfl
  · rw [applying_folded hlegal hwildcard (Table.find?_eq_some_iff.mp hd) fun o hname =>
      EntityDescriptor.states_iff_of_isUnary hunary hname]
    cases d.statesFlag name <;> rfl
  · refine (OptionTable.nodup_toList_addAll _).map_on fun o ho p hp heq => ?_
    obtain ⟨hname, hvalue⟩ := Prod.mk.inj heq
    exact OptionTable.eq_of_key_eq ho hp (((legal_of_mem_folded hlegal ho).key_eq_iff
      (legal_of_mem_folded hlegal hp)).mpr ⟨hname, hvalue⟩)

/-- Descriptors that share a value, set an option to a word for nothing and set flags either way. -/
def bindery : Descriptors :=
  Table.ofList
    [("Volume", { EntityDescriptor.empty with
        dto := some "mapstruct", service := some "no", microserviceName := some "press_room"
        fluentMethods := some false, skipServer := some false }),
      ("Cover", { EntityDescriptor.empty with
        service := some "serviceImpl", pagination := some "", filtering := some true }),
      ("Thread", { EntityDescriptor.empty with
        dto := some "mapstruct", clientRootFolder := some "false", fluentMethods := some true
        skipClient := some true })]

theorem bindery_folds : ∃ m, bindery.toModel = .ok m ∧ allEntities ∉ bindery.keys ∧
    bindery.FoldedInto m.options := by
  have hread : bindery.toModel.toOption.isSome = true := by decide +kernel
  cases hresult : bindery.toModel with
  | error f => simp [hresult, Except.toOption] at hread
  | ok m => exact ⟨m, rfl, by decide, toModel_folds hresult (by decide)⟩

end Descriptors
end DomainModel
