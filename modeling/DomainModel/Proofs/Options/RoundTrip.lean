import DomainModel.Proofs.Descriptors.Conversion
import DomainModel.Proofs.Options.Folding
/-!
# Options there and back

The descriptor of an entity states what the options of the model set for it. Read back, these
statements make options that apply to the entity exactly where they set the same for it.
-/
namespace DomainModel

namespace OptionName

/-- The flags that descriptors tell. -/
def describedFlags : List String := [noFluentMethod, filter, skipClient, skipServer]

theorem isUnary_of_mem_describedFlags {name : String} (h : name ∈ describedFlags) :
    isUnary name = true := by
  have hall : ∀ name ∈ describedFlags, isUnary name = true := by decide
  exact hall name h

theorem isBinary_eq_false_of_mem_describedFlags {name : String} (h : name ∈ describedFlags) :
    isBinary name = false := by
  have hall : ∀ name ∈ describedFlags, isBinary name = false := by decide
  exact hall name h

end OptionName

namespace Model
variable {m : Model}

/-- The model sets the flag for the entity, or the first option of this name that applies to the
entity has this value. -/
def Sets (m : Model) (entity : String) : GeneratorOption → Prop
  | .unary name _ => name ∈ OptionName.describedFlags ∧ m.optionEnabled name entity = true
  | .binary name value _ => m.optionValue? name entity = some value

/-- What it takes that descriptors tell the options of each entity. -/
structure OptionsRestorable (m : Model) : Prop where
  user : userEntityName ∉ m.entities.keys
  wildcard : allEntities ∉ m.entities.keys
  told : ∀ o ∈ m.options.toList,
    o.value? ≠ some EntityDescriptor.noValue ∧ o.value? ≠ some "false"

section Statements
variable (hw : m.WellFormed) (hm : m.OptionsRestorable)
include hw hm

theorem setValue_optionValue? (name entity : String) :
    EntityDescriptor.setValue (m.optionValue? name entity) = m.optionValue? name entity := by
  cases hvalue : m.optionValue? name entity with
  | none => rfl
  | some value =>
    obtain ⟨o, hfind, ho⟩ := Option.bind_eq_some_iff.mp hvalue
    have hmem := (List.mem_filter.mp (List.mem_of_find?_eq_some hfind)).1
    obtain ⟨hno, hfalse⟩ := hm.told o hmem
    have hempty := OptionName.isLegalValue_ne_empty (optionValue?_legal hw hvalue).2
    rw [ho] at hno hfalse
    simp only [ne_eq, Option.some.injEq] at hno hfalse
    simp [EntityDescriptor.setValue, Option.filter, hno, hfalse, hempty]

private theorem setValue_valueOrNo_eq (name entity : String) :
    EntityDescriptor.setValue (m.valueOrNo name entity) = m.optionValue? name entity := by
  rw [valueOrNo]
  cases hvalue : m.optionValue? name entity with
  | none => decide
  | some value =>
    have hset := setValue_optionValue? hw hm name entity
    rwa [hvalue] at hset

theorem binaryOptions_describe (e : Entity) (date : String) :
    (m.describe e date).binaryOptions =
      (OptionName.binaries.map Prod.fst).filterMap fun name =>
        (m.optionValue? name e.name).map fun value => (name, value) := by
  simp only [EntityDescriptor.binaryOptions, describe, OptionName.binaries, List.map_cons,
    List.map_nil, List.filterMap_cons, List.filterMap_nil, setValue_valueOrNo_eq hw hm,
    setValue_optionValue? hw hm]

end Statements

theorem unaryOptions_describe (e : Entity) (date : String) :
    (m.describe e date).unaryOptions =
      OptionName.describedFlags.filter fun name => m.optionEnabled name e.name := by
  have hflag : ∀ b : Bool, (trueOrAbsent b == some true) = b := by decide
  have hfluent : ∀ b : Bool, (some (!b) == some false) = b := by decide
  have hfilter : ∀ b : Bool, (some b == some true) = b := by decide
  simp only [EntityDescriptor.unaryOptions, describe, hflag, hfluent, hfilter]
  change ((OptionName.describedFlags.map fun name =>
    (name, m.optionEnabled name e.name)).filter Prod.snd).map Prod.fst = _
  rw [List.filter_map, List.map_map]
  simp [Function.comp_def]

theorem states_describe_iff (hw : m.WellFormed) (hm : m.OptionsRestorable) {e : Entity}
    {date : String} {o : GeneratorOption} :
    (m.describe e date).States o ↔ m.Sets e.name o := by
  cases o with
  | unary name scope =>
    change (m.describe e date).statesFlag name = true ↔ _
    rw [EntityDescriptor.statesFlag_iff, unaryOptions_describe, List.mem_filter]
    exact Iff.rfl
  | binary name value scope =>
    change (m.describe e date).statedValue? name = some value ↔
      m.optionValue? name e.name = some value
    rw [EntityDescriptor.statedValue?_eq_some, binaryOptions_describe hw hm, List.mem_filterMap]
    constructor
    · rintro ⟨name', -, hvalue⟩
      obtain ⟨value', hset, heq⟩ := Option.map_eq_some_iff.mp hvalue
      obtain ⟨rfl, rfl⟩ := Prod.mk.inj heq
      exact hset
    · intro hset
      obtain ⟨b, hb, hname⟩ := List.any_eq_true.mp (optionValue?_legal hw hset).1
      exact ⟨name, List.mem_map.mpr ⟨b, hb, beq_iff_eq.mp hname⟩, by rw [hset]; rfl⟩

theorem Sets.legal (hw : m.WellFormed) {entity : String} {o : GeneratorOption}
    (h : m.Sets entity o) : o.Legal := by
  cases o with
  | unary name scope => exact OptionName.isUnary_of_mem_describedFlags h.1
  | binary name value scope => exact optionValue?_legal hw h

/-- The options that are read from the descriptors of the model. -/
def readOptions (m : Model) (start : Int) : OptionTable :=
  (∅ : OptionTable).addAll
    ((m.toDescriptors start).entries.flatMap fun e => e.2.statedOptions e.1)

private theorem find?_applying (hw : m.WellFormed) {name : String}
    (hbinary : OptionName.isBinary name = true) (entity : String) :
    ((m.options.named name).find? fun o => o.appliesTo entity).toList.map
      GeneratorOption.value? = (m.optionValue? name entity).toList.map some := by
  unfold optionValue?
  cases hfind : (m.options.named name).find? fun o => o.appliesTo entity with
  | none => rfl
  | some o =>
    obtain ⟨hmem, hname⟩ := List.mem_filter.mp (List.mem_of_find?_eq_some hfind)
    obtain ⟨key, hkey⟩ := Table.mem_values.mp hmem
    obtain rfl := beq_iff_eq.mp hname
    have hvalue := (hw.options key o hkey).2.isSome_value?_iff.mpr hbinary
    obtain ⟨value, hvalue⟩ := Option.isSome_iff_exists.mp hvalue
    simp [hvalue]

private theorem sets_iff_of_isBinary {name : String} (h : OptionName.isBinary name = true)
    {o : GeneratorOption} (hname : o.name = name) (entity : String) :
    m.Sets entity o ↔ (m.optionValue? name entity).map some = some o.value? := by
  subst hname
  cases o with
  | unary name scope =>
    refine iff_of_false (fun hset => ?_) (by simp [GeneratorOption.value?])
    have hflag : OptionName.isBinary name = false :=
      OptionName.isBinary_eq_false_of_mem_describedFlags hset.1
    exact absurd h (by simp [GeneratorOption.name, hflag])
  | binary name value scope => simp [Sets, GeneratorOption.name, GeneratorOption.value?]

private theorem sets_iff_of_flag (hw : m.WellFormed) {name : String}
    (h : name ∈ OptionName.describedFlags) {o : GeneratorOption} (hname : o.name = name)
    (entity : String) :
    m.Sets entity o ↔
      (if m.optionEnabled name entity = true then some none else none) = some o.value? := by
  subst hname
  cases o with
  | unary name scope =>
    refine (and_iff_right h).trans ?_
    by_cases henabled : m.optionEnabled name entity = true <;>
      simp [GeneratorOption.name, GeneratorOption.value?, henabled]
  | binary name value scope =>
    refine iff_of_false (fun hset => ?_) (by simp [GeneratorOption.value?])
    have hbinary := (optionValue?_legal hw hset).1
    have hflag : OptionName.isBinary name = false :=
      OptionName.isBinary_eq_false_of_mem_describedFlags h
    rw [hflag] at hbinary
    cases hbinary

section Read
variable (hw : m.WellFormed) (hm : m.OptionsRestorable) {start : Int}
include hw hm

private theorem legal_of_states {entity : String} {d : EntityDescriptor}
    (hd : (entity, d) ∈ (m.toDescriptors start).entries) {o : GeneratorOption} (ho : d.States o) :
    o.Legal := by
  obtain ⟨e, date, -, rfl⟩ := mem_toDescriptors hw hd
  exact ((states_describe_iff hw hm).mp ho).legal hw

theorem sets_of_mem_readOptions {p : GeneratorOption} (hp : p ∈ (m.readOptions start).toList) :
    ∃ entity ∈ m.entities.keys, m.Sets entity p := by
  obtain ⟨name, d, hd, hstates⟩ := Descriptors.exists_states_of_mem_folded hp
  obtain ⟨e, date, hentity, rfl⟩ := mem_toDescriptors hw hd
  obtain rfl := (hw.entities name e hentity).1
  exact ⟨e.name, Table.mem_keys.mpr ⟨e, hentity⟩, (states_describe_iff hw hm).mp hstates⟩

variable {entity : String} (he : entity ∈ m.entities.keys)
include he

private theorem applying_readOptions {name : String} {v : Option (Option String)}
    (hv : ∀ o : GeneratorOption, o.name = name → (m.Sets entity o ↔ v = some o.value?)) :
    (((m.readOptions start).named name).filter fun o => o.appliesTo entity).map
      GeneratorOption.value? = v.toList := by
  obtain ⟨e, hentity⟩ := Table.mem_keys.mp he
  obtain ⟨date, hd⟩ := exists_toDescriptors hw start hentity
  obtain rfl := (hw.entities entity e hentity).1
  have hwildcard : allEntities ∉ (m.toDescriptors start).keys := by
    rw [keys_toDescriptors hw]
    exact hm.wildcard
  exact Descriptors.applying_folded (fun _ _ hd _ ho => legal_of_states hw hm hd ho) hwildcard hd
    fun o hname => (states_describe_iff hw hm).trans (hv o hname)

theorem filter_readOptions {name : String} (hbinary : OptionName.isBinary name = true) :
    (((m.readOptions start).named name).filter fun o => o.appliesTo entity).map
      GeneratorOption.value? = (m.optionValue? name entity).toList.map some := by
  rw [applying_readOptions hw hm he fun o hname => sets_iff_of_isBinary hbinary hname entity]
  cases m.optionValue? name entity <;> rfl

theorem any_readOptions {name : String} (hflag : name ∈ OptionName.describedFlags) :
    (((m.readOptions start).named name).any fun o => o.appliesTo entity) = true ↔
      m.optionEnabled name entity = true := by
  have happlying : (((m.readOptions start).named name).filter fun o => o.appliesTo entity).map
      GeneratorOption.value? =
        (if m.optionEnabled name entity = true then some none else none).toList :=
    applying_readOptions hw hm he fun o hname => sets_iff_of_flag hw hflag hname entity
  have hany : (((m.readOptions start).named name).any fun o => o.appliesTo entity) = true ↔
      (((m.readOptions start).named name).filter fun o => o.appliesTo entity).map
        GeneratorOption.value? ≠ [] := by
    simp
  rw [hany, happlying]
  by_cases henabled : m.optionEnabled name entity = true <;> simp [henabled]

end Read

/-- Read back, at most one option of a binary name applies to an entity, with the value of the
first that applied before, and the described flags apply as before. -/
theorem options_roundTrip (h : m.Reachable) (hm : m.OptionsRestorable) (start : Int) :
    ∃ m', (m.toDescriptors start).toModel = .ok m' ∧ ∀ entity ∈ m.entities.keys,
      (∀ name, OptionName.isBinary name = true →
        ((m'.options.named name).filter fun o => o.appliesTo entity).map GeneratorOption.value? =
          ((m.options.named name).find? fun o => o.appliesTo entity).toList.map
            GeneratorOption.value?) ∧
      ∀ name ∈ OptionName.describedFlags,
        ((m'.options.named name).any fun o => o.appliesTo entity) =
          (m.options.named name).any fun o => o.appliesTo entity := by
  have hw := h.wellFormed
  obtain ⟨m', hread⟩ := toModel_toDescriptors_succeeds hw hm.user start
  have hm' : m'.options = m.readOptions start := by
    rw [Descriptors.toModelFrom_eq_readInto hread]
    rfl
  refine ⟨m', hread, fun entity he => ⟨fun name hbinary => ?_, fun name hflag => ?_⟩⟩
  · rw [hm']
    exact (filter_readOptions hw hm he hbinary).trans (find?_applying hw hbinary entity).symm
  · rw [hm', Bool.eq_iff_iff]
    exact any_readOptions hw hm he hflag

/-- Options of two entities: one that excludes an entity, two of one name that both apply, a free
value and a flag. -/
def pressOptions : List GeneratorOption :=
  [.binary OptionName.dto "mapstruct" ⟨NameSet.singleton allEntities, NameSet.singleton "Book"⟩,
    .binary OptionName.service "serviceClass" Scope.all,
    .binary OptionName.service "serviceImpl" ⟨NameSet.singleton "Book", ∅⟩,
    .binary OptionName.microservice "store" ⟨NameSet.singleton "Author", ∅⟩,
    .unary OptionName.skipServer ⟨NameSet.singleton "Book", ∅⟩]

def press : Model :=
  { (∅ : Model) with
    entities := ((∅ : Table String Entity).insert "Author" (.named "Author")).insert "Book"
      (.named "Book")
    options := (∅ : OptionTable).addAll pressOptions }

theorem press_roundTrip : press.Reachable ∧ press.OptionsRestorable ∧
    ∃ m', (press.toDescriptors 0).toModel = .ok m' ∧ ∀ entity ∈ press.entities.keys,
      (∀ name, OptionName.isBinary name = true →
        ((m'.options.named name).filter fun o => o.appliesTo entity).map GeneratorOption.value? =
          ((press.options.named name).find? fun o => o.appliesTo entity).toList.map
            GeneratorOption.value?) ∧
      ∀ name ∈ OptionName.describedFlags,
        ((m'.options.named name).any fun o => o.appliesTo entity) =
          (press.options.named name).any fun o => o.appliesTo entity := by
  have hauthor : Reachable _ := .entity .empty
    (addEntity_eq_ok.mpr ⟨(by decide : (Entity.named "Author").problems = []), rfl⟩)
  have hbook : Reachable _ := .entity hauthor
    (addEntity_eq_ok.mpr ⟨(by decide : (Entity.named "Book").problems = []), rfl⟩)
  have hlegal : ∀ o ∈ pressOptions, o.Legal ∧ o.problems = [] := by decide
  have hreach : press.Reachable :=
    hbook.options fun o ho => ⟨(hlegal o ho).1.built, (hlegal o ho).2⟩
  have hrestorable : press.OptionsRestorable := ⟨by decide, by decide, by decide⟩
  exact ⟨hreach, hrestorable, options_roundTrip hreach hrestorable 0⟩

end Model
end DomainModel
