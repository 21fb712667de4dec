import DomainModel.Proofs.Options.Collection
/-!
# Options added in turn

A collection holds one option for each key that was added, with the names of all scopes under this
key, so the order of additions does not tell where an option applies. An addition may take entities
away from an option, but only those that a merged scope excludes.
-/
namespace DomainModel

namespace GeneratorOption

theorem isUnary_eq_isNone (o : GeneratorOption) : o.isUnary = o.value?.isNone := by
  cases o <;> rfl

theorem appliesTo_gathered_perm {l l' : List GeneratorOption} (h : l.Perm l') (entity : String) :
    (gathered l).map (fun p => p.appliesTo entity) =
      (gathered l').map fun p => p.appliesTo entity := by
  cases l with
  | nil => rw [h.nil_eq]
  | cons o rest =>
    have hne : l' ≠ [] := by
      intro hnil
      rw [hnil] at h
      simpa using h.length_eq
    obtain ⟨p', hp'⟩ := Option.isSome_iff_exists.mp (gathered_isSome_iff.mpr hne)
    have hp : gathered (o :: rest) = some (o.withScope (Scope.union ((o :: rest).map scope))) := rfl
    rw [hp, hp', Option.map_some, Option.map_some, Option.some.injEq, Bool.eq_iff_iff,
      appliesTo_gathered_iff hp, appliesTo_gathered_iff hp']
    simp only [h.mem_iff]

end GeneratorOption

namespace OptionTable

theorem keys_add (t : OptionTable) (o : GeneratorOption) :
    (t.add o).table.keys =
      if o.key ∈ t.table.keys then t.table.keys else t.table.keys ++ [o.key] := by
  unfold add
  cases t.table.find? o.key <;> exact Table.keys_insert _ _ _

theorem keys_addAll_empty (l : List GeneratorOption) :
    ((∅ : OptionTable).addAll l).table.keys = (l.map GeneratorOption.key).eraseDups :=
  keys_foldl (fun t : OptionTable => t.table.keys) keys_add rfl l

theorem exists_get?_addAll_empty {l : List GeneratorOption} (hl : ∀ o ∈ l, o.Legal)
    {o : GeneratorOption} (ho : o ∈ l) :
    ∃ e, ((∅ : OptionTable).addAll l).get? o.key = some e ∧ e = o.withScope e.scope := by
  have hfiled : l.filter (fun p => p.key == o.key) ≠ [] :=
    List.ne_nil_of_mem (List.mem_filter.mpr ⟨ho, beq_self_eq_true o.key⟩)
  obtain ⟨e, he⟩ := Option.isSome_iff_exists.mp (GeneratorOption.gathered_isSome_iff.mpr hfiled)
  rw [← get?_addAll_empty] at he
  obtain ⟨hkey, p, hp, hmade⟩ := added_of_get?_addAll he
  have hsame : p.key = o.key := by
    rwa [hmade, GeneratorOption.key_withScope] at hkey
  obtain ⟨hname, hvalue⟩ := ((hl p hp).key_eq_iff (hl o ho)).mp hsame
  refine ⟨e, he, GeneratorOption.eq_of_name_value_scope ?_ ?_ ?_⟩
  · rw [hmade, GeneratorOption.name_withScope, GeneratorOption.name_withScope, hname]
  · rw [hmade, GeneratorOption.value?_withScope, GeneratorOption.value?_withScope, hvalue]
  · rw [GeneratorOption.scope_withScope]

/-- What a collection holds after options are added in turn: an entry for each key, in order of
first addition, with the names of all scopes added under it. -/
structure Gathers (t : OptionTable) (l : List GeneratorOption) : Prop where
  keys : t.table.keys = (l.map GeneratorOption.key).eraseDups
  held : ∀ o ∈ l, ∃ e, t.get? o.key = some e ∧ e = o.withScope e.scope
  shared : ∀ o ∈ l, ∀ p ∈ l, (∃ e, t.get? o.key = some e ∧ t.get? p.key = some e) ↔
    o.isUnary = p.isUnary ∧ o.name = p.name ∧ o.value? = p.value?
  included : ∀ key e, t.get? key = some e → e.scope.included.names =
    ((l.filter fun o => o.key == key).flatMap fun o => o.scope.included.names).eraseDups
  excluded : ∀ key e, t.get? key = some e → e.scope.excluded.names =
    ((l.filter fun o => o.key == key).flatMap fun o => o.scope.excluded.names).eraseDups
  reordered : ∀ l', l.Perm l' → ∀ key entity, (t.get? key).map (fun e => e.appliesTo entity) =
    (((∅ : OptionTable).addAll l').get? key).map fun e => e.appliesTo entity
  merged : ∀ key e entity, t.get? key = some e → e.appliesTo entity = true →
    ∃ o ∈ l, o.key = key ∧ o.appliesTo entity = true

private theorem shared_addAll {l : List GeneratorOption} (hl : ∀ o ∈ l, o.Legal)
    {o p : GeneratorOption} (ho : o ∈ l) (hp : p ∈ l) :
    (∃ e, ((∅ : OptionTable).addAll l).get? o.key = some e ∧
        ((∅ : OptionTable).addAll l).get? p.key = some e) ↔
      o.isUnary = p.isUnary ∧ o.name = p.name ∧ o.value? = p.value? := by
  rw [GeneratorOption.isUnary_eq_isNone, GeneratorOption.isUnary_eq_isNone]
  constructor
  · rintro ⟨e, hoe, hpe⟩
    have hkey : o.key = p.key :=
      (added_of_get?_addAll hoe).1.symm.trans (added_of_get?_addAll hpe).1
    obtain ⟨hname, hvalue⟩ := ((hl o ho).key_eq_iff (hl p hp)).mp hkey
    exact ⟨by rw [hvalue], hname, hvalue⟩
  · rintro ⟨-, hname, hvalue⟩
    have hkey := ((hl o ho).key_eq_iff (hl p hp)).mpr ⟨hname, hvalue⟩
    obtain ⟨e, he, -⟩ := exists_get?_addAll_empty hl ho
    exact ⟨e, he, hkey ▸ he⟩

/-- Options made from names and values and given any scopes are gathered by their kinds, names and
values, and the order in which they are added does not tell where they apply. -/
theorem addAll_gathers {l : List GeneratorOption} (hl : ∀ o ∈ l, o.Built) :
    ((∅ : OptionTable).addAll l).Gathers l := by
  have hlegal : ∀ o ∈ l, o.Legal := fun o ho => (hl o ho).legal
  refine ⟨keys_addAll_empty l, fun o ho => exists_get?_addAll_empty hlegal ho,
    fun o ho p hp => shared_addAll hlegal ho hp, ?included, ?excluded, ?reordered, ?merged⟩
  case included =>
    intro key e he
    rw [get?_addAll_empty] at he
    rw [(GeneratorOption.gathered_eq_some he).1, Scope.union, NameSet.names_ofList,
      List.flatMap_map]
  case excluded =>
    intro key e he
    rw [get?_addAll_empty] at he
    rw [(GeneratorOption.gathered_eq_some he).1, Scope.union, NameSet.names_ofList,
      List.flatMap_map]
  case reordered =>
    intro l' h key entity
    rw [get?_addAll_empty, get?_addAll_empty]
    exact GeneratorOption.appliesTo_gathered_perm (h.filter _) entity
  case merged =>
    intro key e entity he happlies
    rw [get?_addAll_empty] at he
    obtain ⟨o, ho, happlies⟩ := GeneratorOption.exists_appliesTo_of_gathered he happlies
    obtain ⟨hmem, hkey⟩ := List.mem_filter.mp ho
    exact ⟨o, hmem, beq_iff_eq.mp hkey, happlies⟩

/-- Options of a photo studio: two that merge, and free values that look like cut keys. -/
def studioOptions : List GeneratorOption :=
  [.binary OptionName.dto "mapstruct" ⟨NameSet.ofList ["Photo", "Album"], ∅⟩,
    .binary OptionName.microservice "photo_lab" Scope.all,
    .unary OptionName.filter ⟨NameSet.ofList [allEntities, "Print"], NameSet.ofList ["Album"]⟩,
    .binary OptionName.dto "mapstruct" ⟨NameSet.ofList ["Album", "Print"],
      NameSet.ofList ["Photo"]⟩,
    .binary OptionName.angularSuffix "photo_lab" ⟨NameSet.ofList ["Print"], ∅⟩]

theorem studioOptions_gathered : (∀ o ∈ studioOptions, o.Built) ∧
    ((∅ : OptionTable).addAll studioOptions).Gathers studioOptions := by
  have hlegal : ∀ o ∈ studioOptions, o.Legal := by decide
  have hbuilt : ∀ o ∈ studioOptions, o.Built := fun o ho => (hlegal o ho).built
  exact ⟨hbuilt, addAll_gathers hbuilt⟩

theorem appliesTo_held_add {t : OptionTable} {o e : GeneratorOption}
    (he : (t.add o).get? o.key = some e) (entity : String) :
    e.appliesTo entity = true ↔
      (entity ∉ o.scope.excluded ∧
        ∀ held, t.get? o.key = some held → entity ∉ held.scope.excluded) ∧
      ((allEntities ∈ o.scope.included ∨ entity ∈ o.scope.included) ∨
        ∃ held, t.get? o.key = some held ∧
          (allEntities ∈ held.scope.included ∨ entity ∈ held.scope.included)) := by
  rw [get?_add, if_pos rfl] at he
  rw [GeneratorOption.appliesTo_gathered_iff he]
  cases t.get? o.key with
  | none => simp
  | some held => simp [and_comm, or_comm]

theorem exists_get?_add (t : OptionTable) (o : GeneratorOption) :
    ∃ e, (t.add o).get? o.key = some e := by
  rw [get?_add, if_pos rfl, ← Option.isSome_iff_exists, GeneratorOption.gathered_isSome_iff]
  simp

/-- An addition loses nothing but what is excluded: the option under its key applies to whatever the
added one applies to, unless the option held before excludes it, and every option still applies to
whatever it applied to, unless it is the one under this key and the added one excludes it. -/
theorem appliesTo_add (t : OptionTable) (o : GeneratorOption) :
    (∃ e, (t.add o).get? o.key = some e ∧ ∀ entity, o.appliesTo entity = true →
      (e.appliesTo entity = true ↔
        ∀ held, t.get? o.key = some held → entity ∉ held.scope.excluded)) ∧
    ∀ key held, t.get? key = some held → ∃ e, (t.add o).get? key = some e ∧
      ∀ entity, held.appliesTo entity = true →
        (e.appliesTo entity = true ↔ (key = o.key → entity ∉ o.scope.excluded)) := by
  obtain ⟨e, he⟩ := exists_get?_add t o
  constructor
  · refine ⟨e, he, fun entity happlies => ?_⟩
    obtain ⟨hkept, hincluded⟩ := Scope.appliesTo_iff.mp happlies
    rw [appliesTo_held_add he, and_iff_left (.inl hincluded), and_iff_right hkept]
  · intro key held hheld
    by_cases hkey : key = o.key
    · subst hkey
      refine ⟨e, he, fun entity happlies => ?_⟩
      obtain ⟨hkept, hincluded⟩ := Scope.appliesTo_iff.mp happlies
      rw [appliesTo_held_add he, and_iff_left (.inr ⟨held, hheld, hincluded⟩)]
      simp [hheld, hkept]
    · have hsame : (t.add o).get? key = some held := by
        rw [get?_add, if_neg (Ne.symm hkey), hheld]
      exact ⟨held, hsame, fun entity happlies => by simp [happlies, hkey]⟩

/-- The microservice of the photos. -/
def photoService : GeneratorOption :=
  .binary OptionName.microservice "lab" ⟨NameSet.ofList ["Photo"], ∅⟩

/-- The same microservice for all entities but the photos. -/
def otherService : GeneratorOption :=
  .binary OptionName.microservice "lab" ⟨NameSet.singleton allEntities, NameSet.ofList ["Photo"]⟩

/-- Where scopes exclude names, an addition may have no effect for an entity that the added option
applies to, and may take an entity away from the held one. -/
theorem photoService_lost :
    (¬ ∀ (l : List GeneratorOption) (o : GeneratorOption), (∀ p ∈ l, p.Built) → o.Built →
      ∃ e, (((∅ : OptionTable).addAll l).add o).get? o.key = some e ∧
        ∀ entity, o.appliesTo entity = true → e.appliesTo entity = true) ∧
    ¬ ∀ (l : List GeneratorOption) (o : GeneratorOption), (∀ p ∈ l, p.Built) → o.Built →
      ∀ key held, ((∅ : OptionTable).addAll l).get? key = some held →
        ∃ e, (((∅ : OptionTable).addAll l).add o).get? key = some e ∧
          ∀ entity, held.appliesTo entity = true → e.appliesTo entity = true := by
  have hphoto : photoService.Built := GeneratorOption.Legal.built (by decide)
  have hother : otherService.Built := GeneratorOption.Legal.built (by decide)
  have hexcluded : "Photo" ∈ otherService.scope.excluded := by decide
  constructor
  · intro hclaim
    obtain ⟨e, he, hkeeps⟩ := hclaim [otherService] photoService (by simpa using hother) hphoto
    have happlies := (appliesTo_held_add he "Photo").mp (hkeeps "Photo" (by decide))
    exact happlies.1.2 otherService (by decide) hexcluded
  · intro hclaim
    obtain ⟨e, he, hkeeps⟩ := hclaim [photoService] otherService (by simpa using hphoto) hother
      otherService.key photoService (by decide)
    have happlies := (appliesTo_held_add he "Photo").mp (hkeeps "Photo" (by decide))
    exact happlies.1.1 hexcluded

end OptionTable
end DomainModel
