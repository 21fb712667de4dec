import DomainModel.Proofs.Entities.Legibility
import DomainModel.Proofs.Models.Runs
import DomainModel.Proofs.Options.Legibility
import DomainModel.Proofs.Relationships.Legibility
/-!
# Texts of models

The text of a model without applications puts entities, enumerations, relationships and options in
a row. If the parts are legible, it tells all of them in order: nothing that a part shows is lost.
-/
namespace DomainModel

/-- What the text of a model shows. -/
structure ModelOutline where
  entities : List EntityOutline
  enumerations : List Enumeration
  relationships : List (Cardinality × List RelationshipOutline)
  options : List GeneratorOption
  deriving DecidableEq

namespace Model

/-- A model without applications whose parts are legible. -/
structure Legible (m : Model) : Prop where
  applications : m.applications = ∅
  entities : ∀ e ∈ m.entities.values, e.Legible
  enumerations : ∀ e ∈ m.enumerations.values, e.Legible
  relationships : ∀ r ∈ m.relationships.toList, r.Legible
  options : ∀ o ∈ m.options.toList, o.Legible

def outline (m : Model) : ModelOutline where
  entities := m.entities.values.map Entity.outline
  enumerations := m.enumerations.values
  relationships := m.relationships.members.map fun g => (g.1, g.2.map Relationship.outline)
  options := m.options.toList

private theorem full_keptByAdding : KeptByAdding fun m => m.relationships.Full where
  application hm hadd := (addApplication_eq_ok.mp hadd).2 ▸ hm
  entity hm hadd := (addEntity_eq_ok.mp hadd).2 ▸ hm
  enumeration hm hadd := (addEnumeration_eq_ok.mp hadd).2 ▸ hm
  relationship hm hadd := (addRelationship_eq_ok.mp hadd).2 ▸ hm.add _
  option hm hadd := (addOption_eq_ok.mp hadd).2 ▸ hm

theorem Reachable.full {m : Model} (h : m.Reachable) : m.relationships.Full :=
  full_keptByAdding.reachable (by rintro _ ⟨⟩) h

/-- The line feed after a section, unless the section is empty. -/
def gap (isEmpty : Bool) : String := if isEmpty then "" else "\n"

private theorem spacedSection_eq {parts : List String} {isEmpty : Bool}
    (h : isEmpty = true → parts = []) :
    spacedSection parts isEmpty = sectionText parts ++ gap isEmpty := by
  cases isEmpty with
  | true => simp [spacedSection, gap, h rfl, sectionText, concat]
  | false => rfl

/-- The text of a declared part, with the line feed after it. -/
def declaredText : Entity ⊕ Enumeration → String :=
  Sum.elim (fun e => e.text ++ "\n") fun e => e.text ++ "\n"

def declared (m : Model) : List (Entity ⊕ Enumeration) :=
  m.entities.values.map Sum.inl ++ m.enumerations.values.map Sum.inr

private def DeclaredLegible : Entity ⊕ Enumeration → Prop :=
  Sum.elim (fun e => e.Legible ∧ e.problems = []) Enumeration.Legible

private theorem tells_declared : Tells (fun l => ∀ x ∈ l, DeclaredLegible x)
    (fun c => c != '/' && c != 'e') (fun l => concat (l.map declaredText))
    (List.map (Sum.map Entity.outline id)) := by
  have hpart := Entity.tells_line.sum Enumeration.tells_line
    fun e n r s he hn => Entity.line_apart he.1 hn
  have hcomment : ∀ (comment : Option String) (t : List Char), Opens (fun c => c == 'e') t →
      Opens (fun c => c == '/' || c == 'e') ((optionalComment comment).toList ++ t) := by
    intro comment t ht
    cases comment with
    | none => exact ht.imp (of_beq rfl)
    | some comment =>
      simp only [optionalComment, commentBlock, String.toList_append, List.append_assoc]
      exact opens_append rfl _
  refine hpart.concat ?_ (fun _ _ => rfl) (of_beq_or_beq (c := '/') (d := 'e') rfl rfl)
  rintro (e | e) _
  · simp only [Sum.elim_inl, Entity.text, Entity.headText, String.toList_append, List.append_assoc]
    exact hcomment _ _ (opens_append rfl _)
  · simp only [Sum.elim_inr, Enumeration.text, String.toList_append, List.append_assoc]
    exact hcomment _ _ (opens_append rfl _)

private theorem tells_groups : Tells
    (fun l : List (Cardinality × List Relationship) => ∀ g ∈ l, g.2 ≠ [] ∧ ∀ r ∈ g.2, r.Legible)
    (fun c => c != 'r') (fun l => concat (l.map Relationship.groupText))
    (List.map fun g => (g.1, g.2.map Relationship.outline)) :=
  Relationship.tells_groupText.concat (fun g _ => Relationship.opens_groupText g)
    (fun _ _ => rfl) (of_beq rfl)

private theorem tells_options : Tells
    (fun l : List GeneratorOption => ∀ o ∈ l, o.Legal ∧ o.Legible) (fun _ => false)
    (fun l => concat (l.map fun o => o.text ++ "\n")) (List.map fun o => o) :=
  GeneratorOption.tells_line.concat (fun _ ho => ho.1.opens_line) (fun _ _ => rfl)
    fun _ _ => rfl

private theorem concat_declared {m : Model} : concat (m.declared.map declaredText) =
    sectionText (m.entities.values.map Entity.text) ++
      sectionText (m.enumerations.values.map Enumeration.text) := by
  simp only [declared, sectionText, List.map_append, concat_append, List.map_map,
    Function.comp_def, declaredText, Sum.elim_inl, Sum.elim_inr]

private theorem text_eq {m : Model} (h : m.Reachable) (happlications : m.applications = ∅) :
    m.text = concat (m.declared.map declaredText) ++ (gap m.enumerations.isEmpty ++
      (concat (m.relationships.members.map Relationship.groupText) ++
        (gap m.relationships.isEmpty ++
          concat (m.options.toList.map fun o => o.text ++ "\n")))) := by
  have hnone : spacedSection (m.applications.values.map Application.text)
      m.applications.isEmpty = "" := by
    rw [happlications]
    rfl
  have henumerations : m.enumerations.isEmpty = true →
      m.enumerations.values.map Enumeration.text = [] := by
    intro hempty
    rw [← Table.isEmpty_values, List.isEmpty_iff] at hempty
    rw [hempty, List.map_nil]
  have hgroups : m.relationships.isEmpty = true → m.relationships.blocks = [] := by
    intro hempty
    rw [h.full.isEmpty_eq, List.isEmpty_iff] at hempty
    rw [h.full.blocks_eq, hempty, List.map_nil]
  rw [text, hnone, spacedSection_eq henumerations, spacedSection_eq hgroups, concat_declared,
    h.full.blocks_eq]
  simp only [sectionText, List.map_map, Function.comp_def, String.append_assoc,
    String.empty_append]
  rfl

private theorem starts_gap {p : Char → Bool} (hp : p '\n' = true) (isEmpty : Bool) :
    Starts p (gap isEmpty).toList := by
  cases isEmpty with
  | true => exact starts_nil
  | false => exact starts_cons hp

private theorem inl_append_inr {α β : Type} {l l' : List α} {k k' : List β}
    (h : l.map Sum.inl ++ k.map Sum.inr = l'.map Sum.inl ++ k'.map Sum.inr) : l = l' ∧ k = k' := by
  constructor
  · simpa [List.filterMap_map, Function.comp_def] using congrArg (List.filterMap Sum.getLeft?) h
  · simpa [List.filterMap_map, Function.comp_def] using congrArg (List.filterMap Sum.getRight?) h

variable {m m' : Model}

section Parts
variable (h : m.Reachable) (hm : m.Legible)
include h hm

private theorem declared_legible : ∀ x ∈ m.declared, DeclaredLegible x := by
  intro x hx
  rcases List.mem_append.mp hx with hx | hx
  · obtain ⟨e, he, rfl⟩ := List.mem_map.mp hx
    obtain ⟨name, hname⟩ := Table.mem_values.mp he
    exact ⟨hm.entities e he, (h.filed.entities name e hname).2⟩
  · obtain ⟨e, he, rfl⟩ := List.mem_map.mp hx
    exact hm.enumerations e he

private theorem members_legible :
    ∀ g ∈ m.relationships.members, g.2 ≠ [] ∧ ∀ r ∈ g.2, r.Legible :=
  fun g hg => ⟨h.full g hg, fun r hr =>
    hm.relationships r (RelationshipTable.mem_toList_of_mem_members hg hr)⟩

private theorem options_legible : ∀ o ∈ m.options.toList, o.Legal ∧ o.Legible := by
  intro o ho
  obtain ⟨key, hkey⟩ := Table.mem_values.mp ho
  exact ⟨(h.wellFormed.options key o hkey).2, hm.options o ho⟩

private theorem starts_afterGroups {p : Char → Bool} (hfeed : p '\n' = true)
    (hoption : ∀ c, (c.isLower && c != 'e' && c != 'r') = true → p c = true) :
    Starts p ((gap m.relationships.isEmpty).toList ++
      (concat (m.options.toList.map fun o => o.text ++ "\n")).toList) := by
  refine (starts_gap hfeed _).append (starts_concat fun s hs => ?_)
  obtain ⟨o, ho, rfl⟩ := List.mem_map.mp hs
  exact (options_legible h hm o ho).1.opens_line.imp hoption

private theorem starts_afterDeclared : Starts (fun c => c != '/' && c != 'e')
    ((gap m.enumerations.isEmpty).toList ++
      ((concat (m.relationships.members.map Relationship.groupText)).toList ++
        ((gap m.relationships.isEmpty).toList ++
          (concat (m.options.toList.map fun o => o.text ++ "\n")).toList))) := by
  refine (starts_gap rfl _).append ((starts_concat fun s hs => ?_).append ?_)
  · obtain ⟨g, -, rfl⟩ := List.mem_map.mp hs
    exact (Relationship.opens_groupText g).imp (of_beq rfl)
  · refine starts_afterGroups h hm rfl fun c hc => ?_
    rw [Bool.and_eq_true_iff, Bool.and_eq_true_iff] at hc
    refine Bool.and_eq_true_iff.mpr ⟨bne_iff_ne.mpr ?_, hc.1.2⟩
    rintro rfl
    exact absurd hc.1.1 (by decide)

end Parts

/-- Models whose texts are equal show the same entities, enumerations, relationships and options, in
the same order. -/
theorem outline_eq_of_text_eq (h : m.Reachable) (h' : m'.Reachable) (hm : m.Legible)
    (hm' : m'.Legible) (htext : m.text = m'.text) : m.outline = m'.outline := by
  rw [text_eq h hm.applications, text_eq h' hm'.applications] at htext
  have hlist := congrArg String.toList htext
  simp only [String.toList_append] at hlist
  obtain ⟨hdeclared, hlist⟩ := tells_declared (declared_legible h hm) (declared_legible h' hm')
    (starts_afterDeclared h hm) (starts_afterDeclared h' hm') hlist
  obtain ⟨hentities, henumerations⟩ : m.entities.values.map Entity.outline =
      m'.entities.values.map Entity.outline ∧ m.enumerations.values = m'.enumerations.values := by
    refine inl_append_inr ?_
    simpa [declared, Function.comp_def] using hdeclared
  rw [← Table.isEmpty_values, henumerations, Table.isEmpty_values] at hlist
  obtain ⟨hgroups, hlist⟩ := tells_groups (members_legible h hm) (members_legible h' hm')
    (starts_afterGroups h hm rfl fun _ hc => (Bool.and_eq_true_iff.mp hc).2)
    (starts_afterGroups h' hm' rfl fun _ hc => (Bool.and_eq_true_iff.mp hc).2)
    (List.append_cancel_left hlist)
  have hsome : m.relationships.isEmpty = m'.relationships.isEmpty := by
    have hlengths := congrArg List.isEmpty hgroups
    rwa [List.isEmpty_map, List.isEmpty_map, ← h.full.isEmpty_eq, ← h'.full.isEmpty_eq] at hlengths
  rw [hsome] at hlist
  have hoptions := tells_options.inj (options_legible h hm) (options_legible h' hm')
    (String.toList_inj.mp (List.append_cancel_left hlist))
  rw [List.map_id', List.map_id'] at hoptions
  rw [outline, outline, ModelOutline.mk.injEq]
  exact ⟨hentities, henumerations, hgroups, hoptions⟩

/-- A field that has a least value. -/
def weight (least : Json) : Field :=
  (Field.named "weight" "Integer").addValidation ⟨"min", some least⟩

def parcel (least : Json) : Entity :=
  { (Entity.named "Parcel").addField (weight least) with
    comment := some "What is sent.\n\nAt one time." }

def depot : Entity := { Entity.named "Depot" with tableName := "depots" }

def sizes : Enumeration := .named "Size" ["SMALL", "LARGE"]

def storage (ownerSide : Option Bool) : Relationship :=
  { Relationship.between .manyToOne "Parcel" "Depot" with
    injectedInSource := some "depot(name)", requiredInSource := some true
    commentInDestination := some "The last one.", ownerSide }

def transfer : GeneratorOption :=
  .binary "dto" "mapstruct" ⟨NameSet.singleton allEntities, NameSet.singleton "Depot"⟩

/-- Parcels that are stored in depots. -/
def shipping (least : Json) (ownerSide : Option Bool) : Model :=
  { (∅ : Model) with
    entities := ((∅ : Table String Entity).insert "Parcel" (parcel least)).insert "Depot" depot
    enumerations := (∅ : Table String Enumeration).insert "Size" sizes
    relationships := (∅ : RelationshipTable).addAll [storage ownerSide]
    options := (∅ : OptionTable).addAll [transfer] }

theorem shipping_reachable {least : Json} (hleast : (parcel least).problems = [])
    (ownerSide : Option Bool) : (shipping least ownerSide).Reachable := by
  have hparcel : Reachable _ := .entity .empty (addEntity_eq_ok.mpr ⟨hleast, rfl⟩)
  have hdepot : Reachable _ :=
    .entity hparcel (addEntity_eq_ok.mpr ⟨(by decide : depot.problems = []), rfl⟩)
  have hsize : Reachable _ :=
    .enumeration hdepot (addEnumeration_eq_ok.mpr ⟨(by decide : sizes.problems = []), rfl⟩)
  have hstorage : ∀ r ∈ [storage ownerSide], r.problems = [] :=
    fun r hr => List.mem_singleton.mp hr ▸ rfl
  have htransfer : ∀ o ∈ [transfer], o.Built ∧ o.problems = [] := fun o ho =>
    List.mem_singleton.mp ho ▸ ⟨GeneratorOption.Legal.built (by decide), by decide⟩
  exact (hsize.relationships hstorage).options htransfer

theorem shipping_legible {least : Json} (hleast : Validation.Legible ⟨"min", some least⟩)
    (ownerSide : Option Bool) : (shipping least ownerSide).Legible := by
  have hword : ∀ s ∈ ["weight", "Integer", "Parcel", "Depot"], isIdentifier s = true := by decide
  have hweight : (weight least).Legible := by
    refine ⟨hword "weight" (by simp), hword "Integer" (by simp), by rintro _ ⟨⟩, fun v hv => ?_⟩
    rw [show (weight least).validations.values = [⟨"min", some least⟩] from rfl] at hv
    exact List.mem_singleton.mp hv ▸ hleast
  have hparcel : (parcel least).Legible := by
    refine ⟨hword "Parcel" (by simp), hword "Parcel" (by simp), by rintro _ ⟨⟩; decide,
      fun f hf => ?_⟩
    rw [show (parcel least).fields.values = [weight least] from rfl] at hf
    exact List.mem_singleton.mp hf ▸ hweight
  have hdepot : depot.Legible := ⟨by decide, by decide, by rintro _ ⟨⟩, by rintro _ ⟨⟩⟩
  have hstorage : (storage ownerSide).Legible :=
    ⟨hword "Parcel" (by simp), hword "Depot" (by simp),
      by rintro _ ⟨⟩; exact ⟨⟨"depot", some "name"⟩, by decide, by decide, rfl⟩,
      by rintro _ ⟨⟩, by rintro _ ⟨⟩, by rintro _ ⟨⟩; decide⟩
  refine ⟨rfl, fun e he => ?_, fun e he => ?_, fun r hr => ?_, fun o ho => ?_⟩
  · rw [show (shipping least ownerSide).entities.values = [parcel least, depot] from rfl] at he
    rcases List.mem_pair.mp he with rfl | rfl
    · exact hparcel
    · exact hdepot
  · rw [show (shipping least ownerSide).enumerations.values = [sizes] from rfl] at he
    rw [List.mem_singleton.mp he]
    exact ⟨by decide, by decide, by rintro _ ⟨⟩⟩
  · rw [show (shipping least ownerSide).relationships.toList = [storage ownerSide] from rfl] at hr
    exact List.mem_singleton.mp hr ▸ hstorage
  · rw [show (shipping least ownerSide).options.toList = [transfer] from rfl] at ho
    rw [List.mem_singleton.mp ho]
    exact ⟨by decide, by rintro _ ⟨⟩; decide⟩

/-- A number is written like the text of its digits, and who owns the join is not written. -/
theorem shipping_told : (shipping (.int 1) none).Reachable ∧
    (shipping (.text "1") (some true)).Reachable ∧ (shipping (.int 1) none).Legible ∧
    (shipping (.text "1") (some true)).Legible ∧
    (shipping (.int 1) none).text = (shipping (.text "1") (some true)).text ∧
    (shipping (.int 1) none).outline = (shipping (.text "1") (some true)).outline := by
  have hreach := shipping_reachable (by decide : (parcel (.int 1)).problems = []) none
  have hreach' := shipping_reachable (by decide : (parcel (.text "1")).problems = []) (some true)
  have hlegible := shipping_legible
    (by decide : Validation.Legible ⟨"min", some (.int 1)⟩) none
  have hlegible' := shipping_legible
    (by decide : Validation.Legible ⟨"min", some (.text "1")⟩) (some true)
  have htext : (shipping (.int 1) none).text = (shipping (.text "1") (some true)).text := by
    decide +kernel
  exact ⟨hreach, hreach', hlegible, hlegible', htext,
    outline_eq_of_text_eq hreach hreach' hlegible hlegible' htext⟩

end Model
end DomainModel
