import DomainModel.Proofs.Documents.Resolution
import DomainModel.Proofs.Documents.Declarations
/-!
# The entities that a document declares

Entities, fields and validations are filed under their names. On each of these levels the first
declaration of a name gives the place and the last one the contents.
-/
namespace DomainModel

/-- The field that an item of a body declares. -/
def BodyItem.field? : BodyItem → Option DeclaredField
  | .field f => some f
  | _ => none

theorem CommentState.fields_describeLast (text : String)
    (l : List (DeclaredField × Option String)) :
    (describeLast text l).map Prod.fst = l.map Prod.fst := by
  induction l with
  | nil => rfl
  | cons x rest ih =>
    cases rest with
    | nil => rfl
    | cons y rest => exact congrArg (x.1 :: ·) ih

theorem fields_commentedFields (body : List BodyItem) :
    (commentedFields body).map Prod.fst = body.filterMap BodyItem.field? := by
  have hrun : ∀ s : CommentState, (body.foldl CommentState.step s).done.map Prod.fst =
      s.done.map Prod.fst ++ body.filterMap BodyItem.field? := by
    induction body with
    | nil => simp
    | cons item rest ih =>
      intro s
      rw [List.foldl_cons, ih]
      cases item with
      | field f => simp [CommentState.step, BodyItem.field?]
      | separator => rfl
      | comment text form =>
        rw [CommentState.step]
        split
        · exact congrArg (· ++ _) (CommentState.fields_describeLast text s.done)
        · rfl
  exact hrun CommentState.start

namespace Document
variable {d : Document} {target : Target} {draw : Nat → Secrets} {m m' : Model}

/-- The value of a constant that the declared value names, or else the declared value. -/
structure Settles (d : Document) (declared value : Option Json) : Prop where
  constant : ∀ name c, declared = some (.text name) → d.constants.find? name = some c →
    value = some c
  literal : (∀ name, declared = some (.text name) → d.constants.find? name = none) →
    value = declared

theorem settles_resolveConstant (d : Document) (declared : Option Json) :
    d.Settles declared (declared.map d.resolveConstant) := by
  constructor
  · rintro name c rfl hc
    simp [resolveConstant, hc]
  · intro hnone
    cases declared with
    | none => rfl
    | some v =>
      refine congrArg some ?_
      unfold resolveConstant
      split
      · next name => rw [hnone name rfl]; rfl
      · rfl

/-- The field that a declared field with a comment describes. -/
structure DescribesField (d : Document) (declared : DeclaredField × Option String) (f : Field) :
    Prop where
  name : f.name = declared.1.name
  type : f.type = declared.1.type
  comment : f.comment = declared.2
  validations : f.validations.HoldsLast declared.1.validations DeclaredValidation.key
    fun v w => w.name = v.key ∧ d.Settles v.value w.value

/-- The entity that a declaration describes: all its fields but those named `id`. -/
structure DescribesEntity (d : Document) (declared : DeclaredEntity) (e : Entity) : Prop where
  name : e.name = declared.name
  tableName : e.tableName = declared.tableName.getD declared.name
  comment : e.comment = declared.comment
  commented : (commentedFields declared.body).map Prod.fst = declared.body.filterMap BodyItem.field?
  fields : e.fields.HoldsLast ((commentedFields declared.body).filter fun x => x.1.name != "id")
    (fun x => x.1.name) d.DescribesField

theorem buildField_eq (d : Document) (f : DeclaredField) (comment : Option String) :
    d.buildField f comment =
      { Field.named f.name f.type with
        comment := comment
        validations := (∅ : Table String Validation).insertAll
          (f.validations.map fun v => (v.key, ⟨v.key, v.value.map d.resolveConstant⟩)) } := by
  have hrun : ∀ (l : List DeclaredValidation) (g : Field),
      l.foldl (fun g v => g.addValidation ⟨v.key, v.value.map d.resolveConstant⟩) g =
        { g with
          validations := g.validations.insertAll
            (l.map fun v => (v.key, ⟨v.key, v.value.map d.resolveConstant⟩)) } := by
    intro l
    induction l with
    | nil => exact fun _ => rfl
    | cons v rest ih => exact fun g => ih (g.addValidation _)
  exact hrun f.validations _

theorem buildField_describes (x : DeclaredField × Option String) :
    d.DescribesField x (d.buildField x.1 x.2) := by
  rw [buildField_eq]
  exact ⟨rfl, rfl, rfl,
    Table.holdsLast_insertAll fun v _ => ⟨rfl, d.settles_resolveConstant v.value⟩⟩

theorem entityOf_describes (declared : DeclaredEntity) :
    d.DescribesEntity declared (d.entityOf declared) := by
  refine ⟨rfl, rfl, rfl, fields_commentedFields declared.body, ?_⟩
  have hname : ∀ x : DeclaredField × Option String, (d.buildField x.1 x.2).name = x.1.name :=
    fun x => (buildField_describes x).name
  simp only [entityOf, hname]
  exact Table.holdsLast_insertAll fun x _ => buildField_describes x

theorem addEntities_adds (h : d.addEntities target m = .ok m') :
    m' = { m with entities :=
      m.entities.insertAll (d.entities.map fun e => (e.name, d.entityOf e)) } := by
  rw [Table.insertAll, List.foldl_map]
  apply Outcome.foldlM_rewrites
    (fun t => Model.mk m.applications t m.enumerations m.relationships m.options) h
  intro e _ t k hstep
  obtain ⟨_, hbuilt, hadd⟩ := Outcome.bind_eq_ok.mp hstep
  obtain ⟨-, rfl⟩ := buildEntity_eq_ok.mp hbuilt
  exact (Model.addEntity_eq_ok.mp hadd).2

theorem toModelFrom_entities (h : d.toModelFrom target draw m = .ok m') :
    m'.entities = m.entities.insertAll (d.entities.map fun e => (e.name, d.entityOf e)) := by
  obtain ⟨before, after, k, hbefore, hentities, hafter, -, happlications⟩ :=
    toModelFrom_entityPhase h
  obtain ⟨rfl, -⟩ := addApplications_spec happlications
  change k.entities = _
  rw [hafter, addEntities_adds hentities, hbefore]

/-- The entities of a model stand in the order of the first declarations of their names, and each
is the one that the last declaration describes. -/
theorem toModel_describes (h : d.toModel target draw = .ok m) :
    m.entities.HoldsLast d.entities DeclaredEntity.name d.DescribesEntity := by
  rw [toModelFrom_entities h]
  exact Table.holdsLast_insertAll fun declared _ => entityOf_describes declared

/-- A register of plants. The second declaration of a plant replaces the first, its height is stated
twice, with two limits of which the second names a constant, and its key is left out. -/
def herbarium : Document :=
  { empty with
    constants := Table.ofList [("TALLEST", .int 116)]
    entities :=
      [⟨"Plant", some "flora", none, [.field ⟨"genus", "String", []⟩]⟩,
        ⟨"Site", none, some "Where a plant stands.", []⟩,
        ⟨"Plant", none, some "A living plant.",
          [.comment "the key" .leading, .field ⟨"id", "Long", []⟩, .separator,
            .field ⟨"height", "Integer", []⟩, .comment "in feet" .trailing, .separator,
            .field ⟨"genus", "String", [⟨"required", none⟩]⟩, .separator,
            .field ⟨"height", "Integer",
              [⟨"max", some (.text "HIGH")⟩, ⟨"min", some (.int 0)⟩,
                ⟨"max", some (.text "TALLEST")⟩]⟩, .comment "in metres" .trailing]⟩] }

theorem herbarium_describes : ∃ m, herbarium.toModel .any (fun _ => ⟨"secret", "key"⟩) = .ok m ∧
    m.entities.HoldsLast herbarium.entities DeclaredEntity.name herbarium.DescribesEntity := by
  have hrun : (herbarium.toModel .any (fun _ => ⟨"secret", "key"⟩)).toOption.isSome = true := by
    decide +kernel
  cases hresult : herbarium.toModel .any (fun _ => ⟨"secret", "key"⟩) with
  | error f => simp [hresult, Except.toOption] at hrun
  | ok m => exact ⟨m, rfl, toModel_describes hresult⟩

end Document
end DomainModel
