import DomainModel.Proofs.Models.Problems
import DomainModel.Proofs.Tables
import DomainModel.Proofs.Text.Words
/-!
# Texts of entities and enumerations

If the names are identifiers and no value holds blanks or parentheses, the text of an entity tells
its names, comments and fields, in order, and the text of an enumeration tells all of it.
-/
namespace DomainModel

namespace ValidationName

theorem spans_of_isKnown {name : String} (h : isKnown name = true) :
    Spans isIdentifierChar name := by
  have hall : ∀ n ∈ withoutValue ++ withValue, Spans isIdentifierChar n := by decide
  refine hall name (List.mem_append.mpr ?_)
  simpa [isKnown] using h

end ValidationName

namespace Validation

/-- The value text has no blanks and no parentheses. -/
def Legible (v : Validation) : Prop :=
  ∀ value ∈ v.valueText, Spans (fun c => !isBlank c && c != '(' && c != ')') value

instance (v : Validation) : Decidable v.Legible :=
  inferInstanceAs (Decidable (∀ value ∈ v.valueText,
    Spans (fun c => !isBlank c && c != '(' && c != ')') value))

/-- What the text shows. -/
def outline (v : Validation) : String × Option String := (v.name, v.valueText)

/-- What stands between the parentheses. -/
def shownValue (name value : String) : String :=
  if name = ValidationName.pattern then "/" ++ value ++ "/" else value

private theorem shownValue_inj {name a b : String} (h : shownValue name a = shownValue name b) :
    a = b := by
  unfold shownValue at h
  split at h
  · have hlist := congrArg String.toList h
    simp only [String.toList_append] at hlist
    exact String.toList_inj.mp (List.append_cancel_left (List.append_cancel_right hlist))
  · exact h

private theorem text_toList (v : Validation) : v.text.toList = v.name.toList ++
    match v.valueText with
    | none => []
    | some value => '(' :: ((shownValue v.name value).toList ++ [')']) := by
  unfold text
  cases v.valueText with
  | none => simp
  | some value =>
    unfold shownValue
    simp only
    split <;> simp

variable {v : Validation}

private theorem closed_shownValue (h : v.Legible) {value : String}
    (hvalue : v.valueText = some value) (name : String) : ')' ∉ (shownValue name value).toList := by
  have hclosed : ')' ∉ value.toList := fun hc => absurd (h value hvalue _ hc) (by decide)
  unfold shownValue
  split <;> simp [hclosed]

theorem oneLine_text (h : v.Legible) (hproblems : v.problems = []) : OneLine v.text := by
  have hname : OneLine v.name :=
    (ValidationName.spans_of_isKnown (problems_eq_nil.mp hproblems).2.1).oneLine rfl rfl
  unfold text
  split
  · exact hname
  · next value hvalue =>
    have hline : OneLine value := (h value hvalue).oneLine rfl rfl
    split
    · exact ((hname.append (by decide)).append hline).append (by decide)
    · exact ((hname.append (by decide)).append hline).append (by decide)

theorem tells_text : Tells (fun v => v.Legible ∧ v.problems = [])
    (fun c => !isIdentifierChar c && c != '(') Validation.text Validation.outline := by
  have hafter : ∀ (v : Validation) {r : List Char},
      Starts (fun c => !isIdentifierChar c && c != '(') r →
      Starts (fun c => !isIdentifierChar c) ((match v.valueText with
        | none => []
        | some value => '(' :: ((shownValue v.name value).toList ++ [')'])) ++ r) := by
    intro v r hr
    split
    · exact hr.imp fun c hc => (Bool.and_eq_true_iff.mp hc).1
    · exact starts_cons rfl
  have hopen : ∀ {r cs : List Char}, Starts (fun c => !isIdentifierChar c && c != '(') r →
      '(' :: cs ≠ r := by
    rintro _ cs hr rfl
    exact absurd (hr '(' rfl) (by decide)
  rintro v w r s ⟨hv, hvproblems⟩ ⟨hw, hwproblems⟩ hr hs h
  have hvname := ValidationName.spans_of_isKnown (problems_eq_nil.mp hvproblems).2.1
  have hwname := ValidationName.spans_of_isKnown (problems_eq_nil.mp hwproblems).2.1
  rw [text_toList, text_toList, List.append_assoc, List.append_assoc] at h
  obtain ⟨hname, h⟩ := span_inj hvname hwname (hafter v hr) (hafter w hs) h
  have hname := String.toList_inj.mp hname
  cases hvalue : v.valueText with
  | none =>
    cases hvalue' : w.valueText with
    | none =>
      rw [hvalue, hvalue'] at h
      exact ⟨by rw [outline, outline, hname, hvalue, hvalue'], h⟩
    | some b =>
      rw [hvalue, hvalue'] at h
      exact absurd h.symm (hopen hr)
  | some a =>
    cases hvalue' : w.valueText with
    | none =>
      rw [hvalue, hvalue'] at h
      exact absurd h (hopen hs)
    | some b =>
      rw [hvalue, hvalue'] at h
      simp only [List.cons_append, List.append_assoc, List.nil_append] at h
      -- a value may hold slashes of its own, so only the parenthesis ends it
      obtain ⟨hshown, h⟩ := cut_inj (closed_shownValue hv hvalue v.name)
        (closed_shownValue hw hvalue' w.name) (List.cons.inj h).2
      rw [hname] at hshown
      have hsame := shownValue_inj (String.toList_inj.mp hshown)
      exact ⟨by rw [outline, outline, hname, hvalue, hvalue', hsame], h⟩

end Validation

/-- What the text of a field shows. -/
structure FieldOutline where
  name : String
  type : String
  comment : Option String
  validations : List (String × Option String)
  deriving DecidableEq

namespace Field

/-- Name and type are identifiers, the comment ends its lines with line feeds alone and does not end
with one, and the validations are legible. -/
structure Legible (f : Field) : Prop where
  name : isIdentifier f.name = true
  type : isIdentifier f.type = true
  comment : ∀ comment ∈ f.comment, Lined comment
  validations : ∀ v ∈ f.validations.values, v.Legible

def outline (f : Field) : FieldOutline :=
  ⟨f.name, f.type, f.comment, f.validations.values.map Validation.outline⟩

variable {f : Field}

private theorem legible_validations (h : f.Legible) (hproblems : f.problems = []) :
    ∀ v ∈ f.validations.values, v.Legible ∧ v.problems = [] :=
  fun v hv => ⟨h.validations v hv, (problems_eq_nil.mp hproblems).2.2 v hv⟩

theorem lined_text (h : f.Legible) (hproblems : f.problems = []) :
    Lined f.text ∧ f.text ≠ "" := by
  have hvalidations : OneLine (concat (f.validations.values.map fun v => " " ++ v.text)) := by
    refine OneLine.concat fun s hs => ?_
    obtain ⟨v, hv, rfl⟩ := List.mem_map.mp hs
    obtain ⟨hlegible, hv⟩ := legible_validations h hproblems v hv
    exact (show OneLine " " by decide).append (Validation.oneLine_text hlegible hv)
  have hline : OneLine (f.name ++ " " ++ f.type ++
      concat (f.validations.values.map fun v => " " ++ v.text)) :=
    (((oneLine_of_isIdentifier h.name).append (by decide)).append
      (oneLine_of_isIdentifier h.type)).append hvalidations
  have htext := hline.lined_append (notMem_optionalComment h.comment)
    (by simp [ne_empty_of_isIdentifierFrom h.name])
  simpa only [text, String.append_assoc] using htext

private theorem tells_validations :
    Tells (fun l : List Validation => ∀ v ∈ l, v.Legible ∧ v.problems = []) (fun c => c == ',')
      (fun l => concat (l.map fun v => " " ++ v.text)) (List.map Validation.outline) := by
  have hvalidation : Tells (fun v : Validation => v.Legible ∧ v.problems = [])
      (fun c => !isIdentifierChar c && c != '(') (fun v => " " ++ v.text) Validation.outline := by
    intro v w r s hv hw hr hs h
    simp only [String.toList_append, List.append_assoc] at h
    exact Validation.tells_text hv hw hr hs (List.append_cancel_left h)
  have hopens : ∀ v : Validation, v.Legible ∧ v.problems = [] →
      Opens (fun c => c == ' ') (" " ++ v.text).toList := by
    intro v _
    rw [String.toList_append]
    exact opens_append rfl _
  have hnext : ∀ c : Char, (c == ' ' || c == ',') = true →
      (!isIdentifierChar c && c != '(') = true :=
    of_beq_or_beq rfl rfl
  exact hvalidation.concat hopens (fun c hc => hnext c (Bool.or_eq_true_iff.mpr hc)) (of_beq rfl)

theorem tells_text : Tells (fun f => f.Legible ∧ f.problems = []) (fun c => c == ',') Field.text
    Field.outline := by
  have hvalidations : ∀ (l : List Validation) {r : List Char}, Starts (fun c => c == ',') r →
      Starts (fun c => !isIdentifierChar c)
        ((concat (l.map fun v => " " ++ v.text)).toList ++ r) := by
    intro l r hr
    cases l with
    | nil => exact hr.imp (of_beq rfl)
    | cons v rest =>
      simp only [List.map_cons, concat, String.toList_append, List.append_assoc]
      exact (opens_append rfl _).starts
  rintro f g r s ⟨hf, hfproblems⟩ ⟨hg, hgproblems⟩ hr hs h
  simp only [text, String.toList_append, List.append_assoc] at h
  obtain ⟨hcomment, h⟩ := tells_optionalComment hf.comment hg.comment
    (starts_of_isIdentifier hf.name rfl _) (starts_of_isIdentifier hg.name rfl _) h
  obtain ⟨hname, h⟩ := tells_identifier hf.name hg.name (opens_append rfl _).starts
    (opens_append rfl _).starts h
  obtain ⟨htype, h⟩ := tells_identifier hf.type hg.type (hvalidations _ hr) (hvalidations _ hs)
    (List.append_cancel_left h)
  obtain ⟨hall, h⟩ := tells_validations (legible_validations hf hfproblems)
    (legible_validations hg hgproblems) hr hs h
  rw [outline, outline, FieldOutline.mk.injEq]
  exact ⟨⟨hname, htype, hcomment, hall⟩, h⟩

end Field

/-- What the text of an entity shows. -/
structure EntityOutline where
  name : String
  tableName : String
  comment : Option String
  fields : List FieldOutline
  deriving DecidableEq

namespace Entity

/-- The names of entity and table are identifiers, the comment ends its lines with line feeds alone
and does not end with one, and the fields are legible. -/
structure Legible (e : Entity) : Prop where
  name : isIdentifier e.name = true
  tableName : isIdentifier e.tableName = true
  comment : ∀ comment ∈ e.comment, Lined comment
  fields : ∀ f ∈ e.fields.values, f.Legible

def outline (e : Entity) : EntityOutline :=
  ⟨e.name, e.tableName, e.comment, e.fields.values.map Field.outline⟩

variable {e : Entity}

private theorem legible_fields (h : e.Legible) (hproblems : e.problems = []) :
    ∀ f ∈ e.fields.values, f.Legible ∧ f.problems = [] :=
  fun f hf => ⟨h.fields f hf, (problems_eq_nil.mp hproblems).2.2 f hf⟩

/-- The fields in braces, if there are any. -/
def bodyText (e : Entity) : String :=
  if e.fields.isEmpty then "" else bracedBlock (e.fields.values.map Field.text)

/-- The table in parentheses, if it does not have the name of the entity. -/
def tableText (e : Entity) : String :=
  if e.tableName = e.name then "" else " (" ++ e.tableName ++ ")"

private theorem line_toList (e : Entity) (r : List Char) : (e.text ++ "\n").toList ++ r =
    (optionalComment e.comment).toList ++ ("entity ".toList ++ (e.name.toList ++
      (e.tableText.toList ++ (e.bodyText.toList ++ ("\n".toList ++ r))))) := by
  simp only [text, headText, tableText, bodyText, bracedBlock, List.map_map, Function.comp_def,
    String.toList_append, List.append_assoc]

private theorem tells_body : Tells (fun e : Entity => e.Legible ∧ e.problems = [])
    (fun c => c == '\n') bodyText fun e => e.fields.values.map Field.outline := by
  have hblock := Field.tells_text.block (fun f hf => Field.lined_text hf.1 hf.2) rfl
  have hfields := (hblock.mono (fun _ => id) fun _ _ => rfl).unlessEmpty
    (fun _ => opens_bracedBlock _) (of_beq (p := fun c => c == '\n') rfl)
  rintro e e' r s ⟨he, hproblems⟩ ⟨he', hproblems'⟩ hr hs h
  rw [bodyText, bodyText, ← Table.isEmpty_values, ← Table.isEmpty_values] at h
  exact hfields (legible_fields he hproblems) (legible_fields he' hproblems') hr hs h

private theorem tableText_apart {name : String} {e : Entity} {r s : List Char} :
    (" (" ++ name ++ ")").toList ++ r ≠ e.bodyText.toList ++ ("\n".toList ++ s) := by
  intro h
  unfold bodyText bracedBlock at h
  split at h <;> simp at h

theorem tells_line : Tells (fun e => e.Legible ∧ e.problems = []) (fun _ => true)
    (fun e => e.text ++ "\n") Entity.outline := by
  have hafter : ∀ (e : Entity) (r : List Char), Starts (fun c => !isIdentifierChar c)
      (e.tableText.toList ++ (e.bodyText.toList ++ ("\n".toList ++ r))) := by
    intro e r
    unfold tableText bodyText
    split
    · split
      · exact starts_cons rfl
      · exact (((opens_bracedBlock _).append _).imp (of_beq rfl)).starts
    · simp only [String.toList_append, List.append_assoc]
      exact (opens_append rfl _).starts
  rintro e e' r s ⟨he, hproblems⟩ ⟨he', hproblems'⟩ - - h
  rw [line_toList, line_toList] at h
  obtain ⟨hcomment, h⟩ := tells_optionalComment he.comment he'.comment
    (opens_append rfl _).starts (opens_append rfl _).starts h
  obtain ⟨hname, h⟩ := tells_identifier he.name he'.name (hafter e r) (hafter e' s)
    (List.append_cancel_left h)
  have hname : e.name = e'.name := hname
  -- a table and fields in braces both open with a blank, so one character does not tell them apart
  have htable : e.tableName = e'.tableName ∧ e.bodyText.toList ++ ("\n".toList ++ r) =
      e'.bodyText.toList ++ ("\n".toList ++ s) := by
    unfold tableText at h
    split at h
    · next htable =>
      split at h
      · next htable' => exact ⟨by rw [htable, htable', hname], h⟩
      · exact absurd h.symm tableText_apart
    · split at h
      · exact absurd h tableText_apart
      · simp only [String.toList_append, List.append_assoc] at h
        obtain ⟨hsame, h⟩ := tells_identifier he.tableName he'.tableName
          (opens_append rfl _).starts (opens_append rfl _).starts (List.append_cancel_left h)
        exact ⟨hsame, List.append_cancel_left h⟩
  obtain ⟨hfields, hrest⟩ := tells_body ⟨he, hproblems⟩ ⟨he', hproblems'⟩
    (opens_append rfl r).starts (opens_append rfl s).starts htable.2
  rw [outline, outline, EntityOutline.mk.injEq]
  exact ⟨⟨hname, htable.1, hcomment, hfields⟩, List.append_cancel_left hrest⟩

end Entity

namespace Enumeration

/-- The names of enumeration and values are identifiers, and the comment ends its lines with line
feeds alone and does not end with one. -/
structure Legible (e : Enumeration) : Prop where
  name : isIdentifier e.name = true
  values : ∀ value ∈ e.values.names, isIdentifier value = true
  comment : ∀ comment ∈ e.comment, Lined comment

private theorem tells_values : Tells (fun l : List String => ∀ s ∈ l, isIdentifier s = true)
    (fun c => c == '\n') (joinWith ",\n  ") id := by
  refine tells_identifier.joinedWords (fun _ hs => opens_of_isIdentifier hs)
    (show ",\n  ".toList = ',' :: ['\n', ' ', ' '] by decide) rfl rfl (of_beq rfl) fun c hc => ?_
  exact beq_eq_false_iff_ne.mpr (bne_iff_ne.mp (ne_of_isIdentifierChar rfl c hc))

theorem tells_line : Tells Legible (fun _ => true) (fun e => e.text ++ "\n") id := by
  rintro ⟨name, values, comment⟩ ⟨name', values', comment'⟩ r s he he' - - h
  simp only [text, String.toList_append, List.append_assoc] at h
  obtain ⟨hcomment, h⟩ := tells_optionalComment he.comment he'.comment
    (opens_append rfl _).starts (opens_append rfl _).starts h
  obtain ⟨hname, h⟩ := tells_identifier he.name he'.name (opens_append rfl _).starts
    (opens_append rfl _).starts (List.append_cancel_left h)
  obtain ⟨hvalues, h⟩ := tells_values he.values he'.values (opens_append rfl _).starts
    (opens_append rfl _).starts (List.append_cancel_left h)
  refine ⟨?_, List.append_cancel_left (List.append_cancel_left h)⟩
  rw [id, id, Enumeration.mk.injEq]
  exact ⟨hname, NameSet.ext_names hvalues, hcomment⟩

end Enumeration

/-- No text goes on both as that of an entity and as that of an enumeration. -/
theorem Entity.line_apart {e : Entity} {n : Enumeration} {r s : List Char} (he : e.Legible)
    (hn : n.Legible) : (e.text ++ "\n").toList ++ r ≠ (n.text ++ "\n").toList ++ s := by
  intro h
  rw [line_toList] at h
  simp only [Enumeration.text, String.toList_append, List.append_assoc] at h
  obtain ⟨-, h⟩ := tells_optionalComment he.comment hn.comment
    (opens_append rfl _).starts (opens_append rfl _).starts h
  simp at h

end DomainModel
