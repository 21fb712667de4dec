import DomainModel.Proofs.Relationships.Identity
import DomainModel.Proofs.Text.Words
/-!
# Texts of relationships

If the ends are identifiers and the injected fields are well written, the text of a relationship
tells its ends, fields and comments, and which fields are required. The text of a block tells the
cardinality and the relationships, in order.
-/
namespace DomainModel

namespace InjectedField

/-- An identifier, alone or with another in parentheses. -/
def Legible (s : String) : Prop :=
  ∃ f : InjectedField, isIdentifier f.name = true ∧
    (∀ shown ∈ f.displayed, isIdentifier shown = true) ∧ s = f.text

def isFieldChar (c : Char) : Bool := isIdentifierChar c || c == '(' || c == ')'

theorem Legible.spans {s : String} (h : Legible s) : Spans isFieldChar s := by
  have hword : ∀ {w : String}, isIdentifier w = true → ∀ c ∈ w.toList, isFieldChar c = true := by
    intro w hw c hc
    simp [isFieldChar, spans_of_isIdentifier hw c hc]
  obtain ⟨⟨name, displayed⟩, hname, hdisplayed, rfl⟩ := h
  intro c hc
  cases displayed with
  | none => exact hword hname c hc
  | some shown =>
    simp only [text, String.toList_append, List.mem_append] at hc
    rcases hc with ((hc | hc) | hc) | hc
    · exact hword hname c hc
    · exact (by decide : Spans isFieldChar "(") c hc
    · exact hword (hdisplayed shown rfl) c hc
    · exact (by decide : Spans isFieldChar ")") c hc

end InjectedField

/-- What the text of a relationship shows: an injected field counts with whether it is required. -/
structure RelationshipOutline where
  source : String
  destination : String
  injectedInSource : Option (String × Bool)
  injectedInDestination : Option (String × Bool)
  commentInSource : Option String
  commentInDestination : Option String
  deriving DecidableEq

namespace Relationship

/-- The ends are identifiers, the injected fields are well written, and the comments end their lines
with line feeds alone and do not end with one. -/
structure Legible (r : Relationship) : Prop where
  source : isIdentifier r.source = true
  destination : isIdentifier r.destination = true
  injectedInSource : ∀ f ∈ r.injectedInSource, InjectedField.Legible f
  injectedInDestination : ∀ f ∈ r.injectedInDestination, InjectedField.Legible f
  commentInSource : ∀ comment ∈ r.commentInSource, Lined comment
  commentInDestination : ∀ comment ∈ r.commentInDestination, Lined comment

/-- What the text of an end shows beside the entity. -/
def endOutline (field : Option String) (required : Option Bool) : Option (String × Bool) :=
  field.map fun f => (f, required == some true)

def outline (r : Relationship) : RelationshipOutline where
  source := r.source
  destination := r.destination
  injectedInSource := endOutline r.injectedInSource r.requiredInSource
  injectedInDestination := endOutline r.injectedInDestination r.requiredInDestination
  commentInSource := r.commentInSource
  commentInDestination := r.commentInDestination

/-- The mark of a required end. -/
def requiredMark (required : Option Bool) : String :=
  if required = some true then " required" else ""

/-- What leads to the second end, with its comment if there is one. -/
def turnText : Option String → String
  | none => " "
  | some comment => "\n" ++ commentBlock comment

private theorem endText_toList (f : String) (required : Option Bool) (t : List Char) :
    (endText (some f) required).toList ++ t =
      "\x7b".toList ++ (f.toList ++ ((requiredMark required ++ "\x7d").toList ++ t)) := by
  simp only [endText, requiredMark, String.toList_append, List.append_assoc]

private theorem memberText_eq (r : Relationship) : r.memberText =
    optionalComment r.commentInSource ++ r.source ++
      endText r.injectedInSource r.requiredInSource ++ " to" ++ turnText r.commentInDestination ++
      r.destination ++ endText r.injectedInDestination r.requiredInDestination := by
  unfold memberText turnText
  cases r.commentInDestination <;> rfl

theorem oneLine_endText {field : Option String} (h : ∀ f ∈ field, InjectedField.Legible f)
    (required : Option Bool) : OneLine (endText field required) := by
  cases field with
  | none => exact (by decide : OneLine "")
  | some f =>
    have hfield : OneLine f := (h f rfl).spans.oneLine rfl rfl
    have hmark : OneLine (if required = some true then " required" else "") := by
      split <;> decide
    exact (((by decide : OneLine "\x7b").append hfield).append hmark).append (by decide)

private theorem tells_requiredMark : Tells (fun _ => True) (fun _ => true)
    (fun required => requiredMark required ++ "\x7d") fun required => required == some true := by
  have hapart : ∀ {a b : Option Bool} {r s : List Char}, a = some true → b ≠ some true →
      (requiredMark a ++ "\x7d").toList ++ r ≠ (requiredMark b ++ "\x7d").toList ++ s := by
    intro a b r s ha hb
    rw [requiredMark, requiredMark, if_pos ha, if_neg hb]
    exact append_ne_append (c := ' ') (d := '\x7d') rfl rfl (by decide) r s
  rintro a b r s - - - - h
  by_cases ha : a = some true
  · by_cases hb : b = some true
    · rw [ha, hb] at h
      exact ⟨by rw [ha, hb], List.append_cancel_left h⟩
    · exact absurd h (hapart ha hb)
  · by_cases hb : b = some true
    · exact absurd h.symm (hapart hb ha)
    · simp only [requiredMark, if_neg ha, if_neg hb] at h
      exact ⟨(beq_eq_false_iff_ne.mpr ha).trans (beq_eq_false_iff_ne.mpr hb).symm,
        List.append_cancel_left h⟩

theorem tells_endText : Tells
    (fun e : Option String × Option Bool => ∀ f ∈ e.1, InjectedField.Legible f)
    (fun c => c != '\x7b') (fun e => endText e.1 e.2) fun e => endOutline e.1 e.2 := by
  have hopen : ∀ {r cs : List Char}, Starts (fun c => c != '\x7b') r → "\x7b".toList ++ cs ≠ r := by
    intro r cs hr
    exact (opens_append (p := fun c => c == '\x7b') rfl cs).ne hr (of_beq rfl)
  have hstop : ∀ (required : Option Bool) (r : List Char),
      Starts (fun c => !InjectedField.isFieldChar c)
        ((requiredMark required ++ "\x7d").toList ++ r) := by
    intro required r
    unfold requiredMark
    split <;> exact (opens_append rfl _).starts
  rintro ⟨field, required⟩ ⟨field', required'⟩ r s hf hf' hr hs h
  cases field with
  | none =>
    cases field' with
    | none => exact ⟨rfl, h⟩
    | some g =>
      rw [endText_toList] at h
      exact absurd h.symm (hopen hr)
  | some f =>
    cases field' with
    | none =>
      rw [endText_toList] at h
      exact absurd h (hopen hs)
    | some g =>
      rw [endText_toList, endText_toList] at h
      obtain ⟨hfield, h⟩ := span_inj (hf f rfl).spans (hf' g rfl).spans (hstop required r)
        (hstop required' s) (List.append_cancel_left h)
      obtain ⟨hrequired, h⟩ :=
        tells_requiredMark trivial trivial (fun _ _ => rfl) (fun _ _ => rfl) h
      have hfield := String.toList_inj.mp hfield
      refine ⟨?_, h⟩
      simp only [endOutline, Option.map_some, hfield, hrequired]

private theorem tells_turnText :
    Tells (fun comment => ∀ c ∈ comment, Lined c) (fun _ => true) turnText fun c => c := by
  have hblock : Tells Lined (fun _ => true) (fun c => turnText (some c)) fun c => c := by
    intro a b r s ha hb hr hs h
    simp only [turnText, String.toList_append, List.append_assoc] at h
    exact tells_commentBlock ha hb hr hs (List.append_cancel_left h)
  have htells := hblock.option fun c r s _ _ => by
    rw [turnText, turnText, String.toList_append, List.append_assoc]
    exact append_ne_append (c := '\n') (d := ' ') rfl rfl (by decide) _ s
  rwa [Option.map_id_fun'] at htells

variable {r : Relationship}

theorem lined_memberText (h : r.Legible) : Lined r.memberText ∧ r.memberText ≠ "" := by
  have hlast : OneLine (r.destination ++ endText r.injectedInDestination r.requiredInDestination) :=
    (oneLine_of_isIdentifier h.destination).append (oneLine_endText h.injectedInDestination _)
  have hturn : '\r' ∉ (turnText r.commentInDestination).toList := by
    cases hcomment : r.commentInDestination with
    | none => decide
    | some comment =>
      simp [turnText, notMem_commentBlock (h.commentInDestination comment hcomment)]
  have hbefore : '\r' ∉ (optionalComment r.commentInSource ++ r.source ++
      endText r.injectedInSource r.requiredInSource ++ " to" ++
      turnText r.commentInDestination).toList := by
    simp only [String.toList_append, List.mem_append, not_or]
    exact ⟨⟨⟨⟨notMem_optionalComment h.commentInSource, (oneLine_of_isIdentifier h.source).2⟩,
      (oneLine_endText h.injectedInSource _).2⟩, by decide⟩, hturn⟩
  have htext := hlast.lined_append hbefore (by simp [ne_empty_of_isIdentifierFrom h.destination])
  rwa [← String.append_assoc, ← memberText_eq] at htext

theorem tells_memberText : Tells Legible (fun c => c == ',') memberText outline := by
  have hend : ∀ (field : Option String) (required : Option Bool) {t : List Char},
      Starts (fun c => !isIdentifierChar c) t →
      Starts (fun c => !isIdentifierChar c) ((endText field required).toList ++ t) := by
    intro field required t ht
    cases field with
    | none => exact ht
    | some f =>
      rw [endText_toList]
      exact (opens_append rfl _).starts
  intro a b r s ha hb hr hs h
  simp only [memberText_eq, String.toList_append, List.append_assoc] at h
  obtain ⟨hsourceComment, h⟩ := tells_optionalComment ha.commentInSource hb.commentInSource
    (starts_of_isIdentifier ha.source rfl _) (starts_of_isIdentifier hb.source rfl _) h
  obtain ⟨hsource, h⟩ := tells_identifier ha.source hb.source
    (hend _ _ (opens_append rfl _).starts) (hend _ _ (opens_append rfl _).starts) h
  obtain ⟨hsourceField, h⟩ := tells_endText (a := (a.injectedInSource, a.requiredInSource))
    (b := (b.injectedInSource, b.requiredInSource)) ha.injectedInSource hb.injectedInSource
    (opens_append rfl _).starts (opens_append rfl _).starts h
  obtain ⟨hcomment, h⟩ := tells_turnText ha.commentInDestination hb.commentInDestination
    (fun _ _ => rfl) (fun _ _ => rfl) (List.append_cancel_left h)
  obtain ⟨hdestination, h⟩ := tells_identifier ha.destination hb.destination
    (hend _ _ (hr.imp (of_beq rfl))) (hend _ _ (hs.imp (of_beq rfl))) h
  obtain ⟨hdestinationField, h⟩ := tells_endText
    (a := (a.injectedInDestination, a.requiredInDestination))
    (b := (b.injectedInDestination, b.requiredInDestination)) ha.injectedInDestination
    hb.injectedInDestination (hr.imp (of_beq rfl)) (hs.imp (of_beq rfl)) h
  rw [outline, outline, RelationshipOutline.mk.injEq]
  exact ⟨⟨hsource, hdestination, hsourceField, hdestinationField, hsourceComment, hcomment⟩, h⟩

/-- The block of a cardinality, with the line feed after it. -/
def groupText (g : Cardinality × List Relationship) : String :=
  blockText g.1 (g.2.map memberText) ++ "\n"

private theorem groupText_toList (g : Cardinality × List Relationship) (t : List Char) :
    (groupText g).toList ++ t = "relationship ".toList ++ (g.1.word.toList ++
      ((bracedBlock (g.2.map memberText)).toList ++ ("\n".toList ++ t))) := by
  have htext : groupText g = "relationship " ++ g.1.word ++ " \x7b\n" ++
    joinWith ",\n" ((g.2.map memberText).map indented) ++ "\n\x7d" ++ "\n" := rfl
  simp only [htext, bracedBlock, String.toList_append, List.append_assoc]

theorem opens_groupText (g : Cardinality × List Relationship) :
    Opens (fun c => c == 'r') (groupText g).toList := by
  rw [← List.append_nil (groupText g).toList, groupText_toList]
  exact opens_append rfl _

theorem tells_groupText : Tells
    (fun g : Cardinality × List Relationship => g.2 ≠ [] ∧ ∀ r ∈ g.2, r.Legible) (fun _ => true)
    groupText fun g => (g.1, g.2.map outline) := by
  have hword : ∀ c : Cardinality, Spans isIdentifierChar c.word := by
    intro c
    cases c <;> decide
  have hblock := tells_memberText.block (fun r hr => lined_memberText hr) rfl
  have hstop : ∀ (l : List Relationship) (t : List Char), Starts (fun c => !isIdentifierChar c)
      ((bracedBlock (l.map memberText)).toList ++ t) :=
    fun l t => (((opens_bracedBlock _).append t).imp (of_beq rfl)).starts
  rintro ⟨c, l⟩ ⟨c', l'⟩ r s hl hl' - - h
  rw [groupText_toList, groupText_toList] at h
  obtain ⟨hsame, h⟩ := span_inj (hword c) (hword c') (hstop l _) (hstop l' _)
    (List.append_cancel_left h)
  obtain ⟨hmembers, h⟩ := hblock hl hl' (fun _ _ => rfl) (fun _ _ => rfl) h
  exact ⟨Prod.ext (Cardinality.word_inj (String.toList_inj.mp hsame)) hmembers,
    List.append_cancel_left h⟩

end Relationship
end DomainModel
