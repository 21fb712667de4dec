import DomainModel.Proofs.Options.Legal
import DomainModel.Proofs.Tables
import DomainModel.Proofs.Text.Words
/-!
# Texts of options

If the names of a scope are identifiers or the wildcard and no value holds blanks, the text of a
legal option tells the whole option: the keyword tells its name and whether a value follows.
-/
namespace DomainModel

namespace Scope

/-- The names of entities are identifiers or the wildcard. -/
def Legible (s : Scope) : Prop :=
  ∀ n ∈ s.included.names ++ s.excluded.names, n = allEntities ∨ isIdentifier n = true

instance (s : Scope) : Decidable s.Legible :=
  inferInstanceAs (Decidable (∀ n ∈ s.included.names ++ s.excluded.names, _))

def isNameChar (c : Char) : Bool := isIdentifierChar c || c == '*'

private theorem tells_names :
    Tells (fun l : List String => ∀ n ∈ l, n = allEntities ∨ isIdentifier n = true)
      (fun c => c == ' ' || c == '\n') (joinWith ", ") id := by
  have hname : ∀ n, n = allEntities ∨ isIdentifier n = true →
      n.toList ≠ [] ∧ Spans isNameChar n := by
    rintro n (rfl | hn)
    · decide
    · refine ⟨(isIdentifierFrom_chars hn).1, fun c hc => ?_⟩
      simp [isNameChar, spans_of_isIdentifier hn c hc]
  have hopens : ∀ n, n = allEntities ∨ isIdentifier n = true → Opens isNameChar n.toList := by
    intro n hn
    obtain ⟨c, cs, hchars⟩ := List.exists_cons_of_ne_nil (hname n hn).1
    exact ⟨c, cs, hchars, (hname n hn).2 c (hchars ▸ List.mem_cons_self)⟩
  have htells := (tells_span isNameChar).mono (fun n hn => (hname n hn).2) fun _ => id
  have hend : ∀ c : Char, (c == ' ' || c == '\n') = true → isNameChar c = false :=
    of_beq_or_beq rfl rfl
  refine htells.joinedWords hopens (show ", ".toList = ',' :: [' '] by decide) rfl rfl
    (of_beq_or_beq rfl rfl) fun c hc => Bool.eq_false_iff.mpr fun h => ?_
  exact Bool.false_ne_true ((hend c h).symm.trans hc)

theorem tells_includedText : Tells Legible (fun c => c == ' ' || c == '\n') includedText
    included := by
  intro a b r s ha hb hr hs h
  obtain ⟨hnames, h⟩ := tells_names (fun n hn => ha n (List.mem_append_left _ hn))
    (fun n hn => hb n (List.mem_append_left _ hn)) hr hs h
  exact ⟨NameSet.ext_names hnames, h⟩

theorem tells_excludedText : Tells Legible (fun c => c == '\n') excludedText excluded := by
  have hsome : Tells
      (fun l : List String => l ≠ [] ∧ ∀ n ∈ l, n = allEntities ∨ isIdentifier n = true)
      (fun c => c == '\n') (fun l => " except " ++ joinWith ", " l) (List.map id) := by
    rintro l l' r s ⟨-, hl⟩ ⟨-, hl'⟩ hr hs h
    simp only [String.toList_append, List.append_assoc] at h
    rw [List.map_id, List.map_id]
    exact tells_names hl hl' (hr.imp (of_beq rfl)) (hs.imp (of_beq rfl))
      (List.append_cancel_left h)
  have hopens : ∀ l : List String,
      Opens (fun c => c == ' ') (" except " ++ joinWith ", " l).toList := by
    intro l
    rw [String.toList_append]
    exact opens_append rfl _
  have hnames := hsome.unlessEmpty hopens (of_beq rfl)
  intro a b r s ha hb hr hs h
  obtain ⟨hsame, h⟩ := hnames (fun n hn => ha n (List.mem_append_right _ hn))
    (fun n hn => hb n (List.mem_append_right _ hn)) hr hs h
  rw [List.map_id, List.map_id] at hsame
  exact ⟨NameSet.ext_names hsame, h⟩

end Scope

namespace GeneratorOption

/-- The scope is legible and the value has no blanks. -/
structure Legible (o : GeneratorOption) : Prop where
  scope : o.scope.Legible
  value : ∀ value ∈ o.value?, Spans (fun c => !isBlank c) value

/-- The first word of the text. -/
def keyword : GeneratorOption → String
  | unary name _ => name
  | binary name _ _ => OptionName.toKeyword name

/-- The value, with the word that leads to it. -/
def valueText : GeneratorOption → String
  | unary _ _ => ""
  | binary _ value _ => " with " ++ value

private theorem text_eq (o : GeneratorOption) : o.text =
    o.keyword ++ " " ++ o.scope.includedText ++ o.valueText ++ o.scope.excludedText := by
  cases o with
  | unary name scope => simp [text, keyword, valueText, GeneratorOption.scope]
  | binary name value scope =>
    simp only [text, keyword, valueText, GeneratorOption.scope, String.append_assoc]

variable {o p : GeneratorOption}

theorem Legal.keyword_word (h : o.Legal) : Spans isIdentifierChar o.keyword ∧
    o.keyword.toList.head?.any (fun c => c.isLower && c != 'e' && c != 'r') = true := by
  have hunary : ∀ n ∈ OptionName.unaries, Spans isIdentifierChar n ∧
      n.toList.head?.any (fun c => c.isLower && c != 'e' && c != 'r') = true := by
    decide
  have hbinary : ∀ b ∈ OptionName.binaries, Spans isIdentifierChar (OptionName.toKeyword b.1) ∧
      (OptionName.toKeyword b.1).toList.head?.any
        (fun c => c.isLower && c != 'e' && c != 'r') = true := by
    decide
  cases o with
  | unary name scope => exact hunary name (List.contains_iff_mem.mp h)
  | binary name value scope =>
    obtain ⟨b, hb, hname⟩ := List.any_eq_true.mp h.1
    rw [keyword, ← beq_iff_eq.mp hname]
    exact hbinary b hb

theorem Legal.opens_line (h : o.Legal) :
    Opens (fun c => c.isLower && c != 'e' && c != 'r') (o.text ++ "\n").toList := by
  simp only [text_eq, String.toList_append, List.append_assoc]
  exact opens_append h.keyword_word.2 _

/-- The keyword tells the name, and whether the option carries a value. -/
theorem Legal.keyword_inj (ho : o.Legal) (hp : p.Legal) (h : o.keyword = p.keyword) :
    o.name = p.name ∧ o.isUnary = p.isUnary := by
  have hmixed : ∀ n ∈ OptionName.unaries, ∀ b ∈ OptionName.binaries,
      n ≠ OptionName.toKeyword b.1 := by
    decide
  have hbinary : ∀ b ∈ OptionName.binaries, ∀ b' ∈ OptionName.binaries,
      OptionName.toKeyword b.1 = OptionName.toKeyword b'.1 → b.1 = b'.1 := by
    decide
  have hapart : ∀ {n m : String}, OptionName.isUnary n = true → OptionName.isBinary m = true →
      n ≠ OptionName.toKeyword m := by
    intro n m hn hm
    obtain ⟨b, hb, hname⟩ := List.any_eq_true.mp hm
    rw [← beq_iff_eq.mp hname]
    exact hmixed n (List.contains_iff_mem.mp hn) b hb
  cases o with
  | unary n scope =>
    cases p with
    | unary m scope' => exact ⟨h, rfl⟩
    | binary m value scope' => exact absurd h (hapart ho hp.1)
  | binary n value scope =>
    cases p with
    | unary m scope' => exact absurd h.symm (hapart hp ho.1)
    | binary m value' scope' =>
      obtain ⟨b, hb, hname⟩ := List.any_eq_true.mp ho.1
      obtain ⟨b', hb', hname'⟩ := List.any_eq_true.mp hp.1
      have hname := beq_iff_eq.mp hname
      have hname' := beq_iff_eq.mp hname'
      refine ⟨?_, rfl⟩
      rw [keyword, keyword, ← hname, ← hname'] at h
      rw [GeneratorOption.name, GeneratorOption.name, ← hname, ← hname']
      exact hbinary b hb b' hb' h

private theorem tells_valueText (kind : Bool) :
    Tells (fun o => o.isUnary = kind ∧ ∀ value ∈ o.value?, Spans (fun c => !isBlank c) value)
      (fun c => c == ' ' || c == '\n') valueText value? := by
  rintro o p r s ⟨hkind, ho⟩ ⟨hkind', hp⟩ hr hs h
  cases o with
  | unary name scope =>
    cases p with
    | unary name' scope' => exact ⟨rfl, h⟩
    | binary name' value' scope' => cases hkind.trans hkind'.symm
  | binary name value scope =>
    cases p with
    | unary name' scope' => cases hkind.trans hkind'.symm
    | binary name' value' scope' =>
      simp only [valueText, String.toList_append, List.append_assoc] at h
      obtain ⟨hvalue, h⟩ := span_inj (ho value rfl) (hp value' rfl)
        (hr.imp (of_beq_or_beq rfl rfl)) (hs.imp (of_beq_or_beq rfl rfl))
        (List.append_cancel_left h)
      exact ⟨congrArg some (String.toList_inj.mp hvalue), h⟩

/-- The text of an option and the line feed after it tell the whole option. -/
theorem tells_line : Tells (fun o : GeneratorOption => o.Legal ∧ o.Legible) (fun _ => true)
    (fun o => o.text ++ "\n") fun o => o := by
  have hrest : ∀ (o : GeneratorOption) (t : List Char), Opens (fun c => c == ' ' || c == '\n')
      (o.scope.excludedText.toList ++ ("\n".toList ++ t)) := by
    intro o t
    unfold Scope.excludedText
    split
    · exact ⟨'\n', t, rfl, rfl⟩
    · simp only [String.toList_append, List.append_assoc]
      exact opens_append rfl _
  have hvalue : ∀ (o : GeneratorOption) (t : List Char), Opens (fun c => c == ' ' || c == '\n')
      (o.valueText.toList ++ (o.scope.excludedText.toList ++ ("\n".toList ++ t))) := by
    intro o t
    cases o with
    | unary name scope => exact hrest (.unary name scope) t
    | binary name value scope =>
      rw [valueText, String.toList_append, List.append_assoc]
      exact opens_append rfl _
  rintro o p r s ⟨hlegal, ho⟩ ⟨hlegal', hp⟩ - - h
  simp only [text_eq, String.toList_append, List.append_assoc] at h
  obtain ⟨hkeyword, h⟩ := span_inj hlegal.keyword_word.1 hlegal'.keyword_word.1
    (opens_append rfl _).starts (opens_append rfl _).starts h
  obtain ⟨hname, hkind⟩ := hlegal.keyword_inj hlegal' (String.toList_inj.mp hkeyword)
  obtain ⟨hincluded, h⟩ := Scope.tells_includedText ho.scope hp.scope (hvalue o r).starts
    (hvalue p s).starts (List.append_cancel_left h)
  obtain ⟨hsame, h⟩ := tells_valueText p.isUnary ⟨hkind, ho.value⟩ ⟨rfl, hp.value⟩
    (hrest o r).starts (hrest p s).starts h
  obtain ⟨hexcluded, h⟩ := Scope.tells_excludedText ho.scope hp.scope
    (opens_append rfl r).starts (opens_append rfl s).starts h
  have hscope : o.scope = p.scope := by
    rw [show o.scope = ⟨o.scope.included, o.scope.excluded⟩ from rfl, hincluded, hexcluded]
  exact ⟨eq_of_name_value_scope hname hsame hscope, List.append_cancel_left h⟩

end GeneratorOption
end DomainModel
