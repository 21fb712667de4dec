import DomainModel.Proofs.Relationships.Identity
import DomainModel.Model.InjectedField
import DomainModel.Text.Casing
/-!
# Identifiers

On ASCII identifiers the change of the first letter can be undone, and a written injected field can
be split into its parts and put together again.
-/
namespace DomainModel

def isIdentifierChar (c : Char) : Bool := c.isAlphanum || c == '_'

/-- An identifier of ASCII letters, digits and underscores whose first character is as told. -/
def isIdentifierFrom (first : Char → Bool) (s : String) : Bool :=
  match s.toList with
  | [] => false
  | c :: cs => first c && (c :: cs).all isIdentifierChar

def isIdentifier (s : String) : Bool := isIdentifierFrom (fun c => !c.isDigit) s

/-- An identifier that starts with an upper-case letter. -/
def isCapitalized (s : String) : Bool := isIdentifierFrom Char.isUpper s

/-- An identifier that starts with a lower-case letter. -/
def isUncapitalized (s : String) : Bool := isIdentifierFrom Char.isLower s

/-- Every character is an ASCII letter, a digit or an underscore. -/
def isWord (s : String) : Bool := s.toList.all isIdentifierChar

/-- The first character is an upper-case ASCII letter. -/
def startsWithCapital (s : String) : Bool := s.toList.head?.any Char.isUpper

theorem exists_of_isIdentifierFrom {first : Char → Bool} {s : String}
    (h : isIdentifierFrom first s = true) :
    ∃ c cs, s = String.ofList (c :: cs) ∧ first c = true ∧
      ∀ d ∈ c :: cs, isIdentifierChar d = true := by
  unfold isIdentifierFrom at h
  cases hs : s.toList with
  | nil => simp [hs] at h
  | cons c cs =>
    rw [hs] at h
    obtain ⟨hfirst, hall⟩ := Bool.and_eq_true_iff.mp h
    refine ⟨c, cs, ?_, hfirst, List.all_eq_true.mp hall⟩
    rw [← hs, String.ofList_toList]

theorem isIdentifierFrom_chars {first : Char → Bool} {s : String}
    (h : isIdentifierFrom first s = true) :
    s.toList ≠ [] ∧ ∀ d ∈ s.toList, isIdentifierChar d = true := by
  obtain ⟨c, cs, rfl, -, hall⟩ := exists_of_isIdentifierFrom h
  rw [String.toList_ofList]
  exact ⟨by simp, hall⟩

theorem isWord_of_isIdentifierFrom {first : Char → Bool} {s : String}
    (h : isIdentifierFrom first s = true) : isWord s = true :=
  List.all_eq_true.mpr (isIdentifierFrom_chars h).2

theorem ne_empty_of_isIdentifierFrom {first : Char → Bool} {s : String}
    (h : isIdentifierFrom first s = true) : s ≠ "" := by
  rintro rfl
  exact (isIdentifierFrom_chars h).1 rfl

theorem isUpper_iff {c : Char} : c.isUpper = true ↔ 65 ≤ c.toNat ∧ c.toNat ≤ 90 :=
  decide_eq_true_iff

theorem isLower_iff {c : Char} : c.isLower = true ↔ 97 ≤ c.toNat ∧ c.toNat ≤ 122 := by
  change (decide (_ ≤ _) && decide (_ ≤ _)) = true ↔ _
  rw [Bool.and_eq_true, decide_eq_true_iff, decide_eq_true_iff]
  rfl

private theorem identifierChar_range {c : Char} (h : isIdentifierChar c = true) :
    c.toNat = 95 ∨ (48 ≤ c.toNat ∧ c.toNat ≤ 57) ∨ (65 ≤ c.toNat ∧ c.toNat ≤ 90) ∨
      (97 ≤ c.toNat ∧ c.toNat ≤ 122) := by
  rcases Bool.or_eq_true_iff.mp h with hletter | hline
  · rcases Bool.or_eq_true_iff.mp hletter with hletter | hdigit
    · rcases Bool.or_eq_true_iff.mp hletter with hupper | hlower
      · exact .inr (.inr (.inl (isUpper_iff.mp hupper)))
      · exact .inr (.inr (.inr (isLower_iff.mp hlower)))
    · exact .inr (.inl (Char.isDigit_iff_toNat.mp hdigit))
  · have hc : c = '_' := by simpa using hline
    exact .inl (by rw [hc]; rfl)

section Case

private theorem map_of_ascii (table : CaseTable) {run : CaseRun} {rest : List CaseRun} {c : Char}
    (hruns : table.runs = run :: rest) (hrest : ∀ r ∈ rest, 128 ≤ r.first)
    (hspecial : ∀ e ∈ table.special, 128 ≤ e.1) (h : c.toNat < 128) :
    table.map c =
      [if run.covers c.toNat then Char.ofNat (c.toNat + run.shift).toNat else c] := by
  have hplain : table.special.lookup c.toNat = none := by
    refine List.lookup_eq_none_iff.mpr fun e he => ?_
    have hcode := hspecial e he
    simp only [bne_iff_ne, ne_eq]
    omega
  have hlater : rest.find? (·.covers c.toNat) = none := by
    refine List.find?_eq_none.mpr fun r hr => ?_
    have hfirst := hrest r hr
    simp only [CaseRun.covers, Bool.and_eq_true, decide_eq_true_eq]
    omega
  rw [CaseTable.map, hplain, hruns, List.find?_cons, hlater]
  cases run.covers c.toNat <;> rfl

private theorem ascii_runs : ∀ n < 128,
    (if CaseRun.covers ⟨0x41, 0x5a, 1, 32⟩ n then Char.ofNat (n + (32 : Int)).toNat
        else Char.ofNat n) = (Char.ofNat n).toLower ∧
      (if CaseRun.covers ⟨0x61, 0x7a, 1, -32⟩ n then Char.ofNat (n + (-32 : Int)).toNat
        else Char.ofNat n) = (Char.ofNat n).toUpper := by
  decide +kernel

private theorem ascii_cases : ∀ n < 128,
    (Char.ofNat n).toLower.toNat < 128 ∧ (Char.ofNat n).toUpper.toNat < 128 ∧
      (Char.ofNat n).toLower.toLower = (Char.ofNat n).toLower ∧
      (Char.ofNat n).toUpper.toLower = (Char.ofNat n).toLower ∧
      (Char.ofNat n).toLower.toUpper = (Char.ofNat n).toUpper ∧
      ((Char.ofNat n).isUpper = true →
        (Char.ofNat n).toUpper = Char.ofNat n ∧ (Char.ofNat n).toLower.isLower = true) ∧
      ((Char.ofNat n).isLower = true → (Char.ofNat n).toLower = Char.ofNat n) := by
  decide +kernel

variable {c : Char}

private theorem tables_of_ascii (h : c.toNat < 128) :
    lowerCaseTable.map c = [c.toLower] ∧ upperCaseTable.map c = [c.toUpper] := by
  obtain ⟨hlower, hupper⟩ := ascii_runs c.toNat h
  rw [Char.ofNat_toNat] at hlower hupper
  constructor
  · rw [map_of_ascii lowerCaseTable rfl (by decide +kernel) (by decide +kernel) h]
    exact congrArg (fun c => [c]) hlower
  · rw [map_of_ascii upperCaseTable rfl (by decide +kernel) (by decide +kernel) h]
    exact congrArg (fun c => [c]) hupper

private theorem lowerFirst_cons (h : c.toNat < 128) (cs : List Char) :
    lowerFirst (String.ofList (c :: cs)) = String.ofList (c.toLower :: cs) := by
  simp [lowerFirst, (tables_of_ascii h).1]

private theorem upperFirst_cons (h : c.toNat < 128) (cs : List Char) :
    upperFirst (String.ofList (c :: cs)) = String.ofList (c.toUpper :: cs) := by
  simp [upperFirst, (tables_of_ascii h).2]

private theorem case_of_ascii (h : c.toNat < 128) :
    c.toLower.toNat < 128 ∧ c.toUpper.toNat < 128 ∧ c.toLower.toLower = c.toLower ∧
      c.toUpper.toLower = c.toLower ∧ c.toLower.toUpper = c.toUpper ∧
      (c.isUpper = true → c.toUpper = c ∧ c.toLower.isLower = true) ∧
      (c.isLower = true → c.toLower = c) := by
  have hcases := ascii_cases c.toNat h
  rwa [Char.ofNat_toNat] at hcases

private theorem exists_of_startsWithCapital {s : String} (h : startsWithCapital s = true) :
    ∃ c cs, s = String.ofList (c :: cs) ∧ c.isUpper = true := by
  unfold startsWithCapital at h
  cases hs : s.toList with
  | nil => simp [hs] at h
  | cons c cs => exact ⟨c, cs, by rw [← hs, String.ofList_toList], by simpa [hs] using h⟩

theorem upperFirst_lowerFirst {s : String} (h : isCapitalized s = true) :
    upperFirst (lowerFirst s) = s := by
  obtain ⟨c, cs, rfl, hc, -⟩ := exists_of_isIdentifierFrom h
  have hascii : c.toNat < 128 := by have := isUpper_iff.mp hc; omega
  obtain ⟨hlower, -, -, -, hback, hkeep, -⟩ := case_of_ascii hascii
  rw [lowerFirst_cons hascii, upperFirst_cons hlower, hback, (hkeep hc).1]

theorem isUncapitalized_lowerFirst {s : String} (h : isCapitalized s = true) :
    isUncapitalized (lowerFirst s) = true := by
  obtain ⟨c, cs, rfl, hc, hall⟩ := exists_of_isIdentifierFrom h
  have hascii : c.toNat < 128 := by have := isUpper_iff.mp hc; omega
  have hlower := ((case_of_ascii hascii).2.2.2.2.2.1 hc).2
  have hchar : isIdentifierChar c.toLower = true := by
    change (((c.toLower.isUpper || c.toLower.isLower) || c.toLower.isDigit) || _) = true
    simp [hlower]
  have hrest : ∀ d ∈ cs, isIdentifierChar d = true :=
    fun d hd => hall d (List.mem_cons_of_mem c hd)
  rw [lowerFirst_cons hascii]
  simpa [isUncapitalized, isIdentifierFrom, hlower, hchar] using hrest

theorem lowerFirst_of_isUncapitalized {s : String} (h : isUncapitalized s = true) :
    lowerFirst s = s := by
  obtain ⟨c, cs, rfl, hc, -⟩ := exists_of_isIdentifierFrom h
  have hascii : c.toNat < 128 := by have := isLower_iff.mp hc; omega
  rw [lowerFirst_cons hascii, (case_of_ascii hascii).2.2.2.2.2.2 hc]

theorem lowerFirst_lowerFirst {s : String} (h : startsWithCapital s = true) :
    lowerFirst (lowerFirst s) = lowerFirst s := by
  obtain ⟨c, cs, rfl, hc⟩ := exists_of_startsWithCapital h
  have hascii : c.toNat < 128 := by have := isUpper_iff.mp hc; omega
  obtain ⟨hlower, -, htwice, -⟩ := case_of_ascii hascii
  rw [lowerFirst_cons hascii, lowerFirst_cons hlower, htwice]

theorem upperFirst_of_startsWithCapital {s : String} (h : startsWithCapital s = true) :
    upperFirst s = s := by
  obtain ⟨c, cs, rfl, hc⟩ := exists_of_startsWithCapital h
  have hascii : c.toNat < 128 := by have := isUpper_iff.mp hc; omega
  rw [upperFirst_cons hascii, ((case_of_ascii hascii).2.2.2.2.2.1 hc).1]

theorem lowerFirst_inj {a b : String} (ha : isCapitalized a = true) (hb : isCapitalized b = true)
    (h : lowerFirst a = lowerFirst b) : a = b := by
  rw [← upperFirst_lowerFirst ha, h, upperFirst_lowerFirst hb]

private theorem exists_of_isWord {s : String} (h : isWord s = true) :
    s = "" ∨ ∃ c cs, s = String.ofList (c :: cs) ∧ c.toNat < 128 := by
  cases hs : s.toList with
  | nil => exact .inl (String.toList_inj.mp hs)
  | cons c cs =>
    have hc := identifierChar_range (List.all_eq_true.mp h c (by simp [hs]))
    exact .inr ⟨c, cs, by rw [← hs, String.ofList_toList], by omega⟩

theorem toUpper_toLower (h : isIdentifierChar c = true) : c.toLower.toUpper = c.toUpper := by
  have hascii : c.toNat < 128 := by have := identifierChar_range h; omega
  exact (case_of_ascii hascii).2.2.2.2.1

/-- The first letter of a word ends up as it is changed last. -/
theorem isWord_case {s : String} (h : isWord s = true) :
    upperFirst (lowerFirst s) = upperFirst s ∧ lowerFirst (upperFirst s) = lowerFirst s := by
  rcases exists_of_isWord h with rfl | ⟨c, cs, rfl, hascii⟩
  · decide
  · obtain ⟨hlower, hupper, -, hdown, hup, -⟩ := case_of_ascii hascii
    rw [lowerFirst_cons hascii, upperFirst_cons hascii, upperFirst_cons hlower,
      lowerFirst_cons hupper, hdown, hup]
    exact ⟨rfl, rfl⟩

end Case

private theorem identifierChar_plain {c : Char} (h : isIdentifierChar c = true) :
    isBlank c = false ∧ c ≠ '(' ∧ c ≠ ')' ∧ c ≠ '\x7b' ∧ c ≠ '\x7d' := by
  have hrange := identifierChar_range h
  have hother : ∀ d : Char, d.toNat = 40 ∨ d.toNat = 41 ∨ 122 < d.toNat → c ≠ d := by
    rintro d hd rfl
    omega
  refine ⟨?_, hother _ (.inl rfl), hother _ (.inr (.inl rfl)), hother _ (.inr (.inr (by decide))),
    hother _ (.inr (.inr (by decide)))⟩
  simp only [isBlank, Bool.or_eq_false_iff, Bool.and_eq_false_iff, decide_eq_false_iff_not,
    beq_eq_false_iff_ne]
  omega

theorem plain_of_isWord {s : String} (h : isWord s = true) :
    '(' ∉ s.toList ∧ Unbraced s := by
  have hchars := fun c hc => identifierChar_plain (List.all_eq_true.mp h c hc)
  exact ⟨fun hm => (hchars _ hm).2.1 rfl, fun hm => (hchars _ hm).2.2.2.1 rfl,
    fun hm => (hchars _ hm).2.2.2.2 rfl⟩

theorem unbraced_of_isIdentifierFrom {first : Char → Bool} {s : String}
    (h : isIdentifierFrom first s = true) : Unbraced s :=
  (plain_of_isWord (isWord_of_isIdentifierFrom h)).2

namespace InjectedField

/-- A field named by an identifier in lower case, with the displayed field if that is an identifier
other than `id`. -/
def Regular (f : InjectedField) : Prop :=
  isUncapitalized f.name = true ∧ ∀ d ∈ f.displayed, isIdentifier d = true ∧ d ≠ "id"

instance (f : InjectedField) : Decidable f.Regular :=
  inferInstanceAs (Decidable (_ ∧ ∀ d ∈ f.displayed, isIdentifier d = true ∧ d ≠ "id"))

theorem splitOpen_closed {l : List Char} (h : '(' ∉ l) : splitOpen l = (l, none) := by
  induction l with
  | nil => rfl
  | cons c cs ih =>
    have hc : c ≠ '(' := fun hc => h (hc ▸ List.mem_cons_self)
    have hcs := ih fun hm => h (List.mem_cons_of_mem c hm)
    rw [splitOpen.eq_3 c cs hc, hcs]

theorem splitOpen_open {l r : List Char} (h : '(' ∉ l) :
    splitOpen (l ++ '(' :: r) = (l, some r) := by
  induction l with
  | nil => rfl
  | cons c cs ih =>
    have hc : c ≠ '(' := fun hc => h (hc ▸ List.mem_cons_self)
    have hcs := ih fun hm => h (List.mem_cons_of_mem c hm)
    rw [List.cons_append, splitOpen.eq_3 c _ hc, hcs]

theorem name_closed (s : String) : '(' ∉ (ofText s).name.toList := by
  have hsplit : ∀ l : List Char, '(' ∉ (splitOpen l).1 := by
    intro l
    induction l with
    | nil => simp [splitOpen]
    | cons c cs ih =>
      by_cases hc : c = '('
      · simp [splitOpen, hc]
      · rw [splitOpen.eq_3 c cs hc]
        simpa [Ne.symm hc] using ih
  have htrim : ∀ l : List Char, '(' ∉ l → '(' ∉ trimChars l := by
    intro l hl hm
    have hsuffix := (List.dropWhile_suffix _).subset (List.mem_reverse.mp hm)
    exact hl ((List.dropWhile_suffix _).subset (List.mem_reverse.mp hsuffix))
  have hname : (ofText s).name = String.ofList (trimChars (splitOpen s.toList).1) := by
    unfold ofText
    split <;> simp [*]
  rw [hname, String.toList_ofList]
  exact htrim _ (hsplit _)

theorem name_eq_of_text_eq {f g : InjectedField} (hf : '(' ∉ f.name.toList)
    (hg : '(' ∉ g.name.toList) (h : f.text = g.text) : f.name = g.name := by
  have hsplit : ∀ f : InjectedField, '(' ∉ f.name.toList →
      (splitOpen f.text.toList).1 = f.name.toList := by
    rintro ⟨name, displayed⟩ hname
    cases displayed with
    | none => simp [text, splitOpen_closed hname]
    | some shown => simp [text, splitOpen_open hname]
  exact String.toList_inj.mp (by rw [← hsplit f hf, h, hsplit g hg])

theorem ofText_text {f : InjectedField} (h : f.Regular) : ofText f.text = f := by
  obtain ⟨name, displayed⟩ := f
  have hname := fun c hc => identifierChar_plain ((isIdentifierFrom_chars h.1).2 c hc)
  have hblank : trimChars name.toList = name.toList :=
    trimChars_keep (fun c hc => (hname c (List.mem_of_head? hc)).1)
      fun c hc => (hname c (List.mem_of_getLast? hc)).1
  have hopen : '(' ∉ name.toList := fun hm => (hname _ hm).2.1 rfl
  cases displayed with
  | none => simp [text, ofText, splitOpen_closed hopen, hblank]
  | some shown =>
    have hshown := (h.2 shown rfl).1
    have hchars := fun c hc => identifierChar_plain ((isIdentifierFrom_chars hshown).2 c hc)
    have hsplit : splitOpen (name.toList ++ '(' :: (shown.toList ++ [')'])) =
        (name.toList, some (shown.toList ++ [')'])) := splitOpen_open hopen
    have hclose : dropTrailing (· == ')') (shown.toList ++ [')']) = shown.toList := by
      have hkeep : dropTrailing (· == ')') shown.toList = shown.toList :=
        dropTrailing_keep fun c hc => by simpa using (hchars c (List.mem_of_getLast? hc)).2.2.1
      simpa [dropTrailing] using hkeep
    have htrim : trimChars shown.toList = shown.toList :=
      trimChars_keep (fun c hc => (hchars c (List.mem_of_head? hc)).1)
        fun c hc => (hchars c (List.mem_of_getLast? hc)).1
    have hne : shown.toList.isEmpty = false := by simpa using ne_empty_of_isIdentifierFrom hshown
    simp [text, ofText, hsplit, hclose, htrim, hblank, hne]

/-- The name is a word, and so is the displayed field if there is one. -/
def Worded (f : InjectedField) : Prop := isWord f.name = true ∧ ∀ d ∈ f.displayed, isWord d = true

instance (f : InjectedField) : Decidable f.Worded :=
  inferInstanceAs (Decidable (_ ∧ ∀ d ∈ f.displayed, isWord d = true))

theorem Regular.worded {f : InjectedField} (h : f.Regular) : f.Worded :=
  ⟨isWord_of_isIdentifierFrom h.1, fun d hd => isWord_of_isIdentifierFrom (h.2 d hd).1⟩

theorem Worded.unbraced_text {f : InjectedField} (h : f.Worded) : Unbraced f.text := by
  have hname := (plain_of_isWord h.1).2
  unfold text
  cases hf : f.displayed with
  | none => exact hname
  | some shown =>
    have hshown := (plain_of_isWord (h.2 shown hf)).2
    exact ((hname.append (by decide)).append hshown).append (by decide)

theorem Regular.unbraced_text {f : InjectedField} (h : f.Regular) : Unbraced f.text :=
  h.worded.unbraced_text

end InjectedField
end DomainModel
