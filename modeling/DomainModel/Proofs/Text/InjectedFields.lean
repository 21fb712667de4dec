import DomainModel.Proofs.Text.Identifiers
import Mathlib.Data.List.DropRight
import Mathlib.Logic.Function.Iterate
/-!
# Reading injected fields

Closing parentheses are cut off at the end of a written field before the blanks are, and the second
cut can lay open what the first would have taken. Blanks around a text, and writing what was read,
change the field only where a closing parenthesis is left at the end.
-/
namespace DomainModel

section Trimming
variable {p : Char → Bool} {cs blanks : List Char}

private theorem dropTrailing_append (h : ∀ c ∈ blanks, p c = true) :
    dropTrailing p (cs ++ blanks) = dropTrailing p cs := by
  rw [dropTrailing, List.reverse_append,
    List.dropWhile_append_of_pos fun c hc => h c (List.mem_reverse.mp hc)]
  rfl

theorem trimChars_blanks_append (h : ∀ c ∈ blanks, isBlank c = true) :
    trimChars (blanks ++ cs) = trimChars cs := by
  rw [trimChars, List.dropWhile_append_of_pos h]
  rfl

theorem trimChars_append_blanks (h : ∀ c ∈ blanks, isBlank c = true) :
    trimChars (cs ++ blanks) = trimChars cs := by
  rw [trimChars, List.dropWhile_append]
  split
  · next hempty =>
    rw [trimChars, List.isEmpty_iff.mp hempty, List.dropWhile_eq_nil_iff.mpr h]
  · exact dropTrailing_append h

theorem trimChars_sublist (cs : List Char) : (trimChars cs).Sublist cs :=
  (List.rdropWhile_prefix isBlank _).sublist.trans (List.dropWhile_sublist _)

theorem trimChars_trimChars (cs : List Char) : trimChars (trimChars cs) = trimChars cs := by
  refine trimChars_keep (fun c hc => ?_) fun c hc => ?_
  · obtain ⟨rest, hrest⟩ := List.head?_eq_some_iff.mp hc
    obtain ⟨cut, hcut⟩ : trimChars cs <+: cs.dropWhile isBlank := List.rdropWhile_prefix isBlank _
    have hfirst := List.head?_dropWhile_not isBlank cs
    rwa [← hcut, hrest] at hfirst
  · have hne : trimChars cs ≠ [] := List.getLast?_isSome.mp (Option.isSome_of_mem hc)
    have hlast : isBlank ((trimChars cs).getLast hne) ≠ true :=
      List.rdropWhile_last_not isBlank _ hne
    rw [(List.getLast_eq_iff_getLast?_eq_some hne).mpr hc] at hlast
    exact eq_false_of_ne_true hlast

private theorem count_dropWhile {c : Char} (h : p c = false) (cs : List Char) :
    (cs.dropWhile p).count c = cs.count c := by
  induction cs with
  | nil => rfl
  | cons d rest ih =>
    cases hd : p d with
    | false => simp [hd]
    | true =>
      have hne : d ≠ c := by
        rintro rfl
        exact Bool.false_ne_true (h.symm.trans hd)
      simp [hd, ih, hne]

private theorem count_trimChars {c : Char} (h : isBlank c = false) (cs : List Char) :
    (trimChars cs).count c = cs.count c := by
  rw [trimChars, dropTrailing, List.count_reverse, count_dropWhile h, List.count_reverse,
    count_dropWhile h]

end Trimming

namespace InjectedField

section Reading

def nonemptyText (cs : List Char) : Option String :=
  if cs.isEmpty then none else some (String.ofList cs)

/-- The field that is displayed, read from what follows the opening parenthesis. -/
def shownIn (after : List Char) : Option String :=
  nonemptyText (trimChars (dropTrailing (· == ')') after))

variable {s : String} {before after blanks : List Char}

theorem nonemptyText_toList (h : s ≠ "") : nonemptyText s.toList = some s := by
  simp [nonemptyText, h]

theorem mem_nonemptyText {cs : List Char} :
    s ∈ nonemptyText cs ↔ cs ≠ [] ∧ String.ofList cs = s := by
  cases cs <;> simp [nonemptyText]

theorem ofText_closed (h : '(' ∉ s.toList) :
    ofText s = ⟨String.ofList (trimChars s.toList), none⟩ := by
  rw [ofText, splitOpen_closed h]

theorem ofText_open (hs : s.toList = before ++ '(' :: after) (h : '(' ∉ before) :
    ofText s = ⟨String.ofList (trimChars before), shownIn after⟩ := by
  rw [ofText, hs, splitOpen_open h]
  rfl

theorem closed_or_open (s : String) :
    '(' ∉ s.toList ∨ ∃ before after, s.toList = before ++ '(' :: after ∧ '(' ∉ before := by
  by_cases h : '(' ∈ s.toList
  · exact .inr (List.eq_append_cons_of_mem h)
  · exact .inl h

/-- How many closing parentheses are left in the displayed field. -/
def closings (shown : Option String) : Nat := shown.elim 0 fun shown => shown.toList.count ')'

@[simp] theorem closings_nonemptyText (cs : List Char) :
    closings (nonemptyText cs) = cs.count ')' := by
  cases cs <;> simp [nonemptyText, closings]

theorem closings_shownIn_le (after : List Char) : closings (shownIn after) ≤ after.count ')' := by
  have hsub : (trimChars (dropTrailing (· == ')') after)).Sublist after :=
    (trimChars_sublist _).trans (List.rdropWhile_prefix _ _).sublist
  rw [shownIn, closings_nonemptyText]
  exact hsub.count_le ')'

theorem closings_ofText_le (s : String) : closings (ofText s).displayed ≤ s.toList.count ')' := by
  rcases closed_or_open s with hs | ⟨before, after, hs, hbefore⟩
  · rw [ofText_closed hs]
    exact Nat.zero_le _
  · have hle := closings_shownIn_le after
    rw [ofText_open hs hbefore, hs, List.count_append, List.count_cons]
    dsimp only
    omega

theorem shownIn_concat (after : List Char) : shownIn (after ++ [')']) = shownIn after := by
  rw [shownIn, dropTrailing_append (by simp)]
  rfl

theorem closings_shownIn_lt (h : after.getLast? = some ')') :
    closings (shownIn after) < after.count ')' := by
  obtain ⟨front, rfl⟩ := List.getLast?_eq_some_iff.mp h
  have hle := closings_shownIn_le front
  rw [shownIn_concat, List.count_append, List.count_singleton_self]
  omega

theorem shownIn_unclosed (h : after.getLast? ≠ some ')') :
    shownIn after = nonemptyText (trimChars after) := by
  have hkeep : dropTrailing (· == ')') after = after := by
    refine dropTrailing_keep fun c hc => ?_
    rw [beq_eq_false_iff_ne]
    rintro rfl
    exact h hc
  rw [shownIn, hkeep]

theorem shownIn_append_blanks (hne : blanks ≠ []) (h : ∀ c ∈ blanks, isBlank c = true) :
    shownIn (after ++ blanks) = shownIn after ↔ after.getLast? ≠ some ')' := by
  have hopen : (after ++ blanks).getLast? ≠ some ')' := by
    intro hlast
    rw [List.getLast?_append_of_ne_nil _ hne] at hlast
    exact absurd (h _ (List.mem_of_getLast? hlast)) (by decide)
  rw [shownIn_unclosed hopen, trimChars_append_blanks h]
  constructor
  · intro heq hlast
    have hless := closings_shownIn_lt hlast
    rw [← heq, closings_nonemptyText, count_trimChars (by decide)] at hless
    exact Nat.lt_irrefl _ hless
  · intro hlast
    rw [shownIn_unclosed hlast]

end Reading

section Rereading

/-- The field that is read from the text of `f`. -/
def reread (f : InjectedField) : InjectedField := ofText f.text

/-- Both parts are as reading leaves them. -/
structure Trimmed (f : InjectedField) : Prop where
  closed : '(' ∉ f.name.toList
  name : trimChars f.name.toList = f.name.toList
  displayed : ∀ shown ∈ f.displayed, shown ≠ "" ∧ trimChars shown.toList = shown.toList

variable {f : InjectedField}

theorem trimmed_ofText (s : String) : (ofText s).Trimmed := by
  rcases closed_or_open s with hs | ⟨before, after, hs, hbefore⟩
  · refine ⟨name_closed s, ?_, ?_⟩ <;> simp [ofText_closed hs, trimChars_trimChars]
  · refine ⟨name_closed s, ?_, ?_⟩
    · simp [ofText_open hs hbefore, trimChars_trimChars]
    · intro shown hshown
      rw [ofText_open hs hbefore] at hshown
      obtain ⟨hne, rfl⟩ := mem_nonemptyText.mp hshown
      rw [String.toList_ofList]
      exact ⟨by simpa using hne, trimChars_trimChars _⟩

theorem Trimmed.reread_eq (h : f.Trimmed) :
    f.reread = ⟨f.name, f.displayed.bind fun shown => shownIn shown.toList⟩ := by
  obtain ⟨name, displayed⟩ := f
  have hname : String.ofList (trimChars name.toList) = name := by rw [h.name, String.ofList_toList]
  cases displayed with
  | none =>
    rw [reread, text, ofText_closed h.closed, hname]
    rfl
  | some shown =>
    have htext : (text ⟨name, some shown⟩).toList =
        name.toList ++ '(' :: (shown.toList ++ [')']) := by simp [text]
    rw [reread, ofText_open htext h.closed, hname, shownIn_concat]
    rfl

theorem Trimmed.reread_eq_self_iff (h : f.Trimmed) :
    f.reread = f ↔ ∀ shown ∈ f.displayed, shown.toList.getLast? ≠ some ')' := by
  rw [h.reread_eq]
  obtain ⟨name, displayed⟩ := f
  cases displayed with
  | none => simp
  | some shown =>
    obtain ⟨hne, htrim⟩ := h.displayed shown rfl
    have hkept : shownIn shown.toList = some shown ↔ shown.toList.getLast? ≠ some ')' := by
      constructor
      · intro heq hlast
        have hless := closings_shownIn_lt hlast
        rw [heq] at hless
        exact Nat.lt_irrefl _ hless
      · intro hlast
        rw [shownIn_unclosed hlast, htrim, nonemptyText_toList hne]
    simpa using hkept

theorem Trimmed.closings_reread_lt (h : f.Trimmed) (hchanged : f.reread ≠ f) :
    closings f.reread.displayed < closings f.displayed := by
  have hclosed := (not_congr h.reread_eq_self_iff).mp hchanged
  push Not at hclosed
  obtain ⟨shown, hshown, hlast⟩ := hclosed
  rw [h.reread_eq, hshown]
  exact closings_shownIn_lt hlast

/-- The rounds end, since each round that changes the field cuts off a closing parenthesis. -/
theorem Trimmed.settles (h : f.Trimmed) :
    ∃ n ≤ closings f.displayed, (reread^[n] f).reread = reread^[n] f := by
  induction hcount : closings f.displayed using Nat.strong_induction_on generalizing f with
  | _ count ih =>
    by_cases hsame : f.reread = f
    · exact ⟨0, Nat.zero_le _, hsame⟩
    · have hless := h.closings_reread_lt hsame
      have hnext : f.reread.Trimmed := trimmed_ofText f.text
      obtain ⟨n, hn, hsettled⟩ := ih _ (hcount ▸ hless) hnext rfl
      exact ⟨n + 1, by omega, hsettled⟩

end Rereading

/-- What is settled when `s` is read. Blanks before it never count, and blanks after it count just
where they follow a closing parenthesis of the displayed field. The name is read for good, and the
displayed field unless a closing parenthesis is left at its end; each further round cuts off one or
more of these. -/
structure Settles (s : String) : Prop where
  front : ∀ blanks : String, (∀ c ∈ blanks.toList, isBlank c = true) →
    ofText (blanks ++ s) = ofText s
  back : ∀ blanks : String, blanks ≠ "" → (∀ c ∈ blanks.toList, isBlank c = true) →
    (ofText (s ++ blanks) = ofText s ↔ ¬ ('(' ∈ s.toList ∧ s.toList.getLast? = some ')'))
  name : (ofText s).reread.name = (ofText s).name
  displayed : (ofText s).reread = ofText s ↔
    ∀ shown ∈ (ofText s).displayed, shown.toList.getLast? ≠ some ')'
  rounds : ∃ n ≤ s.toList.count ')',
    (reread^[n] (ofText s)).reread = reread^[n] (ofText s)

section Blanks
variable {blanks : String}

private theorem ofText_blanks_append (h : ∀ c ∈ blanks.toList, isBlank c = true) (s : String) :
    ofText (blanks ++ s) = ofText s := by
  have hblanks : '(' ∉ blanks.toList := fun hm => absurd (h _ hm) (by decide)
  rcases closed_or_open s with hs | ⟨before, after, hs, hbefore⟩
  · have hclosed : '(' ∉ (blanks ++ s).toList := by simp [hblanks, hs]
    rw [ofText_closed hclosed, ofText_closed hs, String.toList_append, trimChars_blanks_append h]
  · have hopen : (blanks ++ s).toList = (blanks.toList ++ before) ++ '(' :: after := by simp [hs]
    rw [ofText_open hopen (by simp [hblanks, hbefore]), ofText_open hs hbefore,
      trimChars_blanks_append h]

private theorem ofText_append_blanks (hne : blanks ≠ "") (h : ∀ c ∈ blanks.toList, isBlank c = true)
    (s : String) :
    ofText (s ++ blanks) = ofText s ↔ ¬ ('(' ∈ s.toList ∧ s.toList.getLast? = some ')') := by
  have hblanks : '(' ∉ blanks.toList := fun hm => absurd (h _ hm) (by decide)
  rcases closed_or_open s with hs | ⟨before, after, hs, hbefore⟩
  · have hclosed : '(' ∉ (s ++ blanks).toList := by simp [hblanks, hs]
    rw [ofText_closed hclosed, ofText_closed hs, String.toList_append, trimChars_append_blanks h]
    simp [hs]
  · have hopen : (s ++ blanks).toList = before ++ '(' :: (after ++ blanks.toList) := by simp [hs]
    have hlast : s.toList.getLast? = some ')' ↔ after.getLast? = some ')' := by
      rw [hs]
      cases after <;> simp
    rw [ofText_open hopen hbefore, ofText_open hs hbefore, mk.injEq, eq_self_iff_true, true_and,
      shownIn_append_blanks (by simpa using hne) h, hlast]
    simp [hs]

end Blanks

theorem settles_ofText (s : String) : Settles s where
  front _ h := ofText_blanks_append h s
  back _ hne h := ofText_append_blanks hne h s
  name := by rw [(trimmed_ofText s).reread_eq]
  displayed := (trimmed_ofText s).reread_eq_self_iff
  rounds := by
    obtain ⟨n, hn, hsettled⟩ := (trimmed_ofText s).settles
    exact ⟨n, hn.trans (closings_ofText_le s), hsettled⟩

/-- A blank after the closing parenthesis is enough to change what is read, and one between two of
them to change it once more. -/
theorem department_unsettled :
    (¬ ∀ s blanks : String, (∀ c ∈ blanks.toList, isBlank c = true) →
      ofText (s ++ blanks) = ofText s) ∧
    ¬ ∀ s : String, (ofText s).reread = ofText s := by
  have hblank : ∀ c ∈ " ".toList, isBlank c = true := by
    intro c hc
    obtain rfl : c = ' ' := by simpa using hc
    decide
  constructor
  · intro hclaim
    have hsame := hclaim "department(foo)" " " hblank
    revert hsame
    decide
  · intro hclaim
    have hsame := hclaim "department(foo) )"
    revert hsame
    decide

end InjectedField
end DomainModel
