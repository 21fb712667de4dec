import DomainModel.Proofs.Text.Identifiers
/-!
# Camel case in one pass

Camel case is made in three passes: blanks are put at the case boundaries, the text is split into
words, and the words are cased and joined. Each letter of the result is already decided by the
characters that stand before it in the text.
-/
namespace DomainModel

/-- What stands before `c` makes it a capital of camel case. -/
def Raised (before : List Char) (c : Char) : Prop :=
  (∃ d ∈ before, d.isAlphanum = true) ∧
    ∃ last ∈ before.getLast?, last.isAlphanum = false ∨
      c.isUpper = true ∧ (last.isLower = true ∨ last.isDigit = true)

instance (before : List Char) (c : Char) : Decidable (Raised before c) :=
  inferInstanceAs (Decidable (_ ∧ ∃ last ∈ before.getLast?, _))

/-- The character as it stands in camel case, if it is a letter or a digit. -/
def recased (before : List Char) (c : Char) : Option Char :=
  if c.isAlphanum then some (if Raised before c then c.toUpper else c.toLower) else none

/-- The characters that follow `before`, in camel case. -/
def recasedAfter (before : List Char) : List Char → List Char
  | [] => []
  | c :: rest => (recased before c).toList ++ recasedAfter (before ++ [c]) rest

section Boundaries

def isBoundary (c d : Char) : Bool := (c.isLower || c.isDigit) && d.isUpper

/-- What follows `c`, with a blank at each boundary. -/
def spacedAfter (c : Char) : List Char → List Char
  | [] => []
  | d :: rest => if isBoundary c d then ' ' :: d :: spacedAfter d rest else d :: spacedAfter d rest

private theorem isBoundary_of_isUpper {c : Char} (h : c.isUpper = true) (d : Char) :
    isBoundary c d = false := by
  have hrange := isUpper_iff.mp h
  have hlower : c.isLower = false := by
    rw [Bool.eq_false_iff, ne_eq, isLower_iff]
    omega
  have hdigit : c.isDigit = false := by
    rw [Bool.eq_false_iff, ne_eq, Char.isDigit_iff_toNat]
    have hnine : '9'.toNat = 57 := rfl
    omega
  simp [isBoundary, hlower, hdigit]

/-- No boundary is missed: the search goes on after the capital of a boundary, and a capital
begins none. -/
theorem spaceCapitals_cons (c : Char) (rest : List Char) :
    spaceCapitals (c :: rest) = c :: spacedAfter c rest := by
  suffices h : (∀ c, spaceCapitals (c :: rest) = c :: spacedAfter c rest) ∧
      ∀ c, c.isUpper = true → spaceCapitals rest = spacedAfter c rest from h.1 c
  induction rest with
  | nil => exact ⟨fun _ => rfl, fun _ _ => rfl⟩
  | cons d rest ih =>
    constructor
    · intro c
      rw [spaceCapitals, spacedAfter]
      change (if isBoundary c d then _ else _) = _
      cases hboundary : isBoundary c d with
      | true => simp [ih.2 d (Bool.and_eq_true_iff.mp hboundary).2]
      | false => simp [ih.1 d]
    · intro c hc
      rw [ih.1 d, spacedAfter, isBoundary_of_isUpper hc]
      rfl

end Boundaries

section Runs

@[simp] theorem capitalized_cons (c : Char) (rest : List Char) :
    capitalized (c :: rest) = c.toUpper :: rest := rfl

theorem alphanumericRuns_cons {c : Char} (h : c.isAlphanum = true) (rest : List Char) :
    alphanumericRuns (c :: rest) =
      (c :: rest.takeWhile Char.isAlphanum) ::
        alphanumericRuns (rest.dropWhile Char.isAlphanum) := by
  induction rest generalizing c with
  | nil => simp [alphanumericRuns, h]
  | cons d rest ih =>
    rw [alphanumericRuns.eq_def]
    simp only [h, List.takeWhile_cons, List.dropWhile_cons, ↓reduceIte]
    cases hd : d.isAlphanum with
    | true => simp [ih hd, hd]
    | false => cases hruns : alphanumericRuns (d :: rest) <;> simp [hd, hruns]

/-- The letters and digits of a text, the first of each word after `begun` in upper case. -/
def raiseInitials (begun inWord : Bool) : List Char → List Char
  | [] => []
  | c :: rest =>
    if c.isAlphanum then
      (if begun && !inWord then c.toUpper else c.toLower) :: raiseInitials true true rest
    else raiseInitials begun false rest

private theorem toUpper_toLower_of_isAlphanum {c : Char} (h : c.isAlphanum = true) :
    c.toLower.toUpper = c.toUpper :=
  toUpper_toLower (by simp [isIdentifierChar, h])

private theorem flatMap_alphanumericRuns (cs : List Char) :
    ((alphanumericRuns cs).flatMap fun w => capitalized (w.map Char.toLower)) =
        raiseInitials true false cs ∧
      (cs.takeWhile Char.isAlphanum).map Char.toLower ++
          ((alphanumericRuns (cs.dropWhile Char.isAlphanum)).flatMap
            fun w => capitalized (w.map Char.toLower)) =
        raiseInitials true true cs := by
  -- the words after the first, where `cs` begins between two words or within one
  induction cs with
  | nil => exact ⟨rfl, rfl⟩
  | cons c rest ih =>
    cases hc : c.isAlphanum with
    | true =>
      rw [alphanumericRuns_cons hc]
      simp [raiseInitials, hc, toUpper_toLower_of_isAlphanum hc, ih.2]
    | false => simp [alphanumericRuns, raiseInitials, hc, ih.1]

theorem camelWords_alphanumericRuns (cs : List Char) :
    camelWords (alphanumericRuns cs) = raiseInitials false false cs := by
  induction cs with
  | nil => rfl
  | cons c rest ih =>
    cases hc : c.isAlphanum with
    | true =>
      rw [alphanumericRuns_cons hc]
      simp [camelWords, raiseInitials, hc, (flatMap_alphanumericRuns rest).2]
    | false => simpa [alphanumericRuns, raiseInitials, hc] using ih

end Runs

section OnePass

private theorem isAlphanum_of_isBoundary {c d : Char} (h : isBoundary c d = true) :
    c.isAlphanum = true ∧ d.isAlphanum = true := by
  obtain ⟨hc, hd⟩ := Bool.and_eq_true_iff.mp h
  constructor
  · change (c.isUpper || c.isLower || c.isDigit) = true
    rw [Bool.or_assoc, hc, Bool.or_true]
  · change (d.isUpper || d.isLower || d.isDigit) = true
    simp [hd]

private theorem raised_append_singleton (before : List Char) (last c : Char) :
    Raised (before ++ [last]) c ↔
      (before ++ [last]).any Char.isAlphanum = true ∧
        (last.isAlphanum = false ∨ isBoundary last c = true) := by
  have hboundary : isBoundary last c = true ↔
      c.isUpper = true ∧ (last.isLower = true ∨ last.isDigit = true) := by
    simp [isBoundary, and_comm]
  rw [Raised, List.any_eq_true, hboundary]
  simp

private theorem raiseInitials_spaced (before : List Char) (last c : Char) (rest : List Char) :
    raiseInitials ((before ++ [last]).any Char.isAlphanum) last.isAlphanum
        (if isBoundary last c then ' ' :: c :: rest else c :: rest) =
      (recased (before ++ [last]) c).toList ++
        raiseInitials ((before ++ [last] ++ [c]).any Char.isAlphanum) c.isAlphanum rest := by
  -- one character of the spaced text: whether a word has begun, and whether one goes on, is seen
  -- from the characters before it
  cases hc : c.isAlphanum with
  | false =>
    have hboundary : isBoundary last c = false := by
      by_contra h
      exact Bool.false_ne_true (hc.symm.trans (isAlphanum_of_isBoundary (eq_true_of_ne_false h)).2)
    simp [raiseInitials, recased, hc, hboundary]
  | true =>
    cases hboundary : isBoundary last c with
    | true =>
      have hlast := (isAlphanum_of_isBoundary hboundary).1
      simp [raiseInitials, recased, raised_append_singleton, hc, hboundary, hlast]
    | false =>
      simp [raiseInitials, recased, raised_append_singleton, hc, hboundary]

theorem raiseInitials_spacedAfter (before : List Char) (last : Char) (rest : List Char) :
    raiseInitials ((before ++ [last]).any Char.isAlphanum) last.isAlphanum
        (spacedAfter last rest) =
      recasedAfter (before ++ [last]) rest := by
  induction rest generalizing before last with
  | nil => rfl
  | cons c rest ih => rw [spacedAfter, raiseInitials_spaced, ih, recasedAfter]

theorem camelCase_toList (s : String) : (camelCase s).toList = recasedAfter [] s.toList := by
  rw [camelCase, String.toList_ofList, camelWords_alphanumericRuns]
  cases s.toList with
  | nil => rfl
  | cons c rest =>
    have hrest := raiseInitials_spacedAfter [] c rest
    have hraised : ¬ Raised [] c := by simp [Raised]
    rw [spaceCapitals_cons, raiseInitials, recasedAfter, recased, if_neg hraised]
    cases hc : c.isAlphanum <;> simpa [hc] using hrest

theorem recasedAfter_eq_nil_iff (before cs : List Char) :
    recasedAfter before cs = [] ↔ ∀ c ∈ cs, c.isAlphanum = false := by
  induction cs generalizing before with
  | nil => simp [recasedAfter]
  | cons c rest ih => simp [recasedAfter, recased, ih]

theorem camelCase_eq_empty_iff (s : String) :
    camelCase s = "" ↔ ∀ c ∈ s.toList, c.isAlphanum = false := by
  rw [← String.toList_eq_nil_iff, camelCase_toList, recasedAfter_eq_nil_iff]

private theorem recasedAfter_eq_filterMap (before cs : List Char) :
    recasedAfter before cs =
      (cs.zipIdx before.length).filterMap fun x => recased ((before ++ cs).take x.2) x.1 := by
  induction cs generalizing before with
  | nil => rfl
  | cons c rest ih =>
    have hbefore : (before ++ c :: rest).take before.length = before := List.take_left
    rw [recasedAfter, ih, List.zipIdx_cons, List.filterMap_cons, hbefore]
    cases recased before c <;> simp

/-- Camel case is the sequence of the letters and digits of the text, each cased by the characters
before it. -/
theorem camelCase_onePass (s : String) :
    (camelCase s).toList =
      s.toList.zipIdx.filterMap fun x => recased (s.toList.take x.2) x.1 := by
  rw [camelCase_toList, recasedAfter_eq_filterMap]
  rfl

example : camelCase "order_item2Part (XML)" = "orderItem2PartXml" := by decide

end OnePass
end DomainModel
