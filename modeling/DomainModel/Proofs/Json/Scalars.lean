import DomainModel.Json.Token
import DomainModel.Json.Writer
import Mathlib.Algebra.Group.Int.Defs
import Mathlib.Data.List.TakeWhile
/-!
# The written forms of scalars are read back

Every text is read back from its quoted form. A number is read back if it is by itself, because no
numeral runs on into what may come after a value.
-/
namespace DomainModel
namespace JsonToken

/-- The characters have these tokens, with any fuel that covers them. -/
def Spells (cs : List Char) (tokens : List JsonToken) : Prop :=
  ∀ fuel, cs.length ≤ fuel → tokensWithin fuel cs = some tokens

/-- What may come after a value: the end, or a character that continues no numeral. -/
def EndsValue (rest : List Char) : Prop := ∀ c, rest.head? = some c → c ∈ ['\n', ',', ']', '\x7d']

section Tokens
variable {cs : List Char} {tokens : List JsonToken}

theorem spells_nil : Spells [] [] := by
  intro fuel _
  cases fuel <;> rfl

theorem Spells.space {c : Char} (hc : isSpace c = true) (h : Spells cs tokens) :
    Spells (c :: cs) tokens := by
  intro fuel hfuel
  cases fuel with
  | zero => simp at hfuel
  | succ fuel =>
    rw [tokensWithin, if_pos hc]
    exact h fuel (by simpa using hfuel)

theorem Spells.token {first : List Char} {token : JsonToken} (h : Spells cs tokens)
    (hhead : ∃ c rest, first = c :: rest ∧ isSpace c = false)
    (hfirst : ∀ fuel, (first ++ cs).length ≤ fuel → first? fuel (first ++ cs) = some (token, cs)) :
    Spells (first ++ cs) (token :: tokens) := by
  obtain ⟨c, rest, rfl, hc⟩ := hhead
  intro fuel hfuel
  cases fuel with
  | zero => simp at hfuel
  | succ fuel =>
    have hread := hfirst (fuel + 1) hfuel
    have htokens := h fuel (by simp at hfuel; omega)
    simp only [List.cons_append] at hread ⊢
    rw [tokensWithin, if_neg (by simp [hc])]
    simp [hread, htokens]

theorem Spells.mark {c : Char} (hc : isMark c = true) (h : Spells cs tokens) :
    Spells (c :: cs) (.mark c :: tokens) := by
  have hmarks : c = '\x7b' ∨ c = '\x7d' ∨ c = '[' ∨ c = ']' ∨ c = ':' ∨ c = ',' := by
    simpa [isMark, or_assoc] using hc
  have hread : isSpace c = false ∧ ∀ fuel, first? fuel (c :: cs) = some (.mark c, cs) := by
    rcases hmarks with rfl | rfl | rfl | rfl | rfl | rfl <;> exact ⟨rfl, fun _ => rfl⟩
  have hhead : ∃ d rest, [c] = d :: rest ∧ isSpace d = false := ⟨c, [], rfl, hread.1⟩
  exact h.token hhead fun fuel _ => hread.2 fuel

theorem Spells.lineBreak (layout : Json.Layout) (level : Nat) (h : Spells cs tokens) :
    Spells (Json.lineBreak layout level ++ cs) tokens := by
  cases layout with
  | none => exact h
  | some width =>
    refine Spells.space rfl ?_
    induction width * level with
    | zero => exact h
    | succ n ih => exact Spells.space rfl ih

theorem Spells.colon (layout : Json.Layout) (h : Spells cs tokens) :
    Spells (Json.colon layout ++ cs) (.mark ':' :: tokens) := by
  cases layout with
  | none => exact h.mark rfl
  | some _ => exact (Spells.space rfl h).mark rfl

end Tokens

section Quoted
variable {rest : List Char}

private theorem hexDigit?_hexChar : ∀ n < 16, hexDigit? (Json.hexChar n) = some n := by decide

private theorem unicodeEscape?_control {c : Char} (hc : c.toNat < 0x20) :
    unicodeEscape?
        ('0' :: '0' :: Json.hexChar (c.toNat / 16) :: Json.hexChar (c.toNat % 16) :: rest) =
      some (some c, rest) := by
  have hzero : hexDigit? '0' = some 0 := by decide
  have hhigh := hexDigit?_hexChar (c.toNat / 16) (by omega)
  have hlow := hexDigit?_hexChar (c.toNat % 16) (by omega)
  have hunit : c.toNat / 16 * 16 + c.toNat % 16 = c.toNat := by omega
  have hsmall : ¬ 0xd800 ≤ c.toNat := by omega
  have hsmall' : ¬ 0xdc00 ≤ c.toNat := by omega
  simp [unicodeEscape?, hexUnit?, hzero, hhigh, hlow, hunit, hsmall, hsmall']

private theorem quoted?_escaped (c : Char) (fuel : Nat) (rest : List Char) :
    quoted? (fuel + 1) (Json.escaped c ++ rest) =
      (quoted? fuel rest).map fun p => (some c :: p.1, p.2) := by
  have hnamed : ∀ e, e ≠ 'u' → simpleEscape? e = some c →
      quoted? (fuel + 1) ('\\' :: e :: rest) =
        (quoted? fuel rest).map fun p => (some c :: p.1, p.2) := by
    intro e he hc
    rw [quoted?]
    · cases quoted? fuel rest <;> simp [hc]
    · simpa using he
  unfold Json.escaped
  split
  · next heq => exact hnamed '"' (by decide) (by rw [heq]; rfl)
  split
  · next heq => exact hnamed '\\' (by decide) (by rw [heq]; rfl)
  split
  · next heq => exact hnamed 'n' (by decide) (by rw [heq]; rfl)
  split
  · next heq => exact hnamed 'r' (by decide) (by rw [heq]; rfl)
  split
  · next heq => exact hnamed 't' (by decide) (by rw [heq]; rfl)
  split
  · next heq => exact hnamed 'b' (by decide) (by rw [heq]; rfl)
  split
  · next heq => exact hnamed 'f' (by decide) (by rw [heq]; rfl)
  split
  · next hcontrol =>
    simp only [List.cons_append, List.nil_append]
    rw [quoted?, unicodeEscape?_control hcontrol]
    cases hrest : quoted? fuel rest <;> simp [hrest]
  · next hquote hslash _ _ _ _ _ hcontrol =>
    simp only [List.cons_append, List.nil_append]
    rw [quoted?]
    · cases quoted? fuel rest <;> simp [hcontrol, hslash]
    all_goals simp_all

private theorem quoted?_chars (cs : List Char) {fuel : Nat} (hfuel : cs.length < fuel) :
    quoted? fuel (cs.flatMap Json.escaped ++ '"' :: rest) = some (cs.map some, rest) := by
  induction cs generalizing fuel with
  | nil =>
    cases fuel with
    | zero => simp at hfuel
    | succ fuel => rfl
  | cons c cs ih =>
    cases fuel with
    | zero => simp at hfuel
    | succ fuel =>
      rw [List.flatMap_cons, List.append_assoc, quoted?_escaped, ih (by simpa using hfuel)]
      rfl

theorem length_le_escaped (cs : List Char) : cs.length ≤ (cs.flatMap Json.escaped).length := by
  have hone : ∀ c, 1 ≤ (Json.escaped c).length := by
    intro c
    unfold Json.escaped
    repeat' split
    all_goals simp
  induction cs with
  | nil => simp
  | cons c cs ih =>
    have hc := hone c
    simp only [List.flatMap_cons, List.length_append, List.length_cons]
    omega

theorem Spells.quoted {tokens : List JsonToken} (s : String) (h : Spells rest tokens) :
    Spells (Json.quotedChars s ++ rest) (.scalar (.text s) :: tokens) := by
  refine h.token ⟨'"', _, rfl, rfl⟩ fun fuel hfuel => ?_
  have hlength := length_le_escaped s.toList
  have hread : quoted? fuel (s.toList.flatMap Json.escaped ++ '"' :: rest) =
      some (s.toList.map some, rest) := by
    refine quoted?_chars s.toList ?_
    simp only [Json.quotedChars, List.cons_append, List.append_assoc, List.length_cons,
      List.length_append] at hfuel
    omega
  simp [Json.quotedChars, first?, hread, ofQuoted]

end Quoted

section Numbers
variable {cs rest : List Char} {token : JsonToken} {negative : Bool}

theorem EndsValue.head (h : EndsValue rest) : ∀ c, rest.head? = some c →
    c.isDigit = false ∧ c ≠ '.' ∧ c ≠ 'e' ∧ c ≠ 'E' := by
  intro c hc
  have hends : c = '\n' ∨ c = ',' ∨ c = ']' ∨ c = '\x7d' := by simpa using h c hc
  rcases hends with rfl | rfl | rfl | rfl <;> decide

private theorem takeWhile_ends (h : EndsValue rest) (cs : List Char) :
    (cs ++ rest).takeWhile Char.isDigit = cs.takeWhile Char.isDigit := by
  induction cs with
  | nil =>
    cases rest with
    | nil => rfl
    | cons c rest => simp [(h.head c rfl).1]
  | cons c cs ih => simp [List.takeWhile_cons, ih]

private theorem dropWhile_ends (h : EndsValue rest) (cs : List Char) :
    (cs ++ rest).dropWhile Char.isDigit = cs.dropWhile Char.isDigit ++ rest := by
  induction cs with
  | nil =>
    cases rest with
    | nil => rfl
    | cons c rest => simp [(h.head c rfl).1]
  | cons c cs ih =>
    simp only [List.cons_append, List.dropWhile_cons, ih]
    split <;> rfl

private theorem wholePart?_ends (h : EndsValue rest) {whole after : List Char}
    (hcs : wholePart? cs = some (whole, after)) :
    wholePart? (cs ++ rest) = some (whole, after ++ rest) := by
  unfold wholePart? at hcs
  split at hcs
  · obtain ⟨rfl, rfl⟩ : ['0'] = whole ∧ _ = after := by simpa using hcs
    rfl
  · next hzero =>
    split at hcs
    · simp at hcs
    · next hdigits =>
      obtain ⟨rfl, rfl⟩ : cs.takeWhile Char.isDigit = whole ∧
          cs.dropWhile Char.isDigit = after := by
        simpa using hcs
      have hne : ∀ others, cs ++ rest ≠ '0' :: others := by
        intro others heq
        cases cs with
        | nil => simp at hdigits
        | cons c cs =>
          obtain ⟨rfl, -⟩ := List.cons.inj heq
          exact hzero cs rfl
      rw [wholePart?]
      · rw [takeWhile_ends h, dropWhile_ends h]
        split
        · next hnil => exact absurd hnil hdigits
        · rfl
      · exact hne

private theorem fractionPart?_ends (h : EndsValue rest) {fraction : Option (List Char)}
    {after : List Char} (hcs : fractionPart? cs = some (fraction, after)) :
    fractionPart? (cs ++ rest) = some (fraction, after ++ rest) := by
  unfold fractionPart? at hcs
  split at hcs
  · next others =>
    split at hcs
    · simp at hcs
    · next hdigits =>
      obtain ⟨rfl, rfl⟩ : some (others.takeWhile Char.isDigit) = fraction ∧
          others.dropWhile Char.isDigit = after := by simpa using hcs
      simp only [List.cons_append, fractionPart?, takeWhile_ends h, dropWhile_ends h]
  · next hpoint =>
    obtain ⟨rfl, rfl⟩ : none = fraction ∧ cs = after := by simpa using hcs
    rw [fractionPart?]
    intro others heq
    cases cs with
    | nil => exact (h.head '.' (by simpa using congrArg List.head? heq)).2.1 rfl
    | cons c cs =>
      obtain ⟨rfl, -⟩ := List.cons.inj heq
      exact hpoint cs rfl

private theorem exponentDigits?_ends (h : EndsValue rest) {exponent : Option Int}
    {after : List Char} (hcs : exponentDigits? negative cs = some (exponent, after)) :
    exponentDigits? negative (cs ++ rest) = some (exponent, after ++ rest) := by
  unfold exponentDigits? at hcs ⊢
  rw [takeWhile_ends h, dropWhile_ends h]
  cases hdigits : cs.takeWhile Char.isDigit with
  | nil => simp [hdigits] at hcs
  | cons c digits =>
    obtain ⟨hexponent, hafter⟩ : _ = exponent ∧ cs.dropWhile Char.isDigit = after := by
      simpa [hdigits] using hcs
    simp [hexponent, hafter]

private theorem exponentPart?_letter_ends (h : EndsValue rest) {exponent : Option Int}
    {after : List Char} (hcs : exponentPart? ('e' :: cs) = some (exponent, after)) :
    exponentPart? ('e' :: (cs ++ rest)) = some (exponent, after ++ rest) := by
  cases cs with
  | nil => simp [exponentPart?, exponentDigits?] at hcs
  | cons c more =>
    by_cases hplus : c = '+'
    · subst hplus
      exact exponentDigits?_ends h hcs
    by_cases hminus : c = '-'
    · subst hminus
      exact exponentDigits?_ends h hcs
    simp only [exponentPart?, List.cons_append] at hcs ⊢
    split at hcs
    · next heq => exact absurd (List.cons.inj heq).1 hplus
    · next heq => exact absurd (List.cons.inj heq).1 hminus
    · split
      · next heq => exact absurd (List.cons.inj heq).1 hplus
      · next heq => exact absurd (List.cons.inj heq).1 hminus
      · exact exponentDigits?_ends h hcs

private theorem exponentPart?_ends (h : EndsValue rest) {exponent : Option Int}
    {after : List Char} (hcs : exponentPart? cs = some (exponent, after)) :
    exponentPart? (cs ++ rest) = some (exponent, after ++ rest) := by
  by_cases hletter : ∃ others, cs = 'e' :: others ∨ cs = 'E' :: others
  · obtain ⟨others, rfl | rfl⟩ := hletter
    · exact exponentPart?_letter_ends h hcs
    · exact exponentPart?_letter_ends h hcs
  · have hlower : ∀ others, cs ≠ 'e' :: others := fun others heq => hletter ⟨others, .inl heq⟩
    have hupper : ∀ others, cs ≠ 'E' :: others := fun others heq => hletter ⟨others, .inr heq⟩
    obtain ⟨rfl, rfl⟩ : none = exponent ∧ cs = after := by
      rw [exponentPart?] at hcs
      · simpa using hcs
      · exact hlower
      · exact hupper
    have hhead : ∀ c others, cs ++ rest = c :: others → c ≠ 'e' ∧ c ≠ 'E' := by
      intro c others heq
      cases cs with
      | nil => exact (h.head c (by simpa using congrArg List.head? heq)).2.2
      | cons d ds =>
        obtain ⟨rfl, -⟩ := List.cons.inj heq
        exact ⟨fun hd => hlower ds (by rw [hd]), fun hd => hupper ds (by rw [hd])⟩
    rw [exponentPart?]
    · exact fun others heq => (hhead _ others heq).1 rfl
    · exact fun others heq => (hhead _ others heq).2 rfl

private theorem number?_ends (h : EndsValue rest) (hcs : number? negative cs = some (token, [])) :
    number? negative (cs ++ rest) = some (token, rest) := by
  obtain ⟨⟨whole, after⟩, hwhole, hcs⟩ := Option.bind_eq_some_iff.mp hcs
  obtain ⟨⟨fraction, after'⟩, hfraction, hcs⟩ := Option.bind_eq_some_iff.mp hcs
  obtain ⟨⟨exponent, after''⟩, hexponent, hcs⟩ := Option.bind_eq_some_iff.mp hcs
  obtain ⟨htoken, rfl⟩ : NumberParts.token ⟨negative, whole, fraction, exponent⟩ = token ∧
      after'' = [] := by simpa using hcs
  simp [number?, wholePart?_ends h hwhole, fractionPart?_ends h hfraction,
    exponentPart?_ends h hexponent, htoken]

/-- A number with its sign. -/
def numeral? : List Char → Option (JsonToken × List Char)
  | '-' :: cs => number? true cs
  | cs => number? false cs

private theorem number?_digit {c : Char} (h : number? negative (c :: cs) ≠ none) :
    c.isDigit = true := by
  refine Classical.byContradiction fun hc => h ?_
  have hzero : c ≠ '0' := by
    rintro rfl
    exact hc rfl
  have hwhole : wholePart? (c :: cs) = none := by
    rw [wholePart?]
    · simp [hc]
    · simpa using hzero
  simp [number?, hwhole]

private theorem first?_digit {c : Char} (hc : c.isDigit = true) (fuel : Nat) :
    first? fuel (c :: cs) = number? false (c :: cs) := by
  have hne : ∀ d, d.isDigit = false → c ≠ d := by
    rintro d hd rfl
    simp [hc] at hd
  have hmark : isMark c = false := by
    simp [isMark, hne '\x7b' rfl, hne '\x7d' rfl, hne '[' rfl, hne ']' rfl, hne ':' rfl,
      hne ',' rfl]
  rw [first?]
  · simp [hmark]
  all_goals intros
  all_goals simp_all

/-- A number by itself is read in the same way before whatever may come after it. -/
theorem Spells.number {tokens : List JsonToken} (h : Spells rest tokens) (hends : EndsValue rest)
    (hcs : numeral? cs = some (token, [])) : Spells (cs ++ rest) (token :: tokens) := by
  cases cs with
  | nil => simp [numeral?, number?, wholePart?] at hcs
  | cons c others =>
    by_cases hminus : c = '-'
    · subst hminus
      refine h.token ⟨'-', others, rfl, rfl⟩ fun fuel _ => ?_
      exact number?_ends hends hcs
    · have hnumber : number? false (c :: others) = some (token, []) := by
        rwa [numeral?] at hcs
        simpa using hminus
      have hdigit := number?_digit (by rw [hnumber]; exact Option.some_ne_none _)
      refine h.token ⟨c, others, rfl, ?_⟩ fun fuel _ => ?_
      · have hne : ∀ d, d.isDigit = false → c ≠ d := by
          rintro d hd rfl
          simp [hdigit] at hd
        simp [isSpace, hne ' ' rfl, hne '\n' rfl, hne '\t' rfl, hne '\r' rfl]
      · exact (first?_digit hdigit fuel).trans (number?_ends hends hnumber)

private theorem digitsValue_toDigits (n : Nat) : digitsValue (Nat.toDigits 10 n) = n := by
  have hvalue := Nat.ofDigitChars_ten_toDigits (n := n)
  rw [Nat.ofDigitChars_eq_foldl] at hvalue
  simpa [digitsValue, Nat.mul_comm] using hvalue

private theorem eq_zero_of_head_toDigits (n : Nat)
    (h : (Nat.toDigits 10 n).head? = some '0') : n = 0 := by
  induction n using Nat.strongRecOn with
  | ind n ih =>
    by_cases hsmall : n < 10
    · have hdigit : ∀ m < 10, m.digitChar = '0' → m = 0 := by decide
      rw [Nat.toDigits_of_lt_base hsmall] at h
      exact hdigit n hsmall (by simpa using h)
    · obtain ⟨c, cs, hcs⟩ :=
        List.exists_cons_of_ne_nil (Nat.toDigits_ne_nil (n := n / 10) (b := 10))
      rw [Nat.toDigits_of_base_le (by decide) (by omega), hcs] at h
      have hzero := ih (n / 10) (by omega) (by rw [hcs]; exact h)
      omega

private theorem number?_toDigits (n : Nat) : number? negative (Nat.toDigits 10 n) =
    some (NumberParts.token ⟨negative, Nat.toDigits 10 n, none, none⟩, []) := by
  have hdigits : ∀ c ∈ Nat.toDigits 10 n, c.isDigit = true :=
    fun c hc => Nat.isDigit_of_mem_toDigits (by decide) (by decide) hc
  have hwhole : wholePart? (Nat.toDigits 10 n) = some (Nat.toDigits 10 n, []) := by
    by_cases hzero : n = 0
    · subst hzero
      rfl
    · rw [wholePart?]
      · rw [List.takeWhile_eq_self_iff.mpr hdigits, List.dropWhile_eq_nil_iff.mpr hdigits]
        split
        · next hnil => exact absurd hnil Nat.toDigits_ne_nil
        · rfl
      · intro others heq
        exact hzero (eq_zero_of_head_toDigits n (by rw [heq]; rfl))
  simp [number?, hwhole, fractionPart?, exponentPart?]

theorem numeral?_intChars {n : Int} (hlow : -2 ^ 63 ≤ n) (hhigh : n < 2 ^ 64) :
    numeral? (Json.intChars n) = some (.scalar (.int n), []) := by
  unfold Json.intChars
  split
  · next hnegative =>
    have hn : (decide (n.natAbs = 0) || decide (n.natAbs > Nat.pow 2 63)) = false := by
      rw [Bool.or_eq_false_iff, decide_eq_false_iff_not, decide_eq_false_iff_not,
        show Nat.pow 2 63 = 9223372036854775808 from rfl]
      omega
    have hneg : -(n.natAbs : Int) = n := by omega
    simp only [numeral?, number?_toDigits, NumberParts.token, digitsValue_toDigits, hn, hneg,
      if_true, Bool.false_eq_true, if_false]
  · next hnegative =>
    have hminus : ∀ cs, Nat.toDigits 10 n.natAbs ≠ '-' :: cs := by
      intro cs heq
      have hmem : '-' ∈ Nat.toDigits 10 n.natAbs := by simp [heq]
      exact absurd (Nat.isDigit_of_mem_toDigits (by decide) (by decide) hmem) (by decide)
    have hn : n.natAbs < Nat.pow 2 64 := by
      rw [show Nat.pow 2 64 = 18446744073709551616 from rfl]
      omega
    have hpos : (n.natAbs : Int) = n := by omega
    rw [numeral?]
    · simp only [number?_toDigits, NumberParts.token, digitsValue_toDigits, hn, hpos, if_true,
        Bool.false_eq_true, if_false]
    · exact hminus

end Numbers

end JsonToken

/-- Whole numbers of 64 bits, and the binary64 numbers whose written form is read back. -/
def Scalar.Printable : Scalar → Prop
  | .int n => -2 ^ 63 ≤ n ∧ n < 2 ^ 64
  | .float x => JsonToken.numeral? (Json.decimalLayout.text x) = some (.scalar (.float x), [])
  | _ => True

instance : DecidablePred Scalar.Printable
  | .int _ => inferInstanceAs (Decidable (_ ∧ _))
  | .float _ => inferInstanceAs (Decidable (_ = _))
  | .null | .bool _ | .text _ => isTrue trivial

theorem JsonToken.Spells.scalar {rest : List Char} {tokens : List JsonToken} {s : Scalar}
    (h : Spells rest tokens) (hends : EndsValue rest) (hs : s.Printable) :
    Spells (Json.scalarChars s ++ rest) (.scalar s :: tokens) := by
  cases s with
  | null => exact h.token ⟨'n', _, rfl, rfl⟩ fun _ _ => rfl
  | bool b => cases b <;> exact h.token ⟨_, _, rfl, rfl⟩ fun _ _ => rfl
  | int n => exact h.number hends (numeral?_intChars hs.1 hs.2)
  | float x => exact h.number hends hs
  | text s => exact h.quoted s

end DomainModel
