import DomainModel.Proofs.Calendar.Gregorian
/-!
# Changelog stamps

A stamp of 14 digits is read back as a date and a time of day. The stamp of a moment in the years 0
to 9999 is read back to this moment, and the order of stamps is that of the moments they tell.
-/
namespace DomainModel

open Gregorian

/-- What the digits of a stamp tell. -/
structure StampFields where
  year : Nat
  month : Nat
  day : Nat
  hour : Nat
  minute : Nat
  second : Nat

namespace StampFields

/-- The number that the digits from `first` to before `last` write. -/
def between (first last : Nat) (cs : List Char) : Nat :=
  Nat.ofDigitChars 10 ((cs.take last).drop first) 0

def ofDigits (cs : List Char) : StampFields :=
  ⟨between 0 4 cs, between 4 6 cs, between 6 8 cs, between 8 10 cs, between 10 12 cs,
    between 12 14 cs⟩

/-- The calendar has the date, and a day has the time. -/
structure IsMoment (f : StampFields) : Prop where
  date : IsDate f.year f.month f.day
  hour_lt : f.hour < 24
  minute_lt : f.minute < 60
  second_lt : f.second < 60

instance (f : StampFields) : Decidable f.IsMoment :=
  decidable_of_iff (IsDate f.year f.month f.day ∧ f.hour < 24 ∧ f.minute < 60 ∧ f.second < 60)
    ⟨fun ⟨h, h', h'', h'''⟩ => ⟨h, h', h'', h'''⟩, fun ⟨h, h', h'', h'''⟩ => ⟨h, h', h'', h'''⟩⟩

/-- The seconds since the beginning of 1970. -/
def seconds (f : StampFields) : Int :=
  86400 * dayNumber f.year f.month f.day + (3600 * f.hour + 60 * f.minute + f.second : Nat)

/-- The stamp as one number. -/
def number (f : StampFields) : Nat :=
  ((((f.year * 100 + f.month) * 100 + f.day) * 100 + f.hour) * 100 + f.minute) * 100 + f.second

end StampFields

/-- The moment that a stamp of 14 digits tells. -/
def readStamp? (s : String) : Option Int :=
  let f := StampFields.ofDigits s.toList
  if s.toList.length = 14 ∧ s.toList.all Char.isDigit = true ∧ f.IsMoment then some f.seconds
  else none

/-- From the beginning of year 0 to the end of year 9999. -/
def InFourDigitYears (seconds : Int) : Prop :=
  86400 * dayNumber 0 1 1 ≤ seconds ∧ seconds < 86400 * dayNumber 10000 1 1

/-! ## Texts of digits -/

section Digits

/-- A text of so many digits that write a number. -/
structure DigitsOf (width n : Nat) (cs : List Char) : Prop where
  length_eq : cs.length = width
  isDigit : ∀ c ∈ cs, c.isDigit = true
  value_eq : Nat.ofDigitChars 10 cs 0 = n

theorem digitsOf_padded {width n : Nat} (hwidth : 0 < width) (hn : n < 10 ^ width) :
    DigitsOf width n (padded width n).toList := by
  have hlength := (Nat.length_toDigits_le_iff (b := 10) (by decide) hwidth).mpr hn
  rw [padded, String.toList_ofList]
  refine ⟨?_, ?_, ?_⟩
  · rw [List.length_append, List.length_replicate]
    omega
  · intro c hc
    rcases List.mem_append.mp hc with hzero | hdigit
    · rw [List.eq_of_mem_replicate hzero]
      rfl
    · exact Nat.isDigit_of_mem_toDigits (by decide) (by decide) hdigit
  · rw [Nat.ofDigitChars_append, Nat.ofDigitChars_replicate_zero, Nat.mul_zero,
      Nat.ofDigitChars_ten_toDigits]

theorem ofDigitChars_cons_zero (c : Char) (cs : List Char) :
    Nat.ofDigitChars 10 (c :: cs) 0 =
      10 ^ cs.length * (c.toNat - '0'.toNat) + Nat.ofDigitChars 10 cs 0 := by
  rw [Nat.ofDigitChars_cons, Nat.ofDigitChars_eq_ofDigitChars_zero, Nat.mul_zero, Nat.zero_add]

theorem ofDigitChars_lt {cs : List Char} (h : ∀ c ∈ cs, c.isDigit = true) :
    Nat.ofDigitChars 10 cs 0 < 10 ^ cs.length := by
  induction cs with
  | nil => decide
  | cons c cs ih =>
    have hc : c.toNat - '0'.toNat ≤ 9 :=
      Nat.sub_le_sub_right (Char.isDigit_iff_toNat.mp (h c List.mem_cons_self)).2 '0'.toNat
    have hrest := ih fun d hd => h d (List.mem_cons_of_mem c hd)
    have hfirst := Nat.mul_le_mul_left (10 ^ cs.length) hc
    rw [ofDigitChars_cons_zero, List.length_cons, Nat.pow_succ]
    omega

theorem lt_of_ofDigitChars_lt {cs ds : List Char} (hcs : ∀ c ∈ cs, c.isDigit = true)
    (hds : ∀ d ∈ ds, d.isDigit = true) (hlength : cs.length = ds.length)
    (h : Nat.ofDigitChars 10 cs 0 < Nat.ofDigitChars 10 ds 0) : cs < ds := by
  induction cs generalizing ds with
  | nil =>
    rw [List.eq_nil_of_length_eq_zero hlength.symm] at h
    exact absurd h (Nat.lt_irrefl _)
  | cons c cs ih =>
    cases ds with
    | nil => exact absurd hlength (Nat.succ_ne_zero _)
    | cons d ds =>
      have hc := (Char.isDigit_iff_toNat.mp (hcs c List.mem_cons_self)).1
      have hd := (Char.isDigit_iff_toNat.mp (hds d List.mem_cons_self)).1
      have hrest := ofDigitChars_lt fun e he => hds e (List.mem_cons_of_mem d he)
      rw [List.length_cons, List.length_cons, Nat.succ_inj] at hlength
      rw [ofDigitChars_cons_zero, ofDigitChars_cons_zero, hlength] at h
      rw [List.cons_lt_cons_iff]
      rcases Nat.lt_trichotomy c.toNat d.toNat with hlt | heq | hgt
      · exact .inl hlt
      · rw [heq, Nat.add_lt_add_iff_left] at h
        exact .inr ⟨Char.toNat_inj.mp heq, ih (fun e he => hcs e (List.mem_cons_of_mem c he))
          (fun e he => hds e (List.mem_cons_of_mem d he)) hlength h⟩
      · have hfirst := Nat.mul_le_mul_left (10 ^ ds.length)
          (show d.toNat - '0'.toNat + 1 ≤ c.toNat - '0'.toNat by omega)
        rw [Nat.mul_succ] at hfirst
        omega

end Digits

/-! ## The order of stamps -/

namespace StampFields

theorem ofDigitChars_take (cs : List Char) (first count : Nat) (h : first + count ≤ cs.length) :
    Nat.ofDigitChars 10 (cs.take (first + count)) 0 =
      Nat.ofDigitChars 10 (cs.take first) 0 * 10 ^ count + between first (first + count) cs := by
  have htake : (cs.take (first + count)).take first = cs.take first := by
    rw [List.take_take, Nat.min_eq_left (Nat.le_add_right first count)]
  have hlength : ((cs.take (first + count)).drop first).length = count := by
    rw [List.length_drop, List.length_take]
    omega
  rw [← List.take_append_drop first (cs.take (first + count)), htake, Nat.ofDigitChars_append,
    Nat.ofDigitChars_eq_ofDigitChars_zero, hlength, Nat.mul_comm, between]

/-- The fields stand in the order of their weight, so they make up the number of all digits. -/
theorem number_ofDigits {cs : List Char} (h : cs.length = 14) :
    (ofDigits cs).number = Nat.ofDigitChars 10 cs 0 := by
  have hsecond := ofDigitChars_take cs 12 2 (by omega)
  have hminute := ofDigitChars_take cs 10 2 (by omega)
  have hhour := ofDigitChars_take cs 8 2 (by omega)
  have hday := ofDigitChars_take cs 6 2 (by omega)
  have hmonth := ofDigitChars_take cs 4 2 (by omega)
  have hyear : Nat.ofDigitChars 10 (cs.take 4) 0 = between 0 4 cs := rfl
  rw [List.take_of_length_le (by omega)] at hsecond
  rw [hsecond, hminute, hhour, hday, hmonth, hyear]
  rfl

theorem IsMoment.number_lt {f f' : StampFields} (h : f.IsMoment) (h' : f'.IsMoment)
    (hlt : f.seconds < f'.seconds) : f.number < f'.number := by
  obtain ⟨hdate, hhour, hminute, hsecond⟩ := h
  obtain ⟨hdate', hhour', hminute', hsecond'⟩ := h'
  have hday := hdate.day_le.trans (daysInMonth_le _ _)
  have hday' := hdate'.day_le.trans (daysInMonth_le _ _)
  have hmonth := hdate.month_le
  have hmonth' := hdate'.month_le
  unfold seconds at hlt
  unfold number
  -- an earlier date of the second moment would put it before the first by a whole day
  have hearlier : ¬(f'.year < f.year ∨ f'.year = f.year ∧
      (f'.month < f.month ∨ f'.month = f.month ∧ f'.day < f.day)) := by
    intro hearlier
    have hdays := hdate'.dayNumber_lt hearlier
    omega
  by_cases hsame : f.year = f'.year ∧ f.month = f'.month ∧ f.day = f'.day
  · obtain ⟨hyear, hmonth, hday⟩ := hsame
    rw [hyear, hmonth, hday] at hlt ⊢
    omega
  · omega

end StampFields

section Order
variable {d d' : String} {t t' : Int}

theorem readStamp?_eq_some : readStamp? d = some t ↔
    (d.toList.length = 14 ∧ (∀ c ∈ d.toList, c.isDigit = true) ∧
      (StampFields.ofDigits d.toList).IsMoment) ∧ (StampFields.ofDigits d.toList).seconds = t := by
  simp only [readStamp?, List.all_eq_true, Option.ite_none_right_eq_some, Option.some_inj]

theorem stamp_lt_of_readStamp?_lt (h : readStamp? d = some t) (h' : readStamp? d' = some t')
    (hlt : t < t') : d < d' := by
  obtain ⟨⟨hlength, hdigits, hmoment⟩, rfl⟩ := readStamp?_eq_some.mp h
  obtain ⟨⟨hlength', hdigits', hmoment'⟩, rfl⟩ := readStamp?_eq_some.mp h'
  have hnumber := hmoment.number_lt hmoment' hlt
  rw [StampFields.number_ofDigits hlength, StampFields.number_ofDigits hlength'] at hnumber
  exact String.lt_iff.mpr
    (lt_of_ofDigitChars_lt hdigits hdigits' (hlength.trans hlength'.symm) hnumber)

end Order

/-! ## Reading a stamp -/

namespace StampFields

section Between
variable {first last : Nat} {front back : List Char}

theorem between_append (h : last ≤ front.length) :
    between first last (front ++ back) = between first last front := by
  rw [between, between, List.take_append_of_le_length h]

theorem between_append_self (hfirst : first = front.length)
    (hlast : last = front.length + back.length) :
    between first last (front ++ back) = Nat.ofDigitChars 10 back 0 := by
  rw [between, hfirst, hlast, ← List.length_append, List.take_length, List.drop_left]

end Between

theorem ofDigits_append {f : StampFields} {year month day hour minute second : List Char}
    (hyear : DigitsOf 4 f.year year) (hmonth : DigitsOf 2 f.month month)
    (hday : DigitsOf 2 f.day day) (hhour : DigitsOf 2 f.hour hour)
    (hminute : DigitsOf 2 f.minute minute) (hsecond : DigitsOf 2 f.second second) :
    ofDigits (year ++ month ++ day ++ hour ++ minute ++ second) = f := by
  have hall : between 0 4 year = f.year := by
    rw [between, List.drop_zero, ← hyear.length_eq, List.take_length, hyear.value_eq]
  simp [ofDigits, between_append, between_append_self, hall, hyear.length_eq, hmonth.length_eq,
    hmonth.value_eq, hday.length_eq, hday.value_eq, hhour.length_eq, hhour.value_eq,
    hminute.length_eq, hminute.value_eq, hsecond.length_eq, hsecond.value_eq, -List.append_assoc]

end StampFields

section Moment
variable {seconds : Int}

theorem InFourDigitYears.date (h : InFourDigitYears seconds) :
    ∃ year month day : Nat, Date.ofDays (seconds.fdiv 86400) = ⟨year, month, day⟩ ∧
      IsDate year month day ∧ dayNumber year month day = seconds.fdiv 86400 ∧ year ≤ 9999 := by
  obtain ⟨hfirst, hlast⟩ := h
  rw [Int.fdiv_eq_ediv_of_nonneg _ (by decide)]
  obtain ⟨year, month, day, hdate, hvalid, hdays⟩ :=
    ofDays_eq (show dayNumber 0 1 1 ≤ seconds / 86400 by omega)
  refine ⟨year, month, day, hdate, hvalid, hdays, ?_⟩
  by_contra hyear
  have hyears : daysBeforeYear 10000 ≤ daysBeforeYear year := daysBeforeYear_mono (by omega)
  rw [dayNumber_newYear] at hlast
  rw [dayNumber, daysBeforeYear_epoch] at hdays
  omega

theorem yearText_of_le {year : Nat} (h : year ≤ 9999) : yearText year = padded 4 year := by
  rw [yearText, if_neg (by omega), if_neg (by omega), Int.natAbs_natCast]

theorem InFourDigitYears.stamp_eq (h : InFourDigitYears seconds) :
    ∃ f : StampFields, f.IsMoment ∧ f.seconds = seconds ∧ f.year ≤ 9999 ∧
      stamp seconds = padded 4 f.year ++ padded 2 f.month ++ padded 2 f.day ++ padded 2 f.hour ++
        padded 2 f.minute ++ padded 2 f.second := by
  obtain ⟨year, month, day, hdate, hvalid, hdays, hyear⟩ := h.date
  have htime : 86400 * seconds.fdiv 86400 + (seconds.fmod 86400).toNat = seconds := by
    rw [Int.fdiv_eq_ediv_of_nonneg _ (by decide), Int.fmod_eq_emod_of_nonneg _ (by decide)]
    omega
  have hlt : (seconds.fmod 86400).toNat < 86400 := by
    rw [Int.fmod_eq_emod_of_nonneg _ (by decide)]
    omega
  simp only [stamp, hdate, yearText_of_le hyear]
  generalize (seconds.fmod 86400).toNat = time at htime hlt
  refine ⟨⟨year, month, day, time / 3600, time / 60 % 60, time % 60⟩,
    ⟨hvalid, ?_, ?_, ?_⟩, ?_, hyear, rfl⟩
  · simp only
    omega
  · exact Nat.mod_lt _ (by decide)
  · exact Nat.mod_lt _ (by decide)
  · simp only [StampFields.seconds, hdays]
    omega

/-- The stamp of a moment in the years 0 to 9999 is read back to this moment. -/
theorem readStamp?_stamp (h : InFourDigitYears seconds) :
    readStamp? (stamp seconds) = some seconds := by
  obtain ⟨f, hmoment, rfl, hyear, hstamp⟩ := h.stamp_eq
  have hyear : DigitsOf 4 f.year _ := digitsOf_padded (by decide) (by omega)
  have hmonth : DigitsOf 2 f.month _ :=
    digitsOf_padded (by decide) (hmoment.date.month_le.trans_lt (by decide))
  have hday : DigitsOf 2 f.day _ :=
    digitsOf_padded (by decide)
      ((hmoment.date.day_le.trans (daysInMonth_le _ _)).trans_lt (by decide))
  have hhour : DigitsOf 2 f.hour _ :=
    digitsOf_padded (by decide) (hmoment.hour_lt.trans (by decide))
  have hminute : DigitsOf 2 f.minute _ :=
    digitsOf_padded (by decide) (hmoment.minute_lt.trans (by decide))
  have hsecond : DigitsOf 2 f.second _ :=
    digitsOf_padded (by decide) (hmoment.second_lt.trans (by decide))
  apply readStamp?_eq_some.mpr
  simp only [hstamp, String.toList_append,
    StampFields.ofDigits_append hyear hmonth hday hhour hminute hsecond]
  refine ⟨⟨?_, ?_, hmoment⟩, trivial⟩
  · simp only [List.length_append, hyear.length_eq, hmonth.length_eq, hday.length_eq,
      hhour.length_eq, hminute.length_eq, hsecond.length_eq]
  · simp only [List.forall_mem_append]
    exact ⟨⟨⟨⟨⟨hyear.isDigit, hmonth.isDigit⟩, hday.isDigit⟩, hhour.isDigit⟩, hminute.isDigit⟩,
      hsecond.isDigit⟩

end Moment

/-! ## Stamps in a row -/

/-- Stamps of 14 digits that tell the seconds from a moment on, one after another, and come in this
order as texts too. -/
structure CountsFrom (start : Int) (dates : List String) : Prop where
  digits : ∀ d ∈ dates, d.toList.length = 14 ∧ ∀ c ∈ d.toList, c.isDigit = true
  reads : ∀ (i : Nat) (d : String), dates[i]? = some d → readStamp? d = some (start + i)
  increasing : dates.Pairwise (· < ·)
  distinct : dates.Nodup

theorem countsFrom_range {start : Int} {count : Nat} (hfirst : InFourDigitYears start)
    (hlast : InFourDigitYears (start + count)) :
    CountsFrom start ((List.range count).map fun i : Nat => changelogDate start i) := by
  have hread : ∀ i : Nat, i < count → readStamp? (changelogDate start i) = some (start + i) := by
    intro i hi
    apply readStamp?_stamp
    have hstart := hfirst.1
    have hend := hlast.2
    constructor <;> omega
  have hincreasing : ((List.range count).map fun i : Nat => changelogDate start i).Pairwise
      (· < ·) := by
    rw [List.pairwise_map]
    apply List.Pairwise.imp_of_mem _ List.pairwise_lt_range
    intro i j hi hj hij
    apply stamp_lt_of_readStamp?_lt (hread i (List.mem_range.mp hi))
      (hread j (List.mem_range.mp hj))
    omega
  have hdistinct : ∀ {d d' : String}, d < d' → d ≠ d' := by
    intro d d' hlt heq
    exact String.lt_irrefl d (heq ▸ hlt)
  refine ⟨?_, ?_, hincreasing, hincreasing.imp hdistinct⟩
  · intro d hd
    obtain ⟨i, hi, rfl⟩ := List.mem_map.mp hd
    obtain ⟨⟨hlength, hdigits, -⟩, -⟩ := readStamp?_eq_some.mp (hread i (List.mem_range.mp hi))
    exact ⟨hlength, hdigits⟩
  · intro i d hd
    obtain ⟨hi, rfl⟩ := List.getElem?_eq_some_iff.mp hd
    rw [List.length_map, List.length_range] at hi
    rw [List.getElem_map, List.getElem_range]
    exact hread i hi

example : ((List.range 3).map fun i : Nat => changelogDate 951782398 i) =
    ["20000228235958", "20000228235959", "20000229000000"] := by
  decide +kernel

end DomainModel
