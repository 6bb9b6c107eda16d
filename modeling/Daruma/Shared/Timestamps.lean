import Daruma.Library.Numerals
import Daruma.Shared.Ids
import Mathlib.Algebra.Ring.Int.Defs
import Mathlib.Algebra.Ring.Nat

/-! UTC timestamps as `chrono` keeps them, and the text that the database stores of them.
Within four-digit years the text of the earlier of two timestamps is the smaller one. -/
namespace Daruma

open Numerals

def isLeapYear (year : Int) : Bool := year % 4 = 0 && (year % 100 ≠ 0 || year % 400 = 0)

def monthLengths (leap : Bool) : List Nat :=
  [31, if leap then 29 else 28, 31, 30, 31, 30, 31, 31, 30, 31, 30, 31]

def daysBeforeYear (year : Int) : Int :=
  365 * year + (year + 3) / 4 - (year + 99) / 100 + (year + 399) / 400

theorem daysBeforeYear_succ (year : Int) :
    daysBeforeYear (year + 1) = daysBeforeYear year + (monthLengths (isLeapYear year)).sum := by
  have hLengths : (monthLengths (isLeapYear year)).sum = if isLeapYear year then 366 else 365 := by
    cases isLeapYear year <;> rfl
  rw [hLengths]
  unfold daysBeforeYear isLeapYear
  simp only [Bool.and_eq_true, Bool.or_eq_true, decide_eq_true_eq]
  split <;> omega

/-- A day of the Gregorian calendar, which is continued to all years. -/
structure Date where
  year : Int
  month : Nat
  day : Nat
  month_pos : 0 < month
  month_le : month ≤ 12
  day_pos : 0 < day
  day_le : day ≤ (monthLengths (isLeapYear year)).getD (month - 1) 0

namespace Date

variable {date other : Date}

def dayNumber (self : Date) : Int :=
  daysBeforeYear self.year + ((monthLengths (isLeapYear self.year)).take (self.month - 1)).sum + (self.day - 1)

theorem day_lt (date : Date) : date.day < 32 := by
  have hLengths : ∀ leap, ∀ i < 12, (monthLengths leap).getD i 0 < 32 := by decide
  have hMonth := date.month_pos
  have hLast := date.month_le
  exact Nat.lt_of_le_of_lt date.day_le (hLengths _ _ (by omega))

theorem sum_take_le (leap : Bool) {i j : Nat} (h : i < j) (hYear : j ≤ 12) :
    ((monthLengths leap).take i).sum + (monthLengths leap).getD i 0 ≤ ((monthLengths leap).take j).sum := by
  have hMonths : ∀ leap, ∀ j ≤ 12, ∀ i < j,
      ((monthLengths leap).take i).sum + (monthLengths leap).getD i 0 ≤ ((monthLengths leap).take j).sum := by
    decide
  exact hMonths leap j hYear i h

theorem dayNumber_lt_of_month (hYear : date.year = other.year) (h : date.month < other.month) :
    date.dayNumber < other.dayNumber := by
  have hPos := date.month_pos
  have hLast := other.month_le
  have hDay := date.day_le
  have hOther := other.day_pos
  have hMonths := sum_take_le (isLeapYear date.year) (i := date.month - 1) (j := other.month - 1) (by omega) (by omega)
  unfold dayNumber
  rw [← hYear]
  omega

theorem daysBeforeYear_le (date : Date) : daysBeforeYear date.year ≤ date.dayNumber := by
  have := date.day_pos
  unfold dayNumber
  omega

theorem dayNumber_lt_of_year (h : date.year < other.year) : date.dayNumber < other.dayNumber := by
  have hPos := date.month_pos
  have hLast := date.month_le
  have hDay := date.day_le
  have hMonths := sum_take_le (isLeapYear date.year) (i := date.month - 1) (j := 12) (by omega) le_rfl
  have hYear := daysBeforeYear_succ date.year
  have hTake : (monthLengths (isLeapYear date.year)).take 12 = monthLengths (isLeapYear date.year) := rfl
  rw [hTake] at hMonths
  have hOther := other.daysBeforeYear_le
  have hNext : daysBeforeYear (date.year + 1) ≤ daysBeforeYear other.year := by
    unfold daysBeforeYear
    omega
  unfold dayNumber at *
  omega

end Date

/-- A point in UTC. In a leap second the nanoseconds of second 59 go on beyond 10⁹. -/
structure DateTime extends Date where
  hour : Nat
  minute : Nat
  second : Nat
  nanosecond : Nat
  hour_lt : hour < 24
  minute_lt : minute < 60
  second_lt : second < 60
  nanosecond_lt : nanosecond < 2 * 10 ^ 9
  leap_second : 10 ^ 9 ≤ nanosecond → second = 59

namespace DateTime

variable {a b : DateTime}

/-- The seconds since the start of 1970, which is day 719528. -/
def timestamp (self : DateTime) : Int :=
  (self.dayNumber - 719528) * 86400 + self.hour * 3600 + self.minute * 60 + self.second

/-- The order of the instants: by the second, and by the nanoseconds within one. -/
instance : LT DateTime :=
  ⟨fun a b => a.timestamp < b.timestamp ∨ a.timestamp = b.timestamp ∧ a.nanosecond < b.nanosecond⟩

theorem lt_def : a < b ↔ a.timestamp < b.timestamp ∨ a.timestamp = b.timestamp ∧ a.nanosecond < b.nanosecond :=
  Iff.rfl

/-- The first of two timestamps has the smaller field where their fields first differ. -/
def FieldsLt (a b : DateTime) : Prop :=
  a.year < b.year ∨ a.year = b.year ∧ (a.month < b.month ∨ a.month = b.month ∧ (a.day < b.day ∨ a.day = b.day ∧
    (a.hour < b.hour ∨ a.hour = b.hour ∧ (a.minute < b.minute ∨ a.minute = b.minute ∧
      (a.second < b.second ∨ a.second = b.second ∧ a.nanosecond < b.nanosecond)))))

theorem FieldsLt.lt (h : FieldsLt a b) : a < b := by
  have hHour := a.hour_lt
  have hMinute := a.minute_lt
  have hSecond := a.second_lt
  rw [lt_def, timestamp, timestamp]
  rcases h with hYear | ⟨hYear, hMonth | ⟨hMonth, h⟩⟩
  · have := Date.dayNumber_lt_of_year hYear
    omega
  · have := Date.dayNumber_lt_of_month hYear hMonth
    omega
  · simp only [Date.dayNumber, hYear, hMonth]
    omega

theorem fieldsLt_or (h : a ≠ b) : FieldsLt a b ∨ FieldsLt b a := by
  by_contra hNone
  unfold FieldsLt at hNone
  have hFields : a.year = b.year ∧ a.month = b.month ∧ a.day = b.day ∧ a.hour = b.hour ∧ a.minute = b.minute ∧
      a.second = b.second ∧ a.nanosecond = b.nanosecond := by omega
  cases a with | mk date => cases date; cases b with | mk date => cases date; grind

theorem fieldsLt_of_lt (h : a < b) : FieldsLt a b := by
  refine (fieldsLt_or ?_).resolve_right fun hMore => ?_
  · rintro rfl
    rw [lt_def] at h
    omega
  · have := hMore.lt
    rw [lt_def] at h this
    omega

def digit (n : Nat) : UInt8 := '0'.toUInt8 + UInt8.ofNat n

abbrev digits (width n : Nat) : List UInt8 := numeral digit 10 width n

theorem digit_lt (i j : Nat) (h : i < j) (hDigit : j < 10) : digit i < digit j := by
  have hDigits : ∀ j < 10, ∀ i < j, digit i < digit j := by decide
  exact hDigits j hDigit i h

/-- The fraction of a second in so many digits, with the point. -/
def fraction (width nanos : Nat) : List UInt8 :=
  if width = 0 then [] else '.'.toUInt8 :: (digits 9 nanos).take width

def offset : List UInt8 := ['+', '0', '0', ':', '0', '0'].map Char.toUInt8

/-- `YYYY-MM-DDTHH:MM:SS`, the fraction in so many digits, and the offset. -/
def rfc3339 (self : DateTime) (width : Nat) : List UInt8 :=
  digits 4 self.year.toNat ++ '-'.toUInt8 :: (digits 2 self.month ++ '-'.toUInt8 :: (digits 2 self.day ++
    'T'.toUInt8 :: (digits 2 self.hour ++ ':'.toUInt8 :: (digits 2 self.minute ++ ':'.toUInt8 ::
      (digits 2 (self.second + self.nanosecond / 10 ^ 9) ++
        (fraction width (self.nanosecond % 10 ^ 9) ++ offset))))))

/-- So many digits of the fraction leave out zeros only. -/
def Shows (self : DateTime) (width : Nat) : Prop :=
  ∀ c ∈ (digits 9 (self.nanosecond % 10 ^ 9)).drop width, c = digit 0

instance (self : DateTime) (width : Nat) : Decidable (self.Shows width) :=
  inferInstanceAs (Decidable (∀ c ∈ (digits 9 (self.nanosecond % 10 ^ 9)).drop width, c = digit 0))

def FourDigitYear (self : DateTime) : Prop := 0 ≤ self.year ∧ self.year ≤ 9999

/-- The first field that differs decides, and what follows decides where none has differed yet. -/
theorem digits_lt {width m n : Nat} {u v : List UInt8} {Rest : Prop} (h : m < n ∨ m = n ∧ Rest) (hFits : n < 10 ^ width)
    (hRest : Rest → u < v) : digits width m ++ u < digits width n ++ v := by
  rcases h with hLess | ⟨rfl, h⟩
  · exact append_lt_append (by rw [numeral_length, numeral_length]) (numeral_lt digit_lt hLess hFits)
  · exact List.append_left_lt (hRest h)

/-- The offset starts below the point, and the point and every digit are above it. -/
theorem fraction_lt {w n nanos other : Nat} (h : nanos < other) (hFits : other < 10 ^ 9)
    (hShows : ∀ c ∈ (digits 9 other).drop n, c = digit 0) : fraction w nanos ++ offset < fraction n other ++ offset := by
  have hDigits : digits 9 nanos < digits 9 other := numeral_lt digit_lt h hFits
  have hLength : (digits 9 nanos).length = (digits 9 other).length := by rw [numeral_length, numeral_length]
  have hZero : ∀ c ∈ digits 9 nanos, ¬c < digit 0 := by
    intro c hc
    obtain ⟨i, hDigit, rfl⟩ := mem_numeral (by decide) hc
    have hNone : ∀ i < 10, ¬digit i < digit 0 := by decide
    exact hNone i hDigit
  have hStop : ∀ c ∈ digits 9 other, '+'.toUInt8 < c := by
    intro c hc
    obtain ⟨i, hDigit, rfl⟩ := mem_numeral (by decide) hc
    have hAll : ∀ i < 10, '+'.toUInt8 < digit i := by decide
    exact hAll i hDigit
  unfold fraction
  split
  · split
    · next hNone => exact absurd hDigits (not_lt_of_zeros hLength hZero (by rwa [hNone] at hShows))
    · exact .rel (by decide)
  · split
    · next hNone => exact absurd hDigits (not_lt_of_zeros hLength hZero (by rwa [hNone] at hShows))
    · exact .cons (take_stop_lt hLength hDigits hZero hStop hShows)

theorem rfc3339_lt {w n : Nat} (h : a < b) (hFour : a.FourDigitYear) (hFour' : b.FourDigitYear) (hShows : b.Shows n) :
    a.rfc3339 w < b.rfc3339 n := by
  obtain ⟨hFirst, -⟩ := hFour
  obtain ⟨-, hLast⟩ := hFour'
  have hMonth := b.month_le
  have hHour := b.hour_lt
  have hMinute := b.minute_lt
  have hSecond := b.second_lt
  have hNanos := b.nanosecond_lt
  have hYears : a.year.toNat < b.year.toNat ∨ a.year.toNat = b.year.toNat ∧ _ :=
    (fieldsLt_of_lt h).imp (by omega) (And.imp_left (congrArg Int.toNat))
  refine digits_lt hYears (by omega) fun h => .cons ?_
  refine digits_lt h (by omega) fun h => .cons ?_
  refine digits_lt h (b.toDate.day_lt.trans (by decide)) fun h => .cons ?_
  refine digits_lt h (by omega) fun h => .cons ?_
  refine digits_lt h (by omega) fun h => .cons ?_
  -- A leap second is written as second 60, its nanoseconds starting anew.
  have hWritten : a.second + a.nanosecond / 10 ^ 9 < b.second + b.nanosecond / 10 ^ 9 ∨
      a.second + a.nanosecond / 10 ^ 9 = b.second + b.nanosecond / 10 ^ 9 ∧
        a.nanosecond % 10 ^ 9 < b.nanosecond % 10 ^ 9 := by
    have hNanos' := a.nanosecond_lt
    have hLeap := a.leap_second
    omega
  exact digits_lt hWritten (by omega) fun hFraction => fraction_lt hFraction (by omega) hShows

/-- What is taken of `to_rfc3339`: in a four-digit year it writes no fraction or three, six or nine digits
of it, of which it leaves out zeros only. -/
def Writes (toRfc3339 : DateTime → List UInt8) : Prop :=
  ∀ self : DateTime, self.FourDigitYear → ∃ width ∈ [0, 3, 6, 9], self.Shows width ∧ toRfc3339 self = self.rfc3339 width

theorem Writes.lt_iff {toRfc3339 : DateTime → List UInt8} (h : Writes toRfc3339) (hFour : a.FourDigitYear)
    (hFour' : b.FourDigitYear) : toRfc3339 a < toRfc3339 b ↔ a < b := by
  have hKeeps : ∀ {a b : DateTime}, a.FourDigitYear → b.FourDigitYear → a < b → toRfc3339 a < toRfc3339 b := by
    intro a b hFour hFour' hLess
    obtain ⟨w, -, -, hText⟩ := h a hFour
    obtain ⟨n, -, hShows, hText'⟩ := h b hFour'
    rw [hText, hText']
    exact rfc3339_lt hLess hFour hFour' hShows
  refine ⟨fun hText => ?_, hKeeps hFour hFour'⟩
  by_cases hSame : a = b
  · exact absurd (hSame ▸ hText) (List.lt_irrefl _)
  · exact ((fieldsLt_or hSame).resolve_right fun hMore => List.lt_asymm hText (hKeeps hFour' hFour hMore.lt)).lt

/-- The fraction with the fewest digits that leave out zeros only. -/
def secondsFormat (self : DateTime) : Nat := ([0, 3, 6].find? fun width => self.Shows width).getD 9

theorem writes_secondsFormat : Writes fun self => self.rfc3339 self.secondsFormat := by
  intro self _
  cases hFind : [0, 3, 6].find? fun width => self.Shows width with
  | none =>
    refine ⟨9, by decide, ?_, by simp [secondsFormat, hFind]⟩
    intro c hc
    rw [List.drop_eq_nil_of_le (by rw [numeral_length])] at hc
    cases hc
  | some width =>
    refine ⟨width, List.mem_append_left [9] (List.mem_of_find?_eq_some hFind), ?_, by simp [secondsFormat, hFind]⟩
    exact of_decide_eq_true (List.find?_some hFind :)

end DateTime

def yearOf (days : Int) : Int :=
  let guess := days * 400 / 146097
  if days < daysBeforeYear guess then guess - 1
  else if days < daysBeforeYear (guess + 1) then guess else guess + 1

/-- The mean year has 146097 / 400 days. -/
theorem daysBeforeYear_bounds (year : Int) :
    146097 * year - 400 ≤ 400 * daysBeforeYear year ∧ 400 * daysBeforeYear year ≤ 146097 * year + 800 := by
  unfold daysBeforeYear
  omega

theorem yearOf_spec (days : Int) : daysBeforeYear (yearOf days) ≤ days ∧ days < daysBeforeYear (yearOf days + 1) := by
  have hGuess := daysBeforeYear_bounds (days * 400 / 146097)
  have hBefore := daysBeforeYear_bounds (days * 400 / 146097 - 1)
  have hAfter := daysBeforeYear_bounds (days * 400 / 146097 + 1 + 1)
  unfold yearOf
  simp only
  split
  · rw [Int.sub_add_cancel]
    omega
  · split <;> omega

/-- The block of consecutive blocks that has the `n`-th item, and the place of the item in it. -/
def locate : List Nat → Nat → Nat × Nat
  | [], n => (0, n)
  | size :: sizes, n => if n < size then (0, n) else (locate sizes (n - size)).map (· + 1) id

theorem locate_spec {sizes : List Nat} {n : Nat} (h : n < sizes.sum) :
    (locate sizes n).1 < sizes.length ∧ (locate sizes n).2 < sizes.getD (locate sizes n).1 0 ∧
      (sizes.take (locate sizes n).1).sum + (locate sizes n).2 = n := by
  induction sizes generalizing n with
  | nil => cases h
  | cons size sizes ih =>
    unfold locate
    split
    · next hHere => exact ⟨Nat.succ_pos _, hHere, Nat.zero_add n⟩
    · rw [List.sum_cons] at h
      obtain ⟨hBlock, hPlace, hSum⟩ := ih (n := n - size) (by omega)
      refine ⟨Nat.succ_lt_succ hBlock, hPlace, ?_⟩
      simp only [Prod.map, List.take_succ_cons, List.sum_cons, id]
      omega

def inYear (days : Int) : Nat × Nat :=
  locate (monthLengths (isLeapYear (yearOf days))) (days - daysBeforeYear (yearOf days)).toNat

theorem inYear_spec (days : Int) :
    (inYear days).1 < 12 ∧ (inYear days).2 < (monthLengths (isLeapYear (yearOf days))).getD (inYear days).1 0 ∧
      (((monthLengths (isLeapYear (yearOf days))).take (inYear days).1).sum + (inYear days).2 : Int) =
        days - daysBeforeYear (yearOf days) := by
  obtain ⟨hFirst, hNext⟩ := yearOf_spec days
  rw [daysBeforeYear_succ] at hNext
  obtain ⟨hMonth, hDay, hSum⟩ := @locate_spec (monthLengths (isLeapYear (yearOf days)))
    (days - daysBeforeYear (yearOf days)).toNat (by omega)
  refine ⟨hMonth, hDay, ?_⟩
  unfold inYear
  omega

def Date.ofDayNumber (days : Int) : Date where
  year := yearOf days
  month := (inYear days).1 + 1
  day := (inYear days).2 + 1
  month_pos := Nat.succ_pos _
  month_le := (inYear_spec days).1
  day_pos := Nat.succ_pos _
  day_le := (inYear_spec days).2.1

@[simp] theorem Date.dayNumber_ofDayNumber (days : Int) : (ofDayNumber days).dayNumber = days := by
  obtain ⟨-, -, hSum⟩ := inYear_spec days
  simp only [dayNumber, ofDayNumber, Nat.add_sub_cancel]
  omega

/-- The calendar reading of a stored instant. -/
def utc (instant : Timestamp) : DateTime where
  toDate := .ofDayNumber (instant / (86400 * 10 ^ 9) + 719528)
  hour := (instant / (3600 * 10 ^ 9) % 24).toNat
  minute := (instant / (60 * 10 ^ 9) % 60).toNat
  second := (instant / 10 ^ 9 % 60).toNat
  nanosecond := (instant % 10 ^ 9).toNat
  hour_lt := by omega
  minute_lt := by omega
  second_lt := by omega
  nanosecond_lt := by omega
  leap_second := by omega

theorem utc_lt_iff {a b : Int} : utc a < utc b ↔ a < b := by
  have hTimestamp : ∀ instant, (utc instant).timestamp = instant / 10 ^ 9 := by
    intro instant
    simp only [DateTime.timestamp, utc, Date.dayNumber_ofDayNumber]
    omega
  rw [DateTime.lt_def, hTimestamp, hTimestamp]
  simp only [utc]
  omega

end Daruma
